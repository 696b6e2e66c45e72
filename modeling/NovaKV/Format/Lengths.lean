import NovaKV.Format.Entries
import NovaKV.Memory.TornLog

open NovaKV.Lib

namespace NovaKV.Format

/-- The log gives the record back, and all the records after it. -/
def LogAgrees (key : Key) (record : ValueRecord) : Prop :=
  ∀ (locals : Uninitialized) (later : List LogRecord), (∀ other ∈ later, other.Fits) →
    delivered locals ⟨add_log key record.value record.type.to_u8 ++ log_file later, true⟩ =
      (record.type.to_u8, key, record.value) :: later

/-- `ForEach` decodes the entry wherever it stands as a block in a file. -/
def BlockAgrees (key : Key) (record : ValueRecord) : Prop :=
  ∀ (file : Bytes) (mem : Memory) (offset size : UInt64), file.length < 2 ^ 63 → Maps mem file →
    Holds file offset.toNat (block_entry key record.value record.type.to_u8) →
    size.toNat = (block_entry key record.value record.type.to_u8).length →
    ((walk_block offset size positions 0).run mem).1 = some [(key, record.stored)]

section

variable {key : Key} {record : ValueRecord}

theorem logAgrees_iff : LogAgrees key record ↔ key.length < 2 ^ 32 ∧ record.value.length < 2 ^ 32 := by
  constructor
  · intro h
    have hmem : ((record.type.to_u8, key, record.value) : LogRecord) ∈
        delivered ⟨0, 0, 0⟩ ⟨add_log key record.value record.type.to_u8 ++ log_file [], true⟩ := by
      rw [h ⟨0, 0, 0⟩ [] (by simp)]
      exact List.mem_cons_self
    exact delivered_fits hmem
  · intro hfits locals later hlater
    have hfile : add_log key record.value record.type.to_u8 ++ log_file later =
        log_file ((record.type.to_u8, key, record.value) :: later) ++ [] := by
      rw [List.append_nil]
      rfl
    have hall : ∀ other ∈ (record.type.to_u8, key, record.value) :: later, LogRecord.Fits other := by
      intro other hother
      rcases List.mem_cons.mp hother with rfl | hother
      · exact hfits
      · exact hlater other hother
    have hempty : delivered locals ⟨[], true⟩ = [] := delivered_of_none (load_record_of_short (by simp))
    rw [hfile, delivered_log_file hall, hempty, List.append_nil]

/-- Whatever memory holds, lengths read from four bytes are below `2 ^ 32`. -/
theorem walk_block_fits (mem : Memory) (offset size : UInt64) (passes : Nat) (pos : UInt64)
    {calls : List (Bytes × StoredRecord)} (h : ((walk_block offset size passes pos).run mem).1 = some calls) :
    ∀ call ∈ calls, call.1.length < 2 ^ 32 ∧ call.2.value.length < 2 ^ 32 := by
  induction passes generalizing pos calls with
  | zero => cases h
  | succ passes ih =>
    rw [walk_block] at h
    have hnone : ∀ {calls : List (Bytes × StoredRecord)},
        ((Pure.pure [] : Fetch (List (Bytes × StoredRecord))).run mem).1 = some calls →
        ∀ call ∈ calls, call.1.length < 2 ^ 32 ∧ call.2.value.length < 2 ^ 32 := by
      rintro _ ⟨⟩ call hcall
      cases hcall
    split at h
    · split at h
      · exact hnone h
      obtain ⟨key_len, hkey_len, h⟩ := Fetch.run_bind.mp h
      dsimp only at h
      split at h
      · exact hnone h
      obtain ⟨key, hkey, h⟩ := Fetch.run_bind.mp h
      split at h
      · exact hnone h
      obtain ⟨vtype, -, h⟩ := Fetch.run_bind.mp h
      split at h
      · exact hnone h
      obtain ⟨val_len, hval_len, h⟩ := Fetch.run_bind.mp h
      split at h
      · exact hnone h
      obtain ⟨value, hvalue, h⟩ := Fetch.run_bind.mp h
      obtain ⟨rest, hrest, h⟩ := Fetch.run_bind.mp h
      cases h
      intro call hcall
      rcases List.mem_cons.mp hcall with rfl | hcall
      · rw [Fetch.length_of_run_bytes hkey, Fetch.length_of_run_bytes hvalue]
        exact ⟨Fetch.lt_of_run_number hkey_len, Fetch.lt_of_run_number hval_len⟩
      · exact ih _ hrest call hcall
    · exact hnone h

theorem blockAgrees_of_fits (hkey : key.length < 2 ^ 32) (hvalue : record.value.length < 2 ^ 32) :
    BlockAgrees key record := by
  intro file mem offset size hfile hmaps hholds hsize
  have hblock : encoded_block [(key, record)] = block_entry key record.value record.type.to_u8 := by
    simp [encoded_block]
  have hfits : ∀ other ∈ [(key, record)], other.1.length < 2 ^ 32 ∧ other.2.value.length < 2 ^ 32 := by
    intro other hother
    rw [List.mem_singleton.mp hother]
    exact ⟨hkey, hvalue⟩
  have hpasses : [(key, record)].length < positions := by
    rw [positions, List.length_singleton]
    decide
  have hpos : (0 : UInt64).toNat + (encoded_block [(key, record)]).length = size.toNat := by
    rw [hblock, hsize]
    simp
  have hstart : Holds file (offset + 0).toNat (encoded_block [(key, record)] ++ []) := by
    rwa [UInt64.add_zero, hblock, List.append_nil]
  exact Fetch.run_of_yields hmaps (walk_block_yields hfile hfits hpasses hpos hstart)

theorem blockAgrees_iff (hlength : (block_entry key record.value record.type.to_u8).length < 2 ^ 63) :
    BlockAgrees key record ↔ key.length < 2 ^ 32 ∧ record.value.length < 2 ^ 32 := by
  refine ⟨fun h => ?_, fun h => blockAgrees_of_fits h.1 h.2⟩
  let entry := block_entry key record.value record.type.to_u8
  have hword : (UInt64.ofNat entry.length).toNat = entry.length :=
    word_ofNat (Nat.lt_trans hlength (by decide))
  have hrun := h entry (.ofFile entry) 0 _ hlength (maps_ofFile (Nat.lt_trans hlength (by decide)))
    ⟨[], [], by simp [entry], rfl⟩ hword
  exact walk_block_fits _ _ _ _ _ hrun _ (List.mem_singleton_self _)

/-- A record survives both formats exactly if its lengths fit 32 bits: then the log
gives it back with all later records, and `ForEach` decodes its block entry. -/
theorem lengths_agree_iff (key : Key) (record : ValueRecord) :
    LogAgrees key record ∧ BlockAgrees key record ↔ key.length < 2 ^ 32 ∧ record.value.length < 2 ^ 32 :=
  ⟨fun h => logAgrees_iff.mp h.1, fun h => ⟨logAgrees_iff.mpr h, blockAgrees_of_fits h.1 h.2⟩⟩

/-- A value of `2 ^ 32` bytes comes back neither from the log nor from its block. -/
theorem long_value_lost :
    ¬ LogAgrees [107] ⟨.kValue, List.replicate (2 ^ 32) 0⟩ ∧
      ¬ BlockAgrees [107] ⟨.kValue, List.replicate (2 ^ 32) 0⟩ := by
  have hlong : ¬ (List.replicate (2 ^ 32) (0 : UInt8)).length < 2 ^ 32 := by
    rw [List.length_replicate]
    exact Nat.lt_irrefl _
  refine ⟨fun h => hlong (logAgrees_iff.mp h).2, fun h => hlong ((blockAgrees_iff ?_).mp h).2⟩
  rw [block_entry_length, List.length_replicate]
  decide

end

end NovaKV.Format
