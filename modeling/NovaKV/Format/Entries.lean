import NovaKV.Format.Building
import NovaKV.Format.SSTableReader
import NovaKV.Lib.Lookup

open NovaKV.Lib

namespace NovaKV.Format

/-- The record as a reader reports it. -/
def reported (record : Key × ValueRecord) : Bytes × StoredRecord := (record.1, record.2.stored)

section

variable {file rest : Bytes} {offset pos size : UInt64}

theorem word_add {a b : UInt64} (h : a.toNat + b.toNat < 2 ^ 64) : (a + b).toNat = a.toNat + b.toNat := by
  rw [UInt64.toNat_add, Nat.mod_eq_of_lt h]

theorem word_ofNat {n : Nat} (h : n < 2 ^ 64) : (UInt64.ofNat n).toNat = n := UInt64.toNat_ofNat_of_lt' h

/-- A field is followed by what follows it, at the position behind it. -/
theorem holds_next (first : Bytes) (count : UInt64) (hfile : file.length < 2 ^ 63)
    (h : Holds file (offset + pos).toNat (first ++ rest)) (hcount : count.toNat = first.length) :
    Holds file (offset + (pos + count)).toNat rest := by
  obtain ⟨hfirst, hrest⟩ := h.append
  have hle := hfirst.le
  rw [← UInt64.add_assoc, word_add (by omega), hcount]
  exact hrest

/-- Where the fields of a block entry stand. -/
structure EntryAt (file : Bytes) (offset pos : UInt64) (key value : Bytes) (type : UInt8) (rest : Bytes) :
    Prop where
  at_key_len : Holds file (offset + pos).toNat (leBytes 4 key.length)
  at_key : Holds file (offset + (pos + 4)).toNat key
  at_type : Holds file (offset + (pos + 4 + UInt64.ofNat key.length)).toNat [type]
  at_val_len : Holds file (offset + (pos + 4 + UInt64.ofNat key.length + 1)).toNat (leBytes 4 value.length)
  at_value : Holds file (offset + (pos + 4 + UInt64.ofNat key.length + 1 + 4)).toNat value
  at_rest : Holds file
    (offset + (pos + 4 + UInt64.ofNat key.length + 1 + 4 + UInt64.ofNat value.length)).toNat rest

theorem entryAt_of_holds {key value : Bytes} {type : UInt8} (hfile : file.length < 2 ^ 63)
    (h : Holds file (offset + pos).toNat (block_entry key value type ++ rest)) :
    EntryAt file offset pos key value type rest := by
  have hlength := h.append.1.le
  rw [block_entry_length] at hlength
  have hentry : block_entry key value type ++ rest =
      leBytes 4 key.length ++ (key ++ ([type] ++ (leBytes 4 value.length ++ (value ++ rest)))) := by
    simp [block_entry]
  rw [hentry] at h
  have hkey := holds_next (leBytes 4 key.length) 4 hfile h (by simp)
  have htype := holds_next key (UInt64.ofNat key.length) hfile hkey (word_ofNat (by omega))
  have hval_len := holds_next [type] 1 hfile htype rfl
  have hvalue := holds_next (leBytes 4 value.length) 4 hfile hval_len (by simp)
  have hrest := holds_next value (UInt64.ofNat value.length) hfile hvalue (word_ofNat (by omega))
  exact ⟨h.append.1, hkey.append.1, htype.append.1, hval_len.append.1, hvalue.append.1, hrest⟩

/-- The positions inside an entry that ends below `2 ^ 64` do not wrap. -/
theorem entry_positions {key value : Bytes} (hend : pos.toNat + (9 + key.length + value.length) < 2 ^ 64) :
    (pos + 4).toNat = pos.toNat + 4 ∧
      (pos + 4 + UInt64.ofNat key.length).toNat = pos.toNat + 4 + key.length ∧
      (pos + 4 + UInt64.ofNat key.length + 1).toNat = pos.toNat + 5 + key.length ∧
      (pos + 4 + UInt64.ofNat key.length + 1 + 4).toNat = pos.toNat + 9 + key.length ∧
      (pos + 4 + UInt64.ofNat key.length + 1 + 4 + UInt64.ofNat value.length).toNat =
        pos.toNat + 9 + key.length + value.length := by
  have hkey : (UInt64.ofNat key.length).toNat = key.length := word_ofNat (by omega)
  have hvalue : (UInt64.ofNat value.length).toNat = value.length := word_ofNat (by omega)
  simp only [UInt64.toNat_add, hkey, hvalue, UInt64.reduceToNat]
  omega

/-- `ForEach` reports the records of a block. -/
theorem walk_block_yields (hfile : file.length < 2 ^ 63) {records : List (Key × ValueRecord)} {passes : Nat}
    (hfits : ∀ record ∈ records, record.1.length < 2 ^ 32 ∧ record.2.value.length < 2 ^ 32)
    (hpasses : records.length < passes) (hpos : pos.toNat + (encoded_block records).length = size.toNat)
    (h : Holds file (offset + pos).toNat (encoded_block records ++ rest)) :
    (walk_block offset size passes pos).Yields file (records.map reported) := by
  induction records generalizing pos passes with
  | nil =>
    obtain ⟨passes, rfl⟩ := Nat.exists_eq_succ_of_ne_zero (Nat.ne_zero_of_lt hpasses)
    have hdone : ¬ pos < size := by
      rw [UInt64.lt_iff_toNat_lt]
      simp [encoded_block] at hpos
      omega
    rw [walk_block, if_neg hdone]
    rfl
  | cons record records ih =>
    obtain ⟨passes, rfl⟩ := Nat.exists_eq_succ_of_ne_zero (Nat.ne_zero_of_lt hpasses)
    obtain ⟨key, ⟨type, value⟩⟩ := record
    obtain ⟨hkey, hvalue⟩ := hfits _ List.mem_cons_self
    have hblock : encoded_block ((key, ⟨type, value⟩) :: records) =
        block_entry key value type.to_u8 ++ encoded_block records := rfl
    rw [hblock, List.length_append, block_entry_length] at hpos
    rw [hblock, List.append_assoc] at h
    have hsize := size.toNat_lt
    have hentry := entryAt_of_holds hfile h
    obtain ⟨hpos1, hpos2, hpos3, hpos4, hpos5⟩ := @entry_positions pos key value (by omega)
    have hstart : pos < size := by
      rw [UInt64.lt_iff_toNat_lt]
      omega
    have hroom : ∀ {next : UInt64}, next.toNat ≤ size.toNat → ¬ next > size := by
      intro next hnext
      rw [gt_iff_lt, UInt64.lt_iff_toNat_lt]
      omega
    rw [walk_block, if_pos hstart, if_neg (hroom (by omega))]
    refine (Fetch.number_yields hentry.at_key_len hkey).bind ?_
    rw [if_neg (hroom (by omega))]
    refine (Fetch.bytes_yields hentry.at_key rfl).bind ?_
    rw [if_neg (hroom (by omega))]
    refine (Fetch.bytes_yields hentry.at_type rfl).bind ?_
    rw [if_neg (hroom (by omega))]
    refine (Fetch.number_yields hentry.at_val_len hvalue).bind ?_
    rw [if_neg (hroom (by omega))]
    refine (Fetch.bytes_yields hentry.at_value rfl).bind ?_
    refine (ih (fun other hother => hfits other (List.mem_cons_of_mem _ hother)) ?_ ?_ hentry.at_rest).bind ?_
    · exact Nat.lt_of_succ_lt_succ hpasses
    · omega
    · rfl

/-- `GetRecord` finds the record of a key in a block. -/
theorem scan_block_yields (hfile : file.length < 2 ^ 63) (key : Key) {records : List (Key × ValueRecord)}
    {passes : Nat} (hfits : ∀ record ∈ records, record.1.length < 2 ^ 32 ∧ record.2.value.length < 2 ^ 32)
    (hpasses : records.length < passes) (hpos : pos.toNat + (encoded_block records).length = size.toNat)
    (h : Holds file (offset + pos).toNat (encoded_block records ++ rest)) :
    (scan_block key offset size passes pos).Yields file
      ((records.lookup key).map fun record => record.cleared.stored) := by
  induction records generalizing pos passes with
  | nil =>
    obtain ⟨passes, rfl⟩ := Nat.exists_eq_succ_of_ne_zero (Nat.ne_zero_of_lt hpasses)
    have hdone : ¬ pos < size := by
      rw [UInt64.lt_iff_toNat_lt]
      simp [encoded_block] at hpos
      omega
    rw [scan_block, if_neg hdone]
    rfl
  | cons record records ih =>
    obtain ⟨passes, rfl⟩ := Nat.exists_eq_succ_of_ne_zero (Nat.ne_zero_of_lt hpasses)
    obtain ⟨curr_key, ⟨type, value⟩⟩ := record
    obtain ⟨hkey, hvalue⟩ := hfits _ List.mem_cons_self
    have hblock : encoded_block ((curr_key, ⟨type, value⟩) :: records) =
        block_entry curr_key value type.to_u8 ++ encoded_block records := rfl
    rw [hblock, List.length_append, block_entry_length] at hpos
    rw [hblock, List.append_assoc] at h
    have hsize := size.toNat_lt
    have hentry := entryAt_of_holds hfile h
    obtain ⟨-, -, -, -, hpos5⟩ := @entry_positions pos curr_key value (by omega)
    have hstart : pos < size := by
      rw [UInt64.lt_iff_toNat_lt]
      omega
    rw [scan_block, if_pos hstart]
    refine (Fetch.number_yields hentry.at_key_len hkey).bind ?_
    refine (Fetch.bytes_yields hentry.at_key rfl).bind ?_
    refine (Fetch.bytes_yields hentry.at_type rfl).bind ?_
    refine (Fetch.number_yields hentry.at_val_len hvalue).bind ?_
    by_cases hfound : curr_key = key
    · subst hfound
      rw [if_pos rfl, List.lookup_cons_self, Option.map_some]
      cases type with
      | kValue =>
        rw [List.headD_cons, if_pos rfl]
        exact (Fetch.bytes_yields hentry.at_value rfl).bind rfl
      | kDeletion =>
        rw [List.headD_cons, if_neg (by decide)]
        rfl
    · rw [if_neg hfound, lookup_cons_of_ne (Ne.symm hfound)]
      exact ih (fun other hother => hfits other (List.mem_cons_of_mem _ hother))
        (Nat.lt_of_succ_lt_succ hpasses) (by omega) hentry.at_rest

theorem encode_length (handle : BlockHandle) : handle.encode.length = 16 := by
  simp [BlockHandle.encode]

/-- The index block is read back. -/
theorem read_index_entries_yields (hfile : file.length < 2 ^ 63) {entries before : List IndexEntry} {passes : Nat}
    (hfits : ∀ entry ∈ entries, entry.last_key.length < 2 ^ 32) (hpasses : entries.length < passes)
    (hpos : pos.toNat + (encoded_index entries).length = size.toNat)
    (h : Holds file (offset + pos).toNat (encoded_index entries ++ rest)) :
    (read_index_entries offset size passes pos before).Yields file (before ++ entries) := by
  induction entries generalizing pos passes before with
  | nil =>
    obtain ⟨passes, rfl⟩ := Nat.exists_eq_succ_of_ne_zero (Nat.ne_zero_of_lt hpasses)
    have hdone : ¬ pos < size := by
      rw [UInt64.lt_iff_toNat_lt]
      simp [encoded_index] at hpos
      omega
    rw [read_index_entries, if_neg hdone, List.append_nil]
    rfl
  | cons entry entries ih =>
    obtain ⟨passes, rfl⟩ := Nat.exists_eq_succ_of_ne_zero (Nat.ne_zero_of_lt hpasses)
    obtain ⟨last_key, handle⟩ := entry
    have hkey := hfits _ List.mem_cons_self
    have hblock : encoded_index (⟨last_key, handle⟩ :: entries) =
        block_entry last_key handle.encode 1 ++ encoded_index entries := rfl
    rw [hblock, List.length_append, block_entry_length, encode_length] at hpos
    rw [hblock, List.append_assoc] at h
    have hsize := size.toNat_lt
    have hentry := entryAt_of_holds hfile h
    have hpositions := @entry_positions pos last_key handle.encode (by rw [encode_length]; omega)
    have hstart : pos < size := by
      rw [UInt64.lt_iff_toNat_lt]
      omega
    have hword : ∀ next : UInt64, next + 8 + 8 = next + UInt64.ofNat handle.encode.length := by
      intro next
      rw [encode_length, UInt64.add_assoc]
      rfl
    have hhandle := hentry.at_value
    have hsecond := holds_next (leBytes 8 handle.offset.toNat) 8 hfile hhandle (by simp)
    rw [read_index_entries, if_pos hstart]
    refine (Fetch.number_yields hentry.at_key_len hkey).bind ?_
    refine (Fetch.bytes_yields hentry.at_key rfl).bind ?_
    refine (Fetch.bytes_yields hentry.at_type rfl).bind ?_
    refine (Fetch.bytes_yields hentry.at_val_len (leBytes_length 4 _)).bind ?_
    refine (Fetch.number_yields hhandle.append.1 (UInt64.toNat_lt _)).bind ?_
    refine (Fetch.number_yields hsecond (UInt64.toNat_lt _)).bind ?_
    rw [hword, UInt64.ofNat_toNat, UInt64.ofNat_toNat]
    rw [List.append_cons]
    refine ih (fun other hother => hfits other (List.mem_cons_of_mem _ hother))
      (Nat.lt_of_succ_lt_succ hpasses) ?_ hentry.at_rest
    rw [hpositions.2.2.2.2, encode_length]
    omega

end

end NovaKV.Format
