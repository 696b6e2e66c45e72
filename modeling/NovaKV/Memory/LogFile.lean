import NovaKV.Memory.WalHandler

open NovaKV.Lib

namespace NovaKV

/-- The arguments of one `AddLog`, and of one call of the callback of `LoadLog`:
type, key and value. -/
abbrev LogRecord := UInt8 × Bytes × Bytes

def LogRecord.payload (record : LogRecord) : Bytes := log_payload record.2.1 record.2.2 record.1

def LogRecord.encoded (record : LogRecord) : Bytes := add_log record.2.1 record.2.2 record.1

/-- The lengths fit their 32-bit fields. -/
def LogRecord.Fits (record : LogRecord) : Prop := record.2.1.length < 2 ^ 32 ∧ record.2.2.length < 2 ^ 32

/-- The file that `AddLog` leaves after these records. -/
def log_file (records : List LogRecord) : Bytes := records.flatMap LogRecord.encoded

/-- The sequence of calls that `LoadLog` makes on a file. -/
def delivered (locals : Uninitialized) (src : InputStream) : List LogRecord :=
  load_log locals (fun calls type key value => calls ++ [(type, key, value)]) src []

section

variable {locals : Uninitialized} {src after : InputStream} {record : LogRecord} {records : List LogRecord}

theorem load_log_of_none {σ : Type} {callback : σ → UInt8 → Bytes → Bytes → σ} {state : σ}
    (h : load_record locals src = none) : load_log locals callback src state = state := by
  rw [load_log]
  split
  · rfl
  · rename_i hsome
    rw [h] at hsome
    cases hsome

theorem load_log_of_some {σ : Type} {callback : σ → UInt8 → Bytes → Bytes → σ} {state : σ}
    (h : load_record locals src = some (record, after)) :
    load_log locals callback src state =
      load_log locals callback after (callback state record.1 record.2.1 record.2.2) := by
  rw [load_log]
  split
  · rename_i hnone
    rw [h] at hnone
    cases hnone
  · rename_i hsome
    rw [h] at hsome
    cases hsome
    rfl

theorem load_log_calls (calls : List LogRecord) :
    load_log locals (fun calls type key value => calls ++ [(type, key, value)]) src calls =
      calls ++ delivered locals src := by
  induction hlength : src.rest.length using Nat.strong_induction_on generalizing src calls with
  | _ n ih =>
    cases hrecord : load_record locals src with
    | none => rw [delivered, load_log_of_none hrecord, load_log_of_none hrecord, List.append_nil]
    | some found =>
      obtain ⟨record, after⟩ := found
      have hshorter := load_record_lt hrecord
      rw [delivered, load_log_of_some hrecord, load_log_of_some hrecord,
        ih _ (hlength ▸ hshorter) _ rfl, ih _ (hlength ▸ hshorter) _ rfl]
      simp

theorem delivered_of_none (h : load_record locals src = none) : delivered locals src = [] :=
  load_log_of_none h

theorem delivered_of_some (h : load_record locals src = some (record, after)) :
    delivered locals src = record :: delivered locals after := by
  rw [delivered, load_log_of_some h, load_log_calls]
  rfl

/-- Whole records are delivered one by one, whatever follows them. -/
theorem delivered_log_file (hfits : ∀ record ∈ records, record.Fits) (rest : Bytes) :
    delivered locals ⟨log_file records ++ rest, true⟩ = records ++ delivered locals ⟨rest, true⟩ := by
  induction records with
  | nil => rfl
  | cons record records ih =>
    obtain ⟨hkey, hvalue⟩ := hfits record List.mem_cons_self
    have hrecord := load_record_add_log locals record.1 (log_file records ++ rest) hkey hvalue
    rw [log_file, List.flatMap_cons, List.append_assoc]
    refine (delivered_of_some hrecord).trans ?_
    rw [ih fun other hother => hfits other (List.mem_cons_of_mem _ hother)]
    rfl

/-- A record whose checksum is not that of its body ends the loop. -/
theorem load_record_mismatch {crc rest : Bytes} (hfits : record.Fits) (hcrc : crc.length = 4)
    (hmismatch : (calculate_crc32 record.payload).toNat ≠ leNat crc) :
    load_record locals ⟨crc ++ (record.payload ++ rest), true⟩ = none := by
  rw [load_record, InputStream.read_append (by simpa using hcrc)]
  simp only [LogRecord.payload, load_body_payload locals record.1 rest hfits.1 hfits.2]
  simp only [Bool.not_true, Bool.false_or, Bool.false_eq_true, if_false, ite_eq_left_iff]
  exact fun _ hsame => absurd hmismatch hsame

end

end NovaKV
