import NovaKV.ValueRecord

open NovaKV.Lib

namespace NovaKV

/-- The value of the `ValueType` enumerator. -/
def ValueType.to_u8 : ValueType → UInt8
  | .kValue => 1
  | .kDeletion => 2

/-- A `ValueRecord` as it is kept in memory. An enumeration can hold any value of its
underlying type, and what is read from a file is not checked. -/
structure StoredRecord where
  type : UInt8
  value : Bytes
  deriving DecidableEq, Repr, Inhabited

def ValueRecord.stored (record : ValueRecord) : StoredRecord := ⟨record.type.to_u8, record.value⟩

/-- An entry of the table that `CalculateCRC32` computes once. -/
def crc_table (i : UInt32) : UInt32 :=
  (List.range 8).foldl (fun crc _ => (crc >>> 1) ^^^ (if crc &&& 1 = 1 then 0xEDB88320 else 0)) i

def calculate_crc32 (data : Bytes) : UInt32 :=
  let crc : UInt32 := data.foldl (fun crc byte =>
    (crc >>> 8) ^^^ crc_table ((crc ^^^ byte.toUInt32) &&& 0xFF)) 0xFFFFFFFF
  crc ^^^ 0xFFFFFFFF

/-- The body of a log record: type, key and value, the latter two behind their
lengths. -/
def log_payload (key value : Bytes) (type : UInt8) : Bytes :=
  type :: (leBytes 4 key.length ++ (key ++ (leBytes 4 value.length ++ value)))

/-- `AddLog`: what is appended to the file, checksum first. -/
def add_log (key value : Bytes) (type : UInt8) : Bytes :=
  leBytes 4 (calculate_crc32 (log_payload key value type)).toNat ++ log_payload key value type

/-- An input stream: the bytes that are left and whether no read has failed. -/
structure InputStream where
  rest : Bytes
  good : Bool

/-- Fill a buffer from the stream. A short read fills what it can; after a failure
nothing is read any more. -/
def InputStream.read (self : InputStream) (buffer : Bytes) : Bytes × InputStream :=
  if self.good then
    (self.rest.take buffer.length ++ buffer.drop self.rest.length,
      { rest := self.rest.drop buffer.length, good := decide (buffer.length ≤ self.rest.length) })
  else (buffer, self)

/-- What the local variables of `LoadLog` hold before they are read. -/
structure Uninitialized where
  t : UInt8
  k_len : UInt32
  v_len : UInt32

/-- The part of a pass of `LoadLog` that reads the body field by field: the arguments
of the callback, the body put together again, and the stream behind it. -/
def load_body (locals : Uninitialized) (src : InputStream) :
    (UInt8 × Bytes × Bytes) × Bytes × InputStream :=
  let (t, src) := src.read [locals.t]
  let (k_len, src) := src.read (leBytes 4 locals.k_len.toNat)
  let (key, src) := src.read (List.replicate (leNat k_len) 0)
  let (v_len, src) := src.read (leBytes 4 locals.v_len.toNat)
  let (value, src) := src.read (List.replicate (leNat v_len) 0)
  ((t.headD 0, key, value), t ++ (k_len ++ (key ++ (v_len ++ value))), src)

/-- One pass of the loop of `LoadLog`: the arguments of the callback and the stream
behind the record, or nothing where the loop ends. -/
def load_record (locals : Uninitialized) (src : InputStream) :
    Option ((UInt8 × Bytes × Bytes) × InputStream) :=
  if !src.good || src.rest.isEmpty then none
  else
    let (saved_crc, src) := src.read (List.replicate 4 0)
    if !src.good then none
    else
      let (call, body, src) := load_body locals src
      if (calculate_crc32 body).toNat ≠ leNat saved_crc then none else some (call, src)

section

variable {locals : Uninitialized} {src : InputStream}

theorem InputStream.read_rest_le (src : InputStream) (buffer : Bytes) :
    (src.read buffer).2.rest.length ≤ src.rest.length := by
  unfold InputStream.read
  split
  · simp
  · exact Nat.le_refl _

/-- A whole field is read as it stands. -/
theorem InputStream.read_append {field rest buffer : Bytes} (hlength : field.length = buffer.length) :
    InputStream.read ⟨field ++ rest, true⟩ buffer = (field, ⟨rest, true⟩) := by
  have hdrop : buffer.drop (field ++ rest).length = [] := by
    rw [List.drop_eq_nil_iff, List.length_append]
    omega
  simp only [InputStream.read, if_true, hdrop, List.append_nil]
  rw [← hlength, List.take_left, List.drop_left, List.length_append]
  simp

theorem load_body_rest_le (locals : Uninitialized) (src : InputStream) :
    (load_body locals src).2.2.rest.length ≤ src.rest.length := by
  unfold load_body
  refine (InputStream.read_rest_le _ _).trans ?_
  refine (InputStream.read_rest_le _ _).trans ?_
  refine (InputStream.read_rest_le _ _).trans ?_
  exact (InputStream.read_rest_le _ _).trans (InputStream.read_rest_le _ _)

theorem load_record_lt {call : UInt8 × Bytes × Bytes} {after : InputStream}
    (h : load_record locals src = some (call, after)) : after.rest.length < src.rest.length := by
  unfold load_record at h
  split at h
  · cases h
  rename_i hstart
  simp only [Bool.or_eq_true, Bool.not_eq_true', not_or, Bool.not_eq_false, List.isEmpty_iff] at hstart
  obtain ⟨hgood, hrest⟩ := hstart
  dsimp only at h
  split at h
  · cases h
  split at h
  · cases h
  cases h
  have hcrc : (src.read (List.replicate 4 0)).2.rest.length < src.rest.length := by
    have hpos := List.length_pos_iff.mpr hrest
    simp only [InputStream.read, hgood, if_true, List.length_replicate, List.length_drop]
    omega
  exact (load_body_rest_le locals _).trans_lt hcrc

end

/-- `LoadLog` on a file, with what the callback changes. -/
def load_log {σ : Type} (locals : Uninitialized) (callback : σ → UInt8 → Bytes → Bytes → σ)
    (src : InputStream) (state : σ) : σ :=
  match h : load_record locals src with
  | none => state
  | some ((type, key, value), after) =>
    have := load_record_lt h
    load_log locals callback after (callback state type key value)
termination_by src.rest.length

section

variable (locals : Uninitialized) {key value : Bytes} (type : UInt8) (rest : Bytes)

theorem load_body_payload (hkey : key.length < 2 ^ 32) (hvalue : value.length < 2 ^ 32) :
    load_body locals ⟨log_payload key value type ++ rest, true⟩ =
      ((type, key, value), log_payload key value type, ⟨rest, true⟩) := by
  have htype : log_payload key value type ++ rest =
      [type] ++ (leBytes 4 key.length ++ (key ++ (leBytes 4 value.length ++ (value ++ rest)))) := by
    simp [log_payload]
  rw [htype, load_body]
  rw [InputStream.read_append (by simp)]
  dsimp only
  rw [InputStream.read_append (by simp)]
  dsimp only
  rw [leNat_leBytes_of_lt hkey, InputStream.read_append (by simp)]
  dsimp only
  rw [InputStream.read_append (by simp)]
  dsimp only
  rw [leNat_leBytes_of_lt hvalue, InputStream.read_append (by simp)]
  rfl

/-- A record that fits its length fields is read back. -/
theorem load_record_add_log (hkey : key.length < 2 ^ 32) (hvalue : value.length < 2 ^ 32) :
    load_record locals ⟨add_log key value type ++ rest, true⟩ = some ((type, key, value), ⟨rest, true⟩) := by
  have hcrc : (calculate_crc32 (log_payload key value type)).toNat < 256 ^ 4 := UInt32.toNat_lt _
  rw [load_record, add_log, List.append_assoc, InputStream.read_append (by simp)]
  simp only [load_body_payload locals type rest hkey hvalue, leNat_leBytes_of_lt hcrc]
  simp [leBytes]

/-- `LoadLog` calls back for each record of a file in turn. -/
theorem load_log_records {σ : Type} (callback : σ → UInt8 → Bytes → Bytes → σ) (state : σ)
    {records : List (UInt8 × Bytes × Bytes)}
    (hfits : ∀ record ∈ records, record.2.1.length < 2 ^ 32 ∧ record.2.2.length < 2 ^ 32) :
    load_log locals callback ⟨records.flatMap fun record => add_log record.2.1 record.2.2 record.1, true⟩ state =
      records.foldl (fun state record => callback state record.1 record.2.1 record.2.2) state := by
  induction records generalizing state with
  | nil =>
    rw [load_log]
    rfl
  | cons record records ih =>
    obtain ⟨hkey, hvalue⟩ := hfits record List.mem_cons_self
    rw [List.flatMap_cons, List.foldl_cons, load_log]
    split
    · rename_i hnone
      rw [load_record_add_log _ _ _ hkey hvalue] at hnone
      cases hnone
    · rename_i hsome
      rw [load_record_add_log _ _ _ hkey hvalue] at hsome
      cases hsome
      exact ih _ fun other hother => hfits other (List.mem_cons_of_mem _ hother)

end

end NovaKV
