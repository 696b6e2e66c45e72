import Mathlib

namespace NovaKV.Lib

abbrev Bytes := List UInt8

/-- The `width` low-order bytes of a number, least significant first. -/
def leBytes : Nat → Nat → Bytes
  | 0, _ => []
  | width + 1, n => UInt8.ofNat n :: leBytes width (n / 256)

/-- The number a little-endian byte string stands for. -/
def leNat : Bytes → Nat
  | [] => 0
  | b :: bs => b.toNat + 256 * leNat bs

/-- Consume a fixed number of bytes from the front of a stream. A short stream
yields nothing. -/
def readBytes (count : Nat) (stream : Bytes) : Option (Bytes × Bytes) :=
  if stream.length < count then none else some (stream.take count, stream.drop count)

/-- Consume a little-endian number of the given width from a stream. -/
def readLE (width : Nat) (stream : Bytes) : Option (Nat × Bytes) :=
  (readBytes width stream).map fun (field, rest) => (leNat field, rest)

@[simp] theorem leBytes_length (width n : Nat) : (leBytes width n).length = width := by
  induction width generalizing n with
  | zero => rfl
  | succ width ih => simp [leBytes, ih]

theorem leNat_leBytes (width n : Nat) : leNat (leBytes width n) = n % 256 ^ width := by
  induction width generalizing n with
  | zero => simp [leBytes, leNat, Nat.mod_one]
  | succ width ih =>
    have hlow : (UInt8.ofNat n).toNat = n % 256 := UInt8.toNat_ofNat'
    rw [leBytes, leNat, ih, hlow, Nat.pow_succ', Nat.mod_mul]

theorem leNat_leBytes_of_lt {width n : Nat} (hn : n < 256 ^ width) :
    leNat (leBytes width n) = n := by
  rw [leNat_leBytes, Nat.mod_eq_of_lt hn]

theorem leBytes_leNat (field : Bytes) : leBytes field.length (leNat field) = field := by
  induction field with
  | nil => rfl
  | cons byte field ih =>
    have hbyte := byte.toNat_lt
    have hlow : UInt8.ofNat (leNat (byte :: field)) = byte := by
      refine UInt8.toNat_inj.mp ?_
      rw [UInt8.toNat_ofNat', leNat]
      omega
    have hhigh : leNat (byte :: field) / 256 = leNat field := by
      rw [leNat]
      omega
    rw [List.length_cons, leBytes, hlow, hhigh, ih]

theorem leNat_lt (bytes : Bytes) : leNat bytes < 2 ^ (8 * bytes.length) := by
  induction bytes with
  | nil => simp [leNat]
  | cons byte bytes ih =>
    have hbyte := byte.toNat_lt
    rw [leNat, List.length_cons, Nat.mul_succ, Nat.pow_add]
    omega

theorem leNat_injective {first second : Bytes} (hlength : first.length = second.length)
    (h : leNat first = leNat second) : first = second := by
  rw [← leBytes_leNat first, ← leBytes_leNat second, hlength, h]

@[simp] theorem readBytes_append (field rest : Bytes) :
    readBytes field.length (field ++ rest) = some (field, rest) := by
  simp [readBytes]

theorem readBytes_append_of_length {count : Nat} {field : Bytes} (rest : Bytes)
    (hcount : field.length = count) : readBytes count (field ++ rest) = some (field, rest) := by
  subst hcount
  exact readBytes_append field rest

theorem readBytes_eq_none {count : Nat} {stream : Bytes} (hshort : stream.length < count) :
    readBytes count stream = none := by
  simp [readBytes, hshort]

theorem readLE_append_of_length {width : Nat} {field : Bytes} (rest : Bytes)
    (hwidth : field.length = width) : readLE width (field ++ rest) = some (leNat field, rest) := by
  simp [readLE, readBytes_append_of_length rest hwidth]

theorem readLE_eq_none {width : Nat} {stream : Bytes} (hshort : stream.length < width) :
    readLE width stream = none := by
  simp [readLE, readBytes_eq_none hshort]

theorem readLE_leBytes {width n : Nat} (rest : Bytes) (hn : n < 256 ^ width) :
    readLE width (leBytes width n ++ rest) = some (n, rest) := by
  rw [readLE_append_of_length rest (leBytes_length width n), leNat_leBytes_of_lt hn]

theorem readLE_uint32 (n : UInt32) (rest : Bytes) : readLE 4 (leBytes 4 n.toNat ++ rest) = some (n.toNat, rest) :=
  readLE_leBytes rest n.toNat_lt

theorem readLE_uint64 (n : UInt64) (rest : Bytes) : readLE 8 (leBytes 8 n.toNat ++ rest) = some (n.toNat, rest) :=
  readLE_leBytes rest n.toNat_lt

/-- A prefix of a field followed by more data either stops inside the field or
contains all of it. -/
theorem prefix_append_cases {torn field rest : Bytes} (hinit : torn <+: field ++ rest) :
    torn.length < field.length ∨ ∃ tail, torn = field ++ tail ∧ tail <+: rest := by
  by_cases hlength : torn.length < field.length
  · exact .inl hlength
  · right
    have hfield : field <+: torn := by
      apply List.prefix_of_prefix_length_le (List.prefix_append field rest) hinit
      omega
    obtain ⟨tail, rfl⟩ := hfield
    exact ⟨tail, rfl, (List.prefix_append_right_inj field).mp hinit⟩

/-- Reading a fixed-width number from a cut stream either fails or reads the
whole field. -/
theorem readLE_prefix_cases {width n : Nat} {torn rest : Bytes} (hn : n < 256 ^ width)
    (hinit : torn <+: leBytes width n ++ rest) :
    readLE width torn = none ∨
      ∃ tail, torn = leBytes width n ++ tail ∧ readLE width torn = some (n, tail) ∧ tail <+: rest := by
  rcases prefix_append_cases hinit with hshort | ⟨tail, rfl, htail⟩
  · exact .inl (readLE_eq_none (by simpa using hshort))
  · exact .inr ⟨tail, rfl, readLE_leBytes tail hn, htail⟩

end NovaKV.Lib
