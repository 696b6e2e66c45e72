import NovaKV.Network.Buffer

open NovaKV.Lib

namespace NovaKV.Storage

/-- Why a call on a buffer does not return: `resize` throws, or bytes outside of the
vector would be read or written. -/
inductive Failure where
  | length_error
  | out_of_bounds
deriving DecidableEq

/-- A `std::vector<char>`, which has less than `2 ^ 63` elements. -/
abbrev CharVector := { bytes : Bytes // bytes.length < 2 ^ 63 }

def CharVector.size (self : CharVector) : UInt64 := UInt64.ofNat self.val.length

/-- `resize`, and the constructor when there is nothing yet. -/
def CharVector.resize (self : CharVector) (size : UInt64) : Except Failure CharVector :=
  if h : size.toNat < 2 ^ 63 then
    .ok ⟨self.val.take size.toNat ++ List.replicate (size.toNat - self.val.length) 0, by
      simp only [List.length_append, List.length_take, List.length_replicate]
      omega⟩
  else .error .length_error

/-- The buffer with indices of type `size_t`, on which nothing but the vector guards
the order of the indices. -/
structure NetworkBuffer where
  buffer : CharVector
  read_index : UInt64
  write_index : UInt64

namespace NetworkBuffer

def new (initial_size : UInt64) : Except Failure NetworkBuffer := do
  let buffer ← CharVector.resize ⟨[], Nat.two_pow_pos 63⟩ initial_size
  return { buffer := buffer, read_index := 0, write_index := 0 }

def readable_bytes (self : NetworkBuffer) : UInt64 := self.write_index - self.read_index

def writable_bytes (self : NetworkBuffer) : UInt64 := self.buffer.size - self.write_index

/-- The indices are in order. -/
def Ordered (self : NetworkBuffer) : Prop :=
  self.read_index ≤ self.write_index ∧ self.write_index.toNat ≤ self.buffer.val.length

instance (self : NetworkBuffer) : Decidable self.Ordered := inferInstanceAs (Decidable (_ ∧ _))

/-- The bytes from `Peek()` on that have been written. -/
def readable (self : NetworkBuffer) : Bytes :=
  (self.buffer.val.take self.write_index.toNat).drop self.read_index.toNat

/-- `std::copy` of the bytes not read yet to the front. -/
def compacted (self : NetworkBuffer) : Except Failure NetworkBuffer :=
  if h : self.Ordered then
    .ok {
      buffer := ⟨self.readable ++ self.buffer.val.drop self.readable.length, by
        have hlength := self.buffer.property
        simp only [readable, List.length_append, List.length_drop, List.length_take]
        omega⟩
      read_index := 0
      write_index := self.readable_bytes }
  else .error .out_of_bounds

def make_space (self : NetworkBuffer) (len : UInt64) : Except Failure NetworkBuffer :=
  if self.writable_bytes + self.read_index < len then do
    let buffer ← self.buffer.resize (self.write_index + len)
    return { self with buffer := buffer }
  else self.compacted

def ensure_writable_bytes (self : NetworkBuffer) (len : UInt64) : Except Failure NetworkBuffer :=
  if self.writable_bytes < len then self.make_space len else .ok self

/-- Copy `data` behind what has been written. -/
def fill (self : NetworkBuffer) (data : Bytes) : Except Failure NetworkBuffer :=
  if h : self.write_index.toNat + data.length ≤ self.buffer.val.length then
    .ok {
      buffer := ⟨self.buffer.val.take self.write_index.toNat ++ data ++
          self.buffer.val.drop (self.write_index.toNat + data.length), by
        have hlength := self.buffer.property
        simp only [List.length_append, List.length_drop, List.length_take]
        omega⟩
      read_index := self.read_index
      write_index := self.write_index + UInt64.ofNat data.length }
  else .error .out_of_bounds

def append (self : NetworkBuffer) (data : Bytes) : Except Failure NetworkBuffer := do
  let self ← self.ensure_writable_bytes (UInt64.ofNat data.length)
  self.fill data

/-- `ReadFromFd`, where `data` is what the call of `readv` delivers. -/
def read_from_fd (self : NetworkBuffer) (data : Bytes) : Except Failure NetworkBuffer := do
  let writable := self.writable_bytes
  let direct ← self.fill (data.take writable.toNat)
  if UInt64.ofNat data.length ≤ writable then return direct
  else direct.append (data.drop writable.toNat)

def retrieve_all (self : NetworkBuffer) : NetworkBuffer := { self with read_index := 0, write_index := 0 }

def retrieve (self : NetworkBuffer) (len : UInt64) : NetworkBuffer :=
  if len < self.readable_bytes then { self with read_index := self.read_index + len } else self.retrieve_all

/-- The string is made of the bytes between the indices. -/
def retrieve_all_as_string (self : NetworkBuffer) : Except Failure (NetworkBuffer × Bytes) :=
  if self.Ordered then .ok (self.retrieve_all, self.readable) else .error .out_of_bounds

end NetworkBuffer

/-- What this buffer holds is what that one holds, which carries the order of its indices. -/
structure NetworkBuffer.Stands (sized : NetworkBuffer) (plain : NovaKV.NetworkBuffer) : Prop where
  buffer : sized.buffer.val = plain.buffer
  read_index : sized.read_index.toNat = plain.read_index
  write_index : sized.write_index.toNat = plain.write_index

private theorem bind_eq_ok_iff {A B : Type} {x : Except Failure A} {f : A → Except Failure B} {y : B} :
    (x >>= f) = .ok y ↔ ∃ a, x = .ok a ∧ f a = .ok y := by
  cases x <;> simp [bind, Except.bind]

private theorem toNat_ofNat_length {data : Bytes} (h : data.length < 2 ^ 63) :
    (UInt64.ofNat data.length).toNat = data.length :=
  UInt64.toNat_ofNat_of_lt' (h.trans (by decide))

theorem CharVector.size_toNat (vector : CharVector) : vector.size.toNat = vector.val.length :=
  toNat_ofNat_length vector.property

theorem CharVector.resize_ok {vector resized : CharVector} {size : UInt64} (h : vector.resize size = .ok resized) :
    resized.val = vector.val.take size.toNat ++ List.replicate (size.toNat - vector.val.length) 0 := by
  rw [CharVector.resize] at h
  split at h
  · cases h
    rfl
  · cases h

theorem CharVector.resize_ok_length {vector resized : CharVector} {size : UInt64}
    (h : vector.resize size = .ok resized) : resized.val.length = size.toNat := by
  rw [CharVector.resize_ok h, List.length_append, List.length_take, List.length_replicate]
  omega

section

variable {self next : NetworkBuffer} {plain : NovaKV.NetworkBuffer}

theorem NetworkBuffer.Stands.ordered (h : self.Stands plain) : self.Ordered := by
  refine ⟨?_, ?_⟩
  · rw [UInt64.le_iff_toNat_le, h.read_index, h.write_index]
    exact plain.read_le
  · rw [h.buffer, h.write_index]
    exact plain.write_le

/-- Where the indices are in order there is a buffer that carries this. -/
theorem NetworkBuffer.Ordered.stands (h : self.Ordered) : ∃ plain, self.Stands plain :=
  ⟨⟨self.buffer.val, self.read_index.toNat, self.write_index.toNat, UInt64.le_iff_toNat_le.mp h.1, h.2⟩, rfl, rfl, rfl⟩

theorem NetworkBuffer.Stands.readable_eq (h : self.Stands plain) : self.readable = plain.readable := by
  rw [NetworkBuffer.readable, NovaKV.NetworkBuffer.readable, h.buffer, h.read_index, h.write_index]

theorem NetworkBuffer.Stands.readable_bytes (h : self.Stands plain) :
    self.readable_bytes.toNat = plain.readable_bytes := by
  rw [NetworkBuffer.readable_bytes, UInt64.toNat_sub_of_le _ _ h.ordered.1, h.read_index, h.write_index]
  rfl

theorem NetworkBuffer.Stands.writable_bytes (h : self.Stands plain) :
    self.writable_bytes.toNat = plain.writable_bytes := by
  have hle : self.write_index ≤ self.buffer.size := by
    rw [UInt64.le_iff_toNat_le, CharVector.size_toNat]
    exact h.ordered.2
  rw [NetworkBuffer.writable_bytes, UInt64.toNat_sub_of_le _ _ hle, CharVector.size_toNat, h.buffer, h.write_index]
  rfl

theorem NetworkBuffer.Stands.length_lt (h : self.Stands plain) : plain.buffer.length < 2 ^ 63 :=
  h.buffer ▸ self.buffer.property

/-- The room behind and in front of the bytes not read yet does not wrap. -/
theorem NetworkBuffer.Stands.room (h : self.Stands plain) :
    (self.writable_bytes + self.read_index).toNat = plain.writable_bytes + plain.read_index := by
  have hread := plain.read_le
  have hwrite := plain.write_le
  have hlength := h.length_lt
  rw [UInt64.toNat_add, h.writable_bytes, h.read_index, Nat.mod_eq_of_lt]
  rw [NovaKV.NetworkBuffer.writable_bytes]
  omega

theorem NetworkBuffer.Stands.compacted (h : self.Stands plain) (hnext : self.compacted = .ok next) :
    next.Stands plain.compacted := by
  rw [NetworkBuffer.compacted, dif_pos h.ordered] at hnext
  cases hnext
  refine ⟨?_, rfl, h.readable_bytes⟩
  simp only [NovaKV.NetworkBuffer.compacted, h.readable_eq, h.buffer, NovaKV.NetworkBuffer.readable_length]

/-- A vector that grows keeps its bytes where the sum is exact. -/
theorem NetworkBuffer.Stands.resized (h : self.Stands plain) {len : UInt64} {vector : CharVector}
    (hgrows : plain.writable_bytes + plain.read_index < len.toNat)
    (hfits : plain.write_index + len.toNat < 2 ^ 64)
    (hvector : self.buffer.resize (self.write_index + len) = .ok vector) :
    NetworkBuffer.Stands { self with buffer := vector } (plain.resized len.toNat) := by
  have hsum : (self.write_index + len).toNat = plain.write_index + len.toNat := by
    rw [UInt64.toNat_add, h.write_index, Nat.mod_eq_of_lt hfits]
  have hlength : plain.buffer.length ≤ plain.write_index + len.toNat := by
    rw [NovaKV.NetworkBuffer.writable_bytes] at hgrows
    omega
  refine ⟨?_, h.read_index, h.write_index⟩
  rw [CharVector.resize_ok hvector, hsum, h.buffer, List.take_of_length_le hlength]
  rfl

/-- Without a wrap the room is made as on natural numbers. -/
theorem NetworkBuffer.Stands.ensure_writable_bytes (h : self.Stands plain) {len : UInt64}
    (hfits : self.writable_bytes + self.read_index < len → self.write_index.toNat + len.toNat < 2 ^ 64)
    (hnext : self.ensure_writable_bytes len = .ok next) : next.Stands (plain.ensure_writable_bytes len.toNat) := by
  simp only [NetworkBuffer.ensure_writable_bytes, UInt64.lt_iff_toNat_lt, h.writable_bytes] at hnext
  rw [NovaKV.NetworkBuffer.ensure_writable_bytes]
  split at hnext
  · rw [if_pos ‹_›]
    simp only [NetworkBuffer.make_space, UInt64.lt_iff_toNat_lt, h.room] at hfits hnext
    rw [NovaKV.NetworkBuffer.make_space]
    split at hnext
    · rename_i hgrows
      rw [if_pos hgrows]
      obtain ⟨vector, hvector, hnext⟩ := bind_eq_ok_iff.mp hnext
      cases hnext
      exact h.resized hgrows (h.write_index ▸ hfits hgrows) hvector
    · rw [if_neg ‹_›]
      exact h.compacted hnext
  · rw [if_neg ‹_›]
    cases hnext
    exact h

/-- Where the sum wraps the vector shrinks below what has been written. -/
theorem NetworkBuffer.Stands.ensure_writable_bytes_wraps (h : self.Stands plain) {len : UInt64}
    (hgrows : self.writable_bytes + self.read_index < len)
    (hwraps : 2 ^ 64 ≤ self.write_index.toNat + len.toNat)
    (hnext : self.ensure_writable_bytes len = .ok next) : ¬ next.Ordered := by
  have hwritable : self.writable_bytes < len := by
    rw [UInt64.lt_iff_toNat_lt, h.room] at hgrows
    rw [UInt64.lt_iff_toNat_lt, h.writable_bytes]
    omega
  rw [NetworkBuffer.ensure_writable_bytes, if_pos hwritable, NetworkBuffer.make_space, if_pos hgrows] at hnext
  obtain ⟨vector, hvector, hnext⟩ := bind_eq_ok_iff.mp hnext
  cases hnext
  rintro ⟨-, hwrite⟩
  simp only [CharVector.resize_ok_length hvector, UInt64.toNat_add] at hwrite
  have hlen := len.toNat_lt
  have hindex := self.write_index.toNat_lt
  omega

theorem NetworkBuffer.Stands.fill (h : self.Stands plain) {data : Bytes}
    (hroom : plain.write_index + data.length ≤ plain.buffer.length) (hnext : self.fill data = .ok next) :
    next.Stands (plain.fill data hroom) := by
  have hlength := h.length_lt
  rw [NetworkBuffer.fill, dif_pos (by rw [h.write_index, h.buffer]; exact hroom)] at hnext
  cases hnext
  refine ⟨?_, h.read_index, ?_⟩
  · simp only [NovaKV.NetworkBuffer.fill, h.buffer, h.write_index]
  · simp only [NovaKV.NetworkBuffer.fill]
    rw [UInt64.toNat_add, h.write_index, toNat_ofNat_length (by omega), Nat.mod_eq_of_lt (by omega)]

/-- Data that lies in memory beside the buffer fits behind it without a wrap. -/
theorem NetworkBuffer.Stands.append (h : self.Stands plain) {data : Bytes} (hdata : data.length < 2 ^ 63)
    (hnext : self.append data = .ok next) : next.Stands (plain.append data) := by
  have hlen := toNat_ofNat_length hdata
  have hwrite := plain.write_le
  have hlength := h.length_lt
  rw [NetworkBuffer.append] at hnext
  obtain ⟨roomy, hroomy, hnext⟩ := bind_eq_ok_iff.mp hnext
  have hensured := h.ensure_writable_bytes (fun _ => by rw [hlen, h.write_index]; omega) hroomy
  rw [hlen] at hensured
  exact hensured.fill _ hnext

theorem NetworkBuffer.Stands.read_from_fd (h : self.Stands plain) {data : Bytes} (hdata : data.length < 2 ^ 63)
    (hnext : self.read_from_fd data = .ok next) : next.Stands (plain.read_from_fd data) := by
  have hlen := toNat_ofNat_length hdata
  rw [NetworkBuffer.read_from_fd] at hnext
  obtain ⟨direct, hdirect, hnext⟩ := bind_eq_ok_iff.mp hnext
  rw [h.writable_bytes] at hdirect
  simp only [UInt64.le_iff_toNat_le, hlen, h.writable_bytes] at hnext
  have hroom : plain.write_index + (data.take plain.writable_bytes).length ≤ plain.buffer.length := by
    have hwrite := plain.write_le
    rw [List.length_take, NovaKV.NetworkBuffer.writable_bytes]
    omega
  have hstands := h.fill hroom hdirect
  rw [NovaKV.NetworkBuffer.read_from_fd]
  split at hnext
  · rw [if_pos ‹_›]
    cases hnext
    exact hstands
  · rw [if_neg ‹_›]
    exact hstands.append (by rw [List.length_drop]; omega) hnext

theorem NetworkBuffer.Stands.retrieve_all (h : self.Stands plain) : self.retrieve_all.Stands plain.retrieve_all :=
  ⟨h.buffer, rfl, rfl⟩

theorem NetworkBuffer.Stands.retrieve (h : self.Stands plain) (len : UInt64) :
    (self.retrieve len).Stands (plain.retrieve len.toNat) := by
  have hread := plain.read_le
  have hwrite := plain.write_le
  have hlength := h.length_lt
  simp only [NetworkBuffer.retrieve, NovaKV.NetworkBuffer.retrieve, UInt64.lt_iff_toNat_lt, h.readable_bytes]
  split
  · rename_i hless
    refine ⟨h.buffer, ?_, h.write_index⟩
    rw [NovaKV.NetworkBuffer.readable_bytes] at hless
    rw [UInt64.toNat_add, h.read_index, Nat.mod_eq_of_lt (by omega)]
  · exact h.retrieve_all

end

end NovaKV.Storage
