import NovaKV.Lib.LittleEndian

open NovaKV.Lib

namespace NovaKV

/-- A byte queue in one growing array: what is between the two indices has been
written and not read yet. Its sizes are those of bytes that are in memory, as where the
server appends; `Storage.NetworkBuffer` has the sizes of any call. -/
structure NetworkBuffer where
  buffer : Bytes
  read_index : Nat
  write_index : Nat
  read_le : read_index ≤ write_index
  write_le : write_index ≤ buffer.length

namespace NetworkBuffer

def new (initial_size : Nat) : NetworkBuffer where
  buffer := List.replicate initial_size 0
  read_index := 0
  write_index := 0
  read_le := Nat.le_refl _
  write_le := Nat.zero_le _

def readable_bytes (self : NetworkBuffer) : Nat := self.write_index - self.read_index

def writable_bytes (self : NetworkBuffer) : Nat := self.buffer.length - self.write_index

/-- The bytes from `Peek()` on that have been written. -/
def readable (self : NetworkBuffer) : Bytes := (self.buffer.take self.write_index).drop self.read_index

@[simp] theorem readable_length (self : NetworkBuffer) : self.readable.length = self.readable_bytes := by
  rw [readable, List.length_drop, List.length_take, Nat.min_eq_left self.write_le, readable_bytes]

/-- `buffer_.resize` to hold `len` more bytes. -/
def resized (self : NetworkBuffer) (len : Nat) : NetworkBuffer :=
  { self with
    buffer := self.buffer ++ List.replicate (self.write_index + len - self.buffer.length) 0
    write_le := by
      rw [List.length_append]
      exact Nat.le_add_right_of_le self.write_le }

/-- Move what is not read yet to the front. -/
def compacted (self : NetworkBuffer) : NetworkBuffer where
  buffer := self.readable ++ self.buffer.drop self.readable_bytes
  read_index := 0
  write_index := self.readable_bytes
  read_le := Nat.zero_le _
  write_le := by simp

def make_space (self : NetworkBuffer) (len : Nat) : NetworkBuffer :=
  if self.writable_bytes + self.read_index < len then self.resized len else self.compacted

def ensure_writable_bytes (self : NetworkBuffer) (len : Nat) : NetworkBuffer :=
  if self.writable_bytes < len then self.make_space len else self

theorem compacted_length (self : NetworkBuffer) : self.compacted.buffer.length = self.buffer.length := by
  have hwrite := self.write_le
  simp only [compacted, List.length_append, readable_length, List.length_drop, readable_bytes]
  omega

/-- There is room after `EnsureWritableBytes`. -/
theorem ensure_writable_bytes_room (self : NetworkBuffer) (len : Nat) :
    (self.ensure_writable_bytes len).write_index + len ≤ (self.ensure_writable_bytes len).buffer.length := by
  have hread := self.read_le
  have hwrite := self.write_le
  unfold ensure_writable_bytes make_space
  split
  · split
    · simp only [resized, List.length_append, List.length_replicate]
      omega
    · rename_i hroom
      rw [compacted_length]
      simp only [compacted, readable_bytes, writable_bytes] at hroom ⊢
      omega
  · rename_i hroom
    simp only [writable_bytes] at hroom
    omega

/-- Copy `data` behind what has been written. -/
def fill (self : NetworkBuffer) (data : Bytes) (h : self.write_index + data.length ≤ self.buffer.length) :
    NetworkBuffer where
  buffer := self.buffer.take self.write_index ++ data ++ self.buffer.drop (self.write_index + data.length)
  read_index := self.read_index
  write_index := self.write_index + data.length
  read_le := Nat.le_add_right_of_le self.read_le
  write_le := by
    simp only [List.length_append, List.length_take, List.length_drop]
    omega

def append (self : NetworkBuffer) (data : Bytes) : NetworkBuffer :=
  (self.ensure_writable_bytes data.length).fill data (self.ensure_writable_bytes_room data.length)

/-- `ReadFromFd`, where `data` is what the call of `readv` delivers: it fills the
room behind the written bytes first and then the extra buffer. -/
def read_from_fd (self : NetworkBuffer) (data : Bytes) : NetworkBuffer :=
  let direct := self.fill (data.take self.writable_bytes) (by
    have hwrite := self.write_le
    simp only [List.length_take, writable_bytes]
    omega)
  if data.length ≤ self.writable_bytes then direct else direct.append (data.drop self.writable_bytes)

def retrieve_all (self : NetworkBuffer) : NetworkBuffer :=
  { self with
    read_index := 0
    write_index := 0
    read_le := Nat.le_refl _
    write_le := Nat.zero_le _ }

def retrieve (self : NetworkBuffer) (len : Nat) : NetworkBuffer :=
  if h : len < self.readable_bytes then
    { self with
      read_index := self.read_index + len
      read_le := by
        simp only [readable_bytes] at h
        omega }
  else self.retrieve_all

@[simp] theorem readable_new (initial_size : Nat) : (new initial_size).readable = [] := by
  simp [new, readable]

@[simp] theorem readable_ensure_writable_bytes (self : NetworkBuffer) (len : Nat) :
    (self.ensure_writable_bytes len).readable = self.readable := by
  unfold ensure_writable_bytes make_space
  split
  · split
    · simp only [resized, readable]
      rw [List.take_append_of_le_length self.write_le]
    · rw [readable, compacted]
      simp [← readable_length]
  · rfl

theorem readable_fill (self : NetworkBuffer) (data : Bytes)
    (h : self.write_index + data.length ≤ self.buffer.length) :
    (self.fill data h).readable = self.readable ++ data := by
  have htake : (self.buffer.take self.write_index).length = self.write_index := by
    rw [List.length_take, Nat.min_eq_left self.write_le]
  have hinit : (self.buffer.take self.write_index ++ data ++
      self.buffer.drop (self.write_index + data.length)).take (self.write_index + data.length) =
      self.buffer.take self.write_index ++ data := by
    apply List.take_left'
    rw [List.length_append, htake]
  simp only [fill, readable, hinit]
  rw [List.drop_append_of_le_length (by rw [htake]; exact self.read_le)]

/-- Appending adds to the end of what is not read yet. -/
@[simp] theorem readable_append (self : NetworkBuffer) (data : Bytes) :
    (self.append data).readable = self.readable ++ data := by
  rw [append, readable_fill, readable_ensure_writable_bytes]

/-- A read from a socket does the same. -/
@[simp] theorem readable_read_from_fd (self : NetworkBuffer) (data : Bytes) :
    (self.read_from_fd data).readable = self.readable ++ data := by
  rw [read_from_fd]
  split
  · rename_i hroom
    rw [readable_fill, List.take_of_length_le hroom]
  · rw [readable_append, readable_fill, List.append_assoc, List.take_append_drop]

@[simp] theorem readable_retrieve_all (self : NetworkBuffer) : self.retrieve_all.readable = [] := by
  simp [retrieve_all, readable]

/-- Retrieving takes bytes from the front of what is not read yet. -/
@[simp] theorem readable_retrieve (self : NetworkBuffer) (len : Nat) :
    (self.retrieve len).readable = self.readable.drop len := by
  unfold retrieve
  split
  · simp only [readable, List.drop_drop]
  · rename_i hall
    rw [readable_retrieve_all, List.drop_eq_nil_of_le (by rw [readable_length]; omega)]

end NetworkBuffer

end NovaKV
