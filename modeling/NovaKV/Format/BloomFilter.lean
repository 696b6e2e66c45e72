import NovaKV.ValueRecord

open NovaKV.Lib

namespace NovaKV.Format

/-- A `char` converted to `uint32_t`: the sign is extended. -/
def char_to_u32 (c : UInt8) : UInt32 := if c < 0x80 then c.toUInt32 else c.toUInt32 ||| 0xFFFFFF00

def bloom_hash (key : Bytes) : UInt32 :=
  key.foldl (fun h c =>
    let h := (h ^^^ char_to_u32 c) * 0x5bd1e995
    h ^^^ (h >>> 15)) (0xbc9f1d34 ^^^ UInt32.ofNat key.length)

/-- The bits that the loop over the hash functions visits, from a hash on. -/
def hash_bits (bits : Nat) (delta : UInt32) : Nat → UInt32 → List Nat
  | 0, _ => []
  | k + 1, h => h.toNat % bits :: hash_bits bits delta k (h + delta)

def key_bits (bits k : Nat) (key : Bytes) : List Nat :=
  let h := bloom_hash key
  hash_bits bits ((h >>> 17) ||| (h <<< 15)) k h

def set_bit (filter : Bytes) (bitpos : Nat) : Bytes :=
  filter.modify (bitpos / 8) fun byte => byte ||| UInt8.ofNat (2 ^ (bitpos % 8))

def get_bit (filter : Bytes) (bitpos : Nat) : Bool :=
  (filter.getD (bitpos / 8) 0).toNat.testBit (bitpos % 8)

/-- `static_cast<int>(bits_per_key * 0.69)`, kept between 1 and 30. From 44 bits a
key on the product is above 30, and below that it is never near a whole number. -/
def hash_count (bits_per_key : Nat) : Nat := min (max (bits_per_key * 69 / 100) 1) 30

/-- The number of bytes that `CreateFilter` takes for the bits, in 64-bit words. -/
def filter_bytes (bits_per_key n : Nat) : Nat :=
  let bits := n * bits_per_key % 2 ^ 64
  let bits := if bits < 64 then 64 else bits
  (bits + 7) % 2 ^ 64 / 8

/-- The bit array of `CreateFilter`. -/
def filter_array (bits_per_key : Nat) (keys : List Bytes) : Bytes :=
  let bytes := filter_bytes bits_per_key keys.length
  let k := hash_count bits_per_key
  keys.foldl (fun res key => (key_bits (bytes * 8) k key).foldl set_bit res) (List.replicate bytes 0)

/-- `CreateFilter`. The number of hash functions is kept in the last byte. -/
def create_filter (bits_per_key : Nat) (keys : List Bytes) : Bytes :=
  if keys = [] then [] else filter_array bits_per_key keys ++ [UInt8.ofNat (hash_count bits_per_key)]

/-- The last byte as a signed `char`, and as the number of passes of a loop. -/
def filter_passes (filter : Bytes) : Nat :=
  let k := filter.getLastD 0
  if k < 0x80 then k.toNat else 0

def key_may_match (key filter : Bytes) : Bool :=
  if filter.length < 2 then false
  else (key_bits ((filter.length - 1) * 8) (filter_passes filter) key).all (get_bit filter)

section

variable {filter : Bytes} {keys : List Bytes} {key : Bytes}

@[simp] theorem set_bit_length (filter : Bytes) (bitpos : Nat) :
    (set_bit filter bitpos).length = filter.length := by
  simp [set_bit]

theorem get_bit_set_bit {bitpos : Nat} (h : bitpos / 8 < filter.length) (other : Nat) :
    get_bit (set_bit filter bitpos) other = (get_bit filter other || decide (other = bitpos)) := by
  by_cases hbyte : bitpos / 8 = other / 8
  · have hget : (set_bit filter bitpos).getD (other / 8) 0 =
        filter.getD (other / 8) 0 ||| UInt8.ofNat (2 ^ (bitpos % 8)) := by
      rw [hbyte] at h
      simp [set_bit, hbyte, List.getD_eq_getElem?_getD, h]
    have hsmall : 2 ^ (bitpos % 8) < 2 ^ 8 := Nat.pow_lt_pow_right (by omega) (by omega)
    have hsame : (decide (bitpos % 8 = other % 8)) = decide (other = bitpos) := by
      rw [decide_eq_decide]
      omega
    rw [get_bit, hget, UInt8.toNat_or, Nat.testBit_or, UInt8.toNat_ofNat', Nat.mod_eq_of_lt hsmall,
      Nat.testBit_two_pow, hsame, get_bit]
  · have hget : (set_bit filter bitpos).getD (other / 8) 0 = filter.getD (other / 8) 0 := by
      simp [set_bit, List.getD_eq_getElem?_getD, hbyte]
    have hne : other ≠ bitpos := by
      rintro rfl
      exact hbyte rfl
    rw [get_bit, hget, decide_eq_false hne, Bool.or_false, get_bit]

theorem set_bits_length (positions : List Nat) (filter : Bytes) :
    (positions.foldl set_bit filter).length = filter.length := by
  induction positions generalizing filter with
  | nil => rfl
  | cons bitpos positions ih => rw [List.foldl_cons, ih, set_bit_length]

/-- Setting bits sets these, and clears none. -/
theorem get_bit_set_bits {positions : List Nat} (h : ∀ bitpos ∈ positions, bitpos / 8 < filter.length)
    (other : Nat) :
    get_bit (positions.foldl set_bit filter) other = (get_bit filter other || decide (other ∈ positions)) := by
  induction positions generalizing filter with
  | nil => simp
  | cons bitpos positions ih =>
    rw [List.foldl_cons, ih fun later hlater => by
      rw [set_bit_length]
      exact h later (List.mem_cons_of_mem _ hlater)]
    rw [get_bit_set_bit (h bitpos List.mem_cons_self)]
    simp [Bool.or_assoc]

theorem hash_bits_lt {bits : Nat} (hbits : 0 < bits) (delta : UInt32) (k : Nat) (h : UInt32) :
    ∀ bitpos ∈ hash_bits bits delta k h, bitpos < bits := by
  induction k generalizing h with
  | zero => simp [hash_bits]
  | succ k ih =>
    intro bitpos hmem
    rcases List.mem_cons.mp hmem with rfl | hmem
    · exact Nat.mod_lt _ hbits
    · exact ih _ bitpos hmem

theorem key_bits_lt {bits : Nat} (hbits : 0 < bits) (k : Nat) (key : Bytes) :
    ∀ bitpos ∈ key_bits bits k key, bitpos < bits :=
  hash_bits_lt hbits _ _ _

/-- Adding keys keeps the size, and sets all the bits of each key. -/
theorem add_keys_bits {bytes : Nat} (hbytes : 0 < bytes) (k : Nat) (keys : List Bytes) {filter : Bytes}
    (hlength : filter.length = bytes) :
    (keys.foldl (fun res key => (key_bits (bytes * 8) k key).foldl set_bit res) filter).length = bytes ∧
    ∀ bitpos, get_bit filter bitpos = true ∨ (∃ key ∈ keys, bitpos ∈ key_bits (bytes * 8) k key) →
      get_bit (keys.foldl (fun res key => (key_bits (bytes * 8) k key).foldl set_bit res) filter) bitpos = true := by
  induction keys generalizing filter with
  | nil => simp [hlength]
  | cons key keys ih =>
    have hinside : ∀ bitpos ∈ key_bits (bytes * 8) k key, bitpos / 8 < filter.length := by
      intro bitpos hmem
      have hlt := key_bits_lt (by omega) k key bitpos hmem
      omega
    obtain ⟨hsize, hset⟩ := ih ((set_bits_length (key_bits (bytes * 8) k key) filter).trans hlength)
    refine ⟨hsize, fun bitpos hbit => hset bitpos ?_⟩
    rw [get_bit_set_bits hinside]
    rcases hbit with hbit | ⟨other, hother, hbit⟩
    · simp [hbit]
    · rcases List.mem_cons.mp hother with rfl | hother
      · simp [hbit]
      · exact .inr ⟨other, hother, hbit⟩

theorem hash_count_range (bits_per_key : Nat) :
    1 ≤ hash_count bits_per_key ∧ hash_count bits_per_key ≤ 30 := by
  rw [hash_count]
  omega

/-- The number of hash functions survives the last byte. -/
theorem filter_passes_concat (array : Bytes) (bits_per_key : Nat) :
    filter_passes (array ++ [UInt8.ofNat (hash_count bits_per_key)]) = hash_count bits_per_key := by
  obtain ⟨-, hle⟩ := hash_count_range bits_per_key
  have hvalue : (UInt8.ofNat (hash_count bits_per_key)).toNat = hash_count bits_per_key := by
    rw [UInt8.toNat_ofNat']
    omega
  have hpositive : UInt8.ofNat (hash_count bits_per_key) < 0x80 := by
    rw [UInt8.lt_iff_toNat_lt, hvalue]
    exact Nat.lt_of_le_of_lt hle (by decide)
  rw [filter_passes, List.getLastD_concat, if_pos hpositive, hvalue]

theorem filter_bytes_pos {bits_per_key n : Nat} (hsize : n * bits_per_key < 2 ^ 64 - 7) :
    0 < filter_bytes bits_per_key n := by
  have hbits : n * bits_per_key % 2 ^ 64 = n * bits_per_key := Nat.mod_eq_of_lt (by omega)
  rw [filter_bytes, hbits]
  split
  · decide
  · rw [Nat.mod_eq_of_lt (by omega)]
    omega

theorem filter_array_bits {bits_per_key : Nat} (hsize : keys.length * bits_per_key < 2 ^ 64 - 7) :
    (filter_array bits_per_key keys).length = filter_bytes bits_per_key keys.length ∧
      ∀ key ∈ keys, ∀ bitpos ∈
        key_bits (filter_bytes bits_per_key keys.length * 8) (hash_count bits_per_key) key,
        get_bit (filter_array bits_per_key keys) bitpos = true := by
  obtain ⟨hlength, hset⟩ := add_keys_bits (filter_bytes_pos hsize) (hash_count bits_per_key) keys
    List.length_replicate
  exact ⟨hlength, fun key hkey bitpos hbit => hset bitpos (.inr ⟨key, hkey, hbit⟩)⟩

/-- The reader derives the bit count and the number of hash functions that the
filter was built with. -/
theorem create_filter_shape {bits_per_key : Nat} (hkeys : keys ≠ [])
    (hsize : keys.length * bits_per_key < 2 ^ 64 - 7) :
    (create_filter bits_per_key keys).length = filter_bytes bits_per_key keys.length + 1 ∧
      filter_passes (create_filter bits_per_key keys) = hash_count bits_per_key := by
  rw [create_filter, if_neg hkeys, List.length_append, (filter_array_bits hsize).1, List.length_singleton]
  exact ⟨rfl, filter_passes_concat _ _⟩

theorem key_may_match_of_mem {bits_per_key : Nat} (hsize : keys.length * bits_per_key < 2 ^ 64 - 7)
    (h : key ∈ keys) : key_may_match key (create_filter bits_per_key keys) = true := by
  have hkeys : keys ≠ [] := List.ne_nil_of_mem h
  have hbytes := filter_bytes_pos hsize
  obtain ⟨hlength, hpasses⟩ := create_filter_shape hkeys hsize
  obtain ⟨harray, hset⟩ := filter_array_bits hsize
  rw [key_may_match, if_neg (by omega), hpasses, hlength, List.all_eq_true]
  intro bitpos hmem
  have hlt : bitpos / 8 < (filter_array bits_per_key keys).length := by
    have hbit := key_bits_lt (by omega) (hash_count bits_per_key) key bitpos hmem
    omega
  rw [get_bit, create_filter, if_neg hkeys, List.getD_append _ _ _ _ hlt]
  exact hset key h bitpos hmem

/-- The filter has no false negatives: a reader that takes the bit count from the
length and the number of probes from the last byte finds every bit of every key. -/
theorem create_filter_no_false_negatives {bits_per_key : Nat} (hkeys : keys ≠ [])
    (hsize : keys.length * bits_per_key < 2 ^ 64 - 7) :
    (∀ key ∈ keys, key_may_match key (create_filter bits_per_key keys) = true) ∧
      ((create_filter bits_per_key keys).length - 1) * 8 = filter_bytes bits_per_key keys.length * 8 ∧
      filter_passes (create_filter bits_per_key keys) = hash_count bits_per_key ∧
      1 ≤ hash_count bits_per_key ∧ hash_count bits_per_key ≤ 30 := by
  obtain ⟨hlength, hpasses⟩ := create_filter_shape hkeys hsize
  refine ⟨fun key hkey => key_may_match_of_mem hsize hkey, ?_, hpasses, hash_count_range bits_per_key⟩
  rw [hlength, Nat.add_sub_cancel]

/-- Two equal keys at one bit a key. -/
theorem create_filter_finds_twice :
    key_may_match [97] (create_filter 1 [[97], [97]]) = true :=
  (create_filter_no_false_negatives (by decide) (by decide)).1 [97] (by decide)

end

end NovaKV.Format
