import NovaKV.Format.Entries

open NovaKV.Lib

namespace NovaKV.Format

/-- The 32-bit number at an offset of a file. -/
def u32At (file : Bytes) (offset : Nat) : Nat := leNat (slice file offset 4)

/-- The 64-bit number at an offset of a file. -/
def u64At (file : Bytes) (offset : Nat) : UInt64 := UInt64.ofNat (leNat (slice file offset 8))

/-- The file holds the fields of an entry in front of its value. -/
structure HeadAt (file : Bytes) (offset : Nat) (key : Bytes) (type : UInt8) (val_len : Nat) : Prop where
  inside : offset + 9 + key.length ≤ file.length
  at_key_len : u32At file offset = key.length
  at_key : slice file (offset + 4) key.length = key
  at_type : slice file (offset + 4 + key.length) 1 = [type]
  at_val_len : u32At file (offset + 5 + key.length) = val_len

/-- The entries of an index block from a position on, each of them inside the file. The
last one may run past the size of the block. -/
inductive Indexed (file : Bytes) (offset size : Nat) : Nat → List IndexEntry → Prop where
  | ends {pos : Nat} (hpos : size ≤ pos) : Indexed file offset size pos []
  | entry {pos val_len : Nat} {last_key : Bytes} {type : UInt8} {rest : List IndexEntry} (hpos : pos < size)
      (hhead : HeadAt file (offset + pos) last_key type val_len)
      (hinside : offset + pos + 25 + last_key.length ≤ file.length)
      (hrest : Indexed file offset size (pos + 25 + last_key.length) rest) :
      Indexed file offset size pos
        (⟨last_key, ⟨u64At file (offset + pos + 9 + last_key.length),
          u64At file (offset + pos + 17 + last_key.length)⟩⟩ :: rest)

/-- The entries of a data block from a position on, up to the one with the key or the
size of the block, are inside the file. -/
inductive Scanned (file key : Bytes) (offset size : Nat) : Nat → Prop where
  | ends {pos : Nat} (hpos : size ≤ pos) : Scanned file key offset size pos
  | found {pos val_len : Nat} {type : UInt8} (hpos : pos < size)
      (hhead : HeadAt file (offset + pos) key type val_len)
      (hvalue : type = ValueType.kValue.to_u8 → offset + pos + 9 + key.length + val_len ≤ file.length) :
      Scanned file key offset size pos
  | other {pos val_len : Nat} {curr_key : Bytes} {type : UInt8} (hpos : pos < size)
      (hhead : HeadAt file (offset + pos) curr_key type val_len) (hne : curr_key ≠ key)
      (hrest : Scanned file key offset size (pos + 9 + curr_key.length + val_len)) :
      Scanned file key offset size pos

/-- The fields of a data block from a position on that fit its size are inside the
file. The first field that does not fit ends the block. -/
inductive Walked (file : Bytes) (offset size : Nat) : Nat → Prop where
  | at_key_len {pos : Nat} (hends : size < pos + 4) : Walked file offset size pos
  | at_key {pos : Nat} (hpos : pos + 4 ≤ size) (hinside : offset + pos + 4 ≤ file.length)
      (hends : size < pos + 4 + u32At file (offset + pos)) : Walked file offset size pos
  | at_type {pos key_len : Nat} (hkey : u32At file (offset + pos) = key_len) (hpos : pos + 4 + key_len ≤ size)
      (hinside : offset + pos + 4 + key_len ≤ file.length) (hends : size < pos + 5 + key_len) :
      Walked file offset size pos
  | at_val_len {pos key_len : Nat} (hkey : u32At file (offset + pos) = key_len) (hpos : pos + 5 + key_len ≤ size)
      (hinside : offset + pos + 5 + key_len ≤ file.length) (hends : size < pos + 9 + key_len) :
      Walked file offset size pos
  | at_value {pos key_len : Nat} (hkey : u32At file (offset + pos) = key_len) (hpos : pos + 9 + key_len ≤ size)
      (hinside : offset + pos + 9 + key_len ≤ file.length)
      (hends : size < pos + 9 + key_len + u32At file (offset + pos + 5 + key_len)) :
      Walked file offset size pos
  | entry {pos key_len val_len : Nat} (hkey : u32At file (offset + pos) = key_len)
      (hval : u32At file (offset + pos + 5 + key_len) = val_len) (hpos : pos + 9 + key_len + val_len ≤ size)
      (hinside : offset + pos + 9 + key_len + val_len ≤ file.length)
      (hrest : Walked file offset size (pos + 9 + key_len + val_len)) : Walked file offset size pos

section

variable {file : Bytes} {offset size pos : UInt64}

theorem u32At_lt (file : Bytes) (offset : Nat) : u32At file offset < 2 ^ 32 := by
  have hlength : (slice file offset 4).length ≤ 4 := by
    rw [slice, List.length_take]
    exact Nat.min_le_left _ _
  exact (leNat_lt _).trans_le (Nat.pow_le_pow_right (by decide) (by omega))

/-- The position is one that a loop can reach: the loop has just begun, or it is one
entry behind a place inside the file at most. -/
structure Reached (file : Bytes) (offset pos : UInt64) : Prop where
  small : file.length < 2 ^ 63
  word : (offset + pos).toNat = offset.toNat + pos.toNat
  near : pos.toNat < 2 ^ 63 + 2 ^ 34

theorem inside_iff {start : UInt64} {count : Nat} (hcount : 0 < count) :
    Range.Inside file ⟨start, count⟩ ↔ start.toNat + count ≤ file.length := by
  constructor
  · rintro (hzero | h)
    · exact absurd hzero (Nat.ne_of_gt hcount)
    · exact h
  · exact .inr

/-- Moving on by less than `2 ^ 34` bytes does not wrap. -/
theorem Reached.pos_add (h : Reached file offset pos) {count : Nat} (hcount : count < 2 ^ 34) :
    (pos + UInt64.ofNat count).toNat = pos.toNat + count := by
  have hnear := h.near
  have hword : (UInt64.ofNat count).toNat = count := word_ofNat (by omega)
  rw [word_add (by omega), hword]

/-- Nor does the place in the file, from one inside it. -/
theorem Reached.add (h : Reached file offset pos) (hinside : offset.toNat + pos.toNat ≤ file.length)
    {count : Nat} (hcount : count < 2 ^ 34) :
    (offset + (pos + UInt64.ofNat count)).toNat = offset.toNat + pos.toNat + count := by
  have hsmall := h.small
  rw [word_add (by rw [h.pos_add hcount]; omega), h.pos_add hcount]
  omega

/-- A field behind the position, at a distance below `2 ^ 34`. -/
theorem Reached.inside_iff (h : Reached file offset pos) (hinside : offset.toNat + pos.toNat ≤ file.length)
    {distance count : Nat} (hdistance : distance < 2 ^ 34) (hcount : 0 < count) :
    Range.Inside file ⟨offset + (pos + UInt64.ofNat distance), count⟩ ↔
      offset.toNat + pos.toNat + distance + count ≤ file.length := by
  rw [NovaKV.Format.inside_iff hcount, h.add hinside hdistance]

/-- Also one without bytes, if it does not start behind the end. -/
theorem Reached.field_iff (h : Reached file offset pos) {distance count : Nat} (hdistance : distance < 2 ^ 34)
    (hinside : offset.toNat + pos.toNat + distance ≤ file.length) :
    Range.Inside file ⟨offset + (pos + UInt64.ofNat distance), count⟩ ↔
      offset.toNat + pos.toNat + distance + count ≤ file.length := by
  rcases Nat.eq_zero_or_pos count with rfl | hpositive
  · exact iff_of_true (.inl rfl) hinside
  · exact h.inside_iff (by omega) hdistance hpositive

theorem Reached.next (h : Reached file offset pos) (hinside : offset.toNat + pos.toNat ≤ file.length)
    {count : Nat} (hcount : count < 2 ^ 34) : Reached file offset (pos + UInt64.ofNat count) := by
  have hsmall := h.small
  refine ⟨h.small, ?_, ?_⟩
  · rw [h.add hinside hcount, h.pos_add hcount, Nat.add_assoc]
  · rw [h.pos_add hcount]
    omega

/-- The positions of the fields of an entry, each as one step from its start. -/
theorem entry_words (pos : UInt64) (key_len val_len : Nat) :
    pos + 4 = pos + UInt64.ofNat 4 ∧
      pos + 4 + UInt64.ofNat key_len = pos + UInt64.ofNat (4 + key_len) ∧
      pos + 4 + UInt64.ofNat key_len + 1 = pos + UInt64.ofNat (5 + key_len) ∧
      pos + 4 + UInt64.ofNat key_len + 1 + 4 = pos + UInt64.ofNat (9 + key_len) ∧
      pos + 4 + UInt64.ofNat key_len + 1 + 4 + UInt64.ofNat val_len = pos + UInt64.ofNat (9 + key_len + val_len) := by
  have h4 : pos + 4 = pos + UInt64.ofNat 4 := rfl
  have hkey : pos + 4 + UInt64.ofNat key_len = pos + UInt64.ofNat (4 + key_len) := by
    rw [h4, UInt64.ofNat_add, UInt64.add_assoc]
  have htype : pos + 4 + UInt64.ofNat key_len + 1 = pos + UInt64.ofNat (5 + key_len) := by
    rw [hkey, show 5 + key_len = 4 + key_len + 1 by omega, UInt64.ofNat_add (4 + key_len), UInt64.add_assoc]
    rfl
  have hval : pos + 4 + UInt64.ofNat key_len + 1 + 4 = pos + UInt64.ofNat (9 + key_len) := by
    rw [htype, show 9 + key_len = 5 + key_len + 4 by omega, UInt64.ofNat_add (5 + key_len), UInt64.add_assoc]
    rfl
  refine ⟨h4, hkey, htype, hval, ?_⟩
  rw [hval, UInt64.ofNat_add (9 + key_len), UInt64.add_assoc]

/-- The reads in front of the value of an entry: the length of the key, the key, the
type and the length of the value. -/
def read_head (offset pos : UInt64) : Fetch (Nat × Bytes × Bytes × Nat) := do
  let key_len ← Fetch.number (offset + pos) 4
  let key ← Fetch.bytes (offset + (pos + 4)) key_len
  let vtype ← Fetch.bytes (offset + (pos + 4 + UInt64.ofNat key_len)) 1
  let val_len ← Fetch.number (offset + (pos + 4 + UInt64.ofNat key_len + 1)) 4
  return (key_len, key, vtype, val_len)

/-- They are inside the file if the last one is. -/
theorem Reached.read_head_inside (h : Reached file offset pos) {key_len : Nat} (hkey : key_len < 2 ^ 32) :
    (Range.Inside file ⟨offset + pos, 4⟩ ∧ Range.Inside file ⟨offset + (pos + 4), key_len⟩ ∧
      Range.Inside file ⟨offset + (pos + 4 + UInt64.ofNat key_len), 1⟩ ∧
      Range.Inside file ⟨offset + (pos + 4 + UInt64.ofNat key_len + 1), 4⟩) ↔
      offset.toNat + pos.toNat + 9 + key_len ≤ file.length := by
  obtain ⟨hpos4, hposk, hpost, -, -⟩ := entry_words pos key_len 0
  rw [hpost, hposk, hpos4, NovaKV.Format.inside_iff (by decide), h.word]
  constructor
  · rintro ⟨hlen, -, -, hval⟩
    rw [h.inside_iff (by omega) (by omega) (by decide)] at hval
    omega
  · intro hinside
    rw [h.field_iff (by omega) (by omega), h.field_iff (by omega) (by omega), h.field_iff (by omega) (by omega)]
    omega

/-- An entry whose fields are inside the file has a head. -/
theorem headAt_slices {start : Nat} (hinside : start + 9 + u32At file start ≤ file.length) :
    HeadAt file start (slice file (start + 4) (u32At file start))
      ((slice file (start + 4 + u32At file start) 1).headD 0) (u32At file (start + 5 + u32At file start)) := by
  have hkey : (slice file (start + 4) (u32At file start)).length = u32At file start := slice_length (by omega)
  refine ⟨by omega, hkey.symm, by rw [hkey], ?_, by rw [hkey]⟩
  rw [hkey]
  have hone := @slice_length file (start + 4 + u32At file start) 1 (by omega)
  obtain ⟨type, htype⟩ := List.length_eq_one_iff.mp hone
  rw [htype]
  rfl

/-- What the reads give back. -/
theorem Reached.read_head_eq (h : Reached file offset pos) {head : Nat × Bytes × Bytes × Nat} :
    (read_head offset pos).Yields file head ↔
      ∃ key type val_len, HeadAt file (offset.toNat + pos.toNat) key type val_len ∧
        head = (key.length, key, [type], val_len) := by
  have hkey := u32At_lt file (offset.toNat + pos.toNat)
  have hunfold : (read_head offset pos).Yields file head ↔
      Range.Inside file ⟨offset + pos, 4⟩ ∧
      Range.Inside file ⟨offset + (pos + 4), u32At file (offset + pos).toNat⟩ ∧
      Range.Inside file ⟨offset + (pos + 4 + UInt64.ofNat (u32At file (offset + pos).toNat)), 1⟩ ∧
      Range.Inside file ⟨offset + (pos + 4 + UInt64.ofNat (u32At file (offset + pos).toNat) + 1), 4⟩ ∧
      (u32At file (offset + pos).toNat,
        slice file (offset + (pos + 4)).toNat (u32At file (offset + pos).toNat),
        slice file (offset + (pos + 4 + UInt64.ofNat (u32At file (offset + pos).toNat))).toNat 1,
        u32At file (offset + (pos + 4 + UInt64.ofNat (u32At file (offset + pos).toNat) + 1)).toNat) = head :=
    Iff.rfl
  have hplaces : offset.toNat + pos.toNat ≤ file.length → ∀ key_len < 2 ^ 32,
      (offset + (pos + 4)).toNat = offset.toNat + pos.toNat + 4 ∧
      (offset + (pos + 4 + UInt64.ofNat key_len)).toNat = offset.toNat + pos.toNat + 4 + key_len ∧
      (offset + (pos + 4 + UInt64.ofNat key_len + 1)).toNat = offset.toNat + pos.toNat + 5 + key_len := by
    intro hinside key_len hlen
    obtain ⟨hpos4, hposk, hpost, -, -⟩ := entry_words pos key_len 0
    rw [hpost, hposk, hpos4, h.add hinside (by omega), h.add hinside (by omega), h.add hinside (by omega)]
    omega
  rw [hunfold, h.word]
  constructor
  · rintro ⟨hlen, hbytes, htype, hval, rfl⟩
    have hinside := (h.read_head_inside hkey).mp ⟨hlen, hbytes, htype, hval⟩
    obtain ⟨hplace4, hplacek, hplacet⟩ := hplaces (by omega) _ hkey
    have hhead := headAt_slices hinside
    refine ⟨_, _, _, hhead, ?_⟩
    rw [hplace4, hplacek, hplacet, ← hhead.at_key_len]
    have htype := hhead.at_type
    rw [← hhead.at_key_len] at htype
    rw [htype]
    rfl
  · rintro ⟨key, type, val_len, hhead, rfl⟩
    have hinside := hhead.inside
    rw [hhead.at_key_len] at hkey ⊢
    obtain ⟨hplace4, hplacek, hplacet⟩ := hplaces (by omega) _ hkey
    obtain ⟨hlen, hbytes, htype, hval⟩ := (h.read_head_inside hkey).mpr hinside
    refine ⟨hlen, hbytes, htype, hval, ?_⟩
    rw [hplace4, hplacek, hplacet, hhead.at_key, hhead.at_type, hhead.at_val_len]

theorem Reached.read_head_of_safe (h : Reached file offset pos) (hsafe : (read_head offset pos).Safe file) :
    ∃ key type val_len, HeadAt file (offset.toNat + pos.toNat) key type val_len := by
  obtain ⟨hlen, hbytes, htype, hval, -⟩ := hsafe
  obtain ⟨key, type, val_len, hhead, -⟩ := h.read_head_eq.mp ⟨hlen, hbytes, htype, hval, rfl⟩
  exact ⟨key, type, val_len, hhead⟩

/-- A program that reads a head and goes on. -/
theorem Reached.read_head_bind_safe {β : Type} (h : Reached file offset pos)
    {next : Nat × Bytes × Bytes × Nat → Fetch β} :
    (read_head offset pos >>= next).Safe file ↔
      ∃ key type val_len, HeadAt file (offset.toNat + pos.toNat) key type val_len ∧
        (next (key.length, key, [type], val_len)).Safe file := by
  rw [Fetch.safe_bind]
  constructor
  · rintro ⟨hsafe, hnext⟩
    obtain ⟨key, type, val_len, hhead⟩ := h.read_head_of_safe hsafe
    exact ⟨key, type, val_len, hhead, hnext _ (h.read_head_eq.mpr ⟨key, type, val_len, hhead, rfl⟩)⟩
  · rintro ⟨key, type, val_len, hhead, hnext⟩
    have hyields := h.read_head_eq.mpr ⟨key, type, val_len, hhead, rfl⟩
    refine ⟨hyields.safe, ?_⟩
    intro head hother
    rwa [hother.unique hyields]

/-- The passes that a loop over the file may still make. -/
structure Passes (file : Bytes) (offset pos : UInt64) (passes : Nat) : Prop where
  some : 0 < passes
  enough : file.length < offset.toNat + pos.toNat + 9 * passes

theorem Passes.next {count passes : Nat} (h : Passes file offset pos (passes + 1)) (hreached : Reached file offset pos)
    (hinside : offset.toNat + pos.toNat + 9 ≤ file.length) (hcount : count < 2 ^ 34) (hmoves : 9 ≤ count) :
    Passes file offset (pos + UInt64.ofNat count) passes := by
  have henough := h.enough
  refine ⟨by omega, ?_⟩
  rw [hreached.pos_add hcount]
  omega

theorem scanned_iff {key : Bytes} {offset size pos : Nat} (hpos : pos < size) :
    Scanned file key offset size pos ↔
      ∃ curr_key type val_len, HeadAt file (offset + pos) curr_key type val_len ∧
        (curr_key = key → type = ValueType.kValue.to_u8 →
          offset + pos + 9 + curr_key.length + val_len ≤ file.length) ∧
        (curr_key ≠ key → Scanned file key offset size (pos + (9 + curr_key.length + val_len))) := by
  constructor
  · intro h
    cases h with
    | ends hends => exact absurd hpos (Nat.not_lt.mpr hends)
    | found _ hhead hvalue => exact ⟨_, _, _, hhead, fun _ => hvalue, fun hne => absurd rfl hne⟩
    | other _ hhead hne hrest =>
      refine ⟨_, _, _, hhead, fun heq => absurd heq hne, fun _ => ?_⟩
      rwa [← Nat.add_assoc, ← Nat.add_assoc]
  · rintro ⟨curr_key, type, val_len, hhead, hvalue, hrest⟩
    by_cases hfound : curr_key = key
    · subst hfound
      exact .found hpos hhead (hvalue rfl)
    · refine .other hpos hhead hfound ?_
      have hscanned := hrest hfound
      rwa [← Nat.add_assoc, ← Nat.add_assoc] at hscanned

/-- `GetRecord` stays inside the file exactly if the entries that it passes do. -/
theorem scan_block_safe_iff {key : Bytes} {passes : Nat} (h : Reached file offset pos)
    (hpasses : Passes file offset pos passes) :
    (scan_block key offset size passes pos).Safe file ↔
      Scanned file key offset.toNat size.toNat pos.toNat := by
  induction passes generalizing pos with
  | zero => exact absurd hpasses.some (Nat.lt_irrefl 0)
  | succ passes ih =>
    by_cases hpos : pos < size
    · let rest : Nat × Bytes × Bytes × Nat → Fetch (Option StoredRecord) := fun (key_len, curr_key, vtype, val_len) =>
        if curr_key = key then
          if vtype.headD 0 = ValueType.kValue.to_u8 then do
            let value ← Fetch.bytes (offset + (pos + 4 + UInt64.ofNat key_len + 1 + 4)) val_len
            return some ⟨vtype.headD 0, value⟩
          else return some ⟨vtype.headD 0, []⟩
        else scan_block key offset size passes (pos + 4 + UInt64.ofNat key_len + 1 + 4 + UInt64.ofNat val_len)
      have hstep : scan_block key offset size (passes + 1) pos = (read_head offset pos >>= rest) := by
        rw [scan_block, if_pos hpos]
        rfl
      rw [hstep, h.read_head_bind_safe, scanned_iff (UInt64.lt_iff_toNat_lt.mp hpos)]
      refine exists_congr fun curr_key => exists_congr fun type => exists_congr fun val_len =>
        and_congr_right fun hhead => ?_
      have hinside := hhead.inside
      have hkey := hhead.at_key_len ▸ u32At_lt file _
      have hval := hhead.at_val_len ▸ u32At_lt file _
      by_cases hfound : curr_key = key
      · by_cases htype : type = ValueType.kValue.to_u8
        · obtain ⟨-, -, -, hposv, -⟩ := entry_words pos curr_key.length val_len
          have hvalue := @Reached.field_iff file offset pos h (9 + curr_key.length) val_len (by omega) (by omega)
          rw [← Nat.add_assoc, ← hposv] at hvalue
          simp only [rest, if_pos hfound, List.headD_cons, ← hvalue]
          simp [Fetch.Safe, Fetch.bytes, hfound, htype]
        · simp [rest, hfound, htype, Fetch.Safe]
      · obtain ⟨-, -, -, -, hposn⟩ := entry_words pos curr_key.length val_len
        simp only [rest, if_neg hfound, hposn]
        rw [ih (h.next (by omega) (by omega)) (hpasses.next h (by omega) (by omega) (by omega)),
          h.pos_add (by omega)]
        simp [hfound]
    · have hge : size.toNat ≤ pos.toNat := by
        rw [UInt64.lt_iff_toNat_lt] at hpos
        omega
      rw [scan_block, if_neg hpos]
      exact iff_of_true trivial (.ends hge)

/-- The two reads of a handle behind a head, and what follows. -/
theorem Reached.handle_yields {β : Type} {key_len : Nat} {next : BlockHandle → Fetch β} {result : β}
    (h : Reached file offset pos) (hkey : key_len < 2 ^ 32)
    (hinside : offset.toNat + pos.toNat + 9 + key_len ≤ file.length) :
    (do
      let handle_offset ← Fetch.number (offset + (pos + 4 + UInt64.ofNat key_len + 1 + 4)) 8
      let handle_size ← Fetch.number (offset + (pos + 4 + UInt64.ofNat key_len + 1 + 4 + 8)) 8
      next ⟨UInt64.ofNat handle_offset, UInt64.ofNat handle_size⟩ : Fetch β).Yields file result ↔
    offset.toNat + pos.toNat + 25 + key_len ≤ file.length ∧
      (next ⟨u64At file (offset.toNat + pos.toNat + 9 + key_len),
        u64At file (offset.toNat + pos.toNat + 17 + key_len)⟩).Yields file result := by
  obtain ⟨-, -, -, hposv, -⟩ := entry_words pos key_len 0
  have hposs : pos + UInt64.ofNat (9 + key_len) + 8 = pos + UInt64.ofNat (17 + key_len) := by
    rw [show 17 + key_len = 9 + key_len + 8 by omega, UInt64.ofNat_add (9 + key_len), UInt64.add_assoc]
    rfl
  rw [hposv, hposs]
  have hunfold : ∀ first second : UInt64,
      (do
        let handle_offset ← Fetch.number first 8
        let handle_size ← Fetch.number second 8
        next ⟨UInt64.ofNat handle_offset, UInt64.ofNat handle_size⟩ : Fetch β).Yields file result ↔
      Range.Inside file ⟨first, 8⟩ ∧ Range.Inside file ⟨second, 8⟩ ∧
        (next ⟨u64At file first.toNat, u64At file second.toNat⟩).Yields file result := fun _ _ => Iff.rfl
  rw [hunfold, h.inside_iff (by omega) (by omega) (by decide), h.inside_iff (by omega) (by omega) (by decide),
    h.add (by omega) (by omega), h.add (by omega) (by omega), ← Nat.add_assoc, ← Nat.add_assoc]
  constructor
  · rintro ⟨-, hroom, hnext⟩
    exact ⟨by omega, hnext⟩
  · rintro ⟨hroom, hnext⟩
    exact ⟨by omega, by omega, hnext⟩

/-- `ReadIndexBlock` stays inside the file and returns these entries exactly if the
file holds them. -/
theorem read_index_entries_iff {passes : Nat} {before result : List IndexEntry} (h : Reached file offset pos)
    (hpasses : Passes file offset pos passes) :
    (read_index_entries offset size passes pos before).Yields file result ↔
      ∃ entries, result = before ++ entries ∧ Indexed file offset.toNat size.toNat pos.toNat entries := by
  induction passes generalizing pos before with
  | zero => exact absurd hpasses.some (Nat.lt_irrefl 0)
  | succ passes ih =>
    by_cases hpos : pos < size
    · have hlt := UInt64.lt_iff_toNat_lt.mp hpos
      let next (key_len : Nat) (last_key : Bytes) (handle : BlockHandle) : Fetch (List IndexEntry) :=
        read_index_entries offset size passes (pos + 4 + UInt64.ofNat key_len + 1 + 4 + 8 + 8)
          (before ++ [⟨last_key, handle⟩])
      let rest : Nat × Bytes × Bytes × Nat → Fetch (List IndexEntry) := fun (key_len, last_key, _, _) => do
        let handle_offset ← Fetch.number (offset + (pos + 4 + UInt64.ofNat key_len + 1 + 4)) 8
        let handle_size ← Fetch.number (offset + (pos + 4 + UInt64.ofNat key_len + 1 + 4 + 8)) 8
        next key_len last_key ⟨UInt64.ofNat handle_offset, UInt64.ofNat handle_size⟩
      have hstep : (read_index_entries offset size (passes + 1) pos before).Yields file result ↔
          (read_head offset pos >>= rest).Yields file result := by
        rw [read_index_entries, if_pos hpos]
        exact Iff.rfl
      have hposn : ∀ key_len, pos + 4 + UInt64.ofNat key_len + 1 + 4 + 8 + 8 = pos + UInt64.ofNat (25 + key_len) := by
        intro key_len
        rw [(entry_words pos key_len 0).2.2.2.1, show 25 + key_len = 9 + key_len + (8 + 8) by omega,
          UInt64.ofNat_add (9 + key_len), UInt64.add_assoc, UInt64.add_assoc]
        rfl
      rw [hstep, Fetch.yields_bind]
      constructor
      · rintro ⟨_, hread, hrest⟩
        obtain ⟨last_key, type, val_len, hhead, rfl⟩ := h.read_head_eq.mp hread
        have hinside := hhead.inside
        have hkey := hhead.at_key_len ▸ u32At_lt file _
        obtain ⟨hroom, hnext⟩ := (@Reached.handle_yields file offset pos _ _ (next last_key.length last_key)
          result h hkey hinside).mp hrest
        simp only [next] at hnext
        rw [hposn, ih (h.next (by omega) (by omega)) (hpasses.next h (by omega) (by omega) (by omega)),
          h.pos_add (by omega)] at hnext
        obtain ⟨entries, rfl, hindexed⟩ := hnext
        refine ⟨_ :: entries, List.append_assoc _ _ _, .entry hlt hhead hroom ?_⟩
        rwa [← Nat.add_assoc] at hindexed
      · rintro ⟨entries, rfl, hindexed⟩
        cases hindexed with
        | ends hends => omega
        | @entry _ val_len last_key type entries _ hhead hroom hindexed =>
          have hinside := hhead.inside
          have hkey := hhead.at_key_len ▸ u32At_lt file _
          refine ⟨_, h.read_head_eq.mpr ⟨last_key, type, val_len, hhead, rfl⟩, ?_⟩
          refine (@Reached.handle_yields file offset pos _ _ (next last_key.length last_key) _ h hkey
            hinside).mpr ⟨hroom, ?_⟩
          simp only [next]
          rw [hposn, ih (h.next (by omega) (by omega)) (hpasses.next h (by omega) (by omega) (by omega)),
            h.pos_add (by omega), ← Nat.add_assoc]
          exact ⟨entries, List.append_cons _ _ _, hindexed⟩
    · have hge : size.toNat ≤ pos.toNat := by
        rw [UInt64.lt_iff_toNat_lt] at hpos
        omega
      rw [read_index_entries, if_neg hpos]
      constructor
      · rintro rfl
        exact ⟨[], by simp, .ends hge⟩
      · rintro ⟨entries, rfl, hindexed⟩
        cases hindexed with
        | ends => exact (List.append_nil before).symm
        | entry hlt => omega

theorem walked_iff {offset size pos key_len val_len : Nat} (hkey : u32At file (offset + pos) = key_len)
    (hval : u32At file (offset + pos + 5 + key_len) = val_len) :
    Walked file offset size pos ↔
      (pos + 4 ≤ size → offset + pos + 4 ≤ file.length ∧
        (pos + 4 + key_len ≤ size → offset + pos + 4 + key_len ≤ file.length ∧
          (pos + 5 + key_len ≤ size → offset + pos + 5 + key_len ≤ file.length ∧
            (pos + 9 + key_len ≤ size → offset + pos + 9 + key_len ≤ file.length ∧
              (pos + 9 + key_len + val_len ≤ size → offset + pos + 9 + key_len + val_len ≤ file.length ∧
                Walked file offset size (pos + 9 + key_len + val_len)))))) := by
  subst hkey hval
  constructor
  · intro h hpos4
    cases h with
    | at_key_len hends => omega
    | at_key _ hinside hends => exact ⟨hinside, fun hroom => by omega⟩
    | at_type hkey hroom hinside hends =>
      subst hkey
      exact ⟨by omega, fun _ => ⟨hinside, fun hroom => by omega⟩⟩
    | at_val_len hkey hroom hinside hends =>
      subst hkey
      exact ⟨by omega, fun _ => ⟨by omega, fun _ => ⟨hinside, fun hroom => by omega⟩⟩⟩
    | at_value hkey hroom hinside hends =>
      subst hkey
      exact ⟨by omega, fun _ => ⟨by omega, fun _ => ⟨by omega, fun _ => ⟨hinside, fun hroom => by omega⟩⟩⟩⟩
    | entry hkey hval hroom hinside hrest =>
      subst hkey hval
      exact ⟨by omega, fun _ => ⟨by omega, fun _ => ⟨by omega, fun _ => ⟨by omega, fun _ => ⟨hinside, hrest⟩⟩⟩⟩⟩
  · intro h
    by_cases hpos4 : pos + 4 ≤ size
    · obtain ⟨hin4, h⟩ := h hpos4
      by_cases hposk : pos + 4 + u32At file (offset + pos) ≤ size
      · obtain ⟨hink, h⟩ := h hposk
        by_cases hpost : pos + 5 + u32At file (offset + pos) ≤ size
        · obtain ⟨hint, h⟩ := h hpost
          by_cases hposv : pos + 9 + u32At file (offset + pos) ≤ size
          · obtain ⟨hinv, h⟩ := h hposv
            by_cases hposn : pos + 9 + u32At file (offset + pos) +
                u32At file (offset + pos + 5 + u32At file (offset + pos)) ≤ size
            · obtain ⟨hinside, hrest⟩ := h hposn
              exact .entry rfl rfl hposn hinside hrest
            · exact .at_value rfl hposv hinv (by omega)
          · exact .at_val_len rfl hpost hint (by omega)
        · exact .at_type rfl hposk hink (by omega)
      · exact .at_key hpos4 hin4 (by omega)
    · exact .at_key_len (by omega)

/-- A check that ends the loop. -/
theorem within_guard {β : Type} {mayStick : Prop} {next : UInt64} {a : β} {program : Fetch β} :
    Fetch.Within file mayStick (if next > size then .done a else program) ↔
      (next.toNat ≤ size.toNat → program.Within file mayStick) := by
  by_cases hnext : next > size
  · rw [if_pos hnext]
    rw [gt_iff_lt, UInt64.lt_iff_toNat_lt] at hnext
    exact iff_of_true trivial fun hle => by omega
  · rw [if_neg hnext]
    rw [gt_iff_lt, UInt64.lt_iff_toNat_lt] at hnext
    exact ⟨fun h _ => h, fun h => h (by omega)⟩

/-- `ForEach` stays inside the file exactly if the fields of the block that it reads do,
and then it returns. -/
theorem walk_block_within_iff {mayStick : Prop} {passes : Nat} (h : Reached file offset pos)
    (hpasses : Passes file offset pos passes) :
    (walk_block offset size passes pos).Within file mayStick ↔
      Walked file offset.toNat size.toNat pos.toNat := by
  induction passes generalizing pos with
  | zero => exact absurd hpasses.some (Nat.lt_irrefl 0)
  | succ passes ih =>
    by_cases hpos : pos < size
    · have hkey := u32At_lt file (offset.toNat + pos.toNat)
      have hval := u32At_lt file (offset.toNat + pos.toNat + 5 + u32At file (offset.toNat + pos.toNat))
      obtain ⟨hpos4, hposk, hpost, hposv, hposn⟩ := entry_words pos (u32At file (offset.toNat + pos.toNat))
        (u32At file (offset.toNat + pos.toNat + 5 + u32At file (offset.toNat + pos.toNat)))
      rw [hposk] at hpost hposv hposn
      rw [hpost] at hposv hposn
      rw [hposv] at hposn
      rw [walk_block, if_pos hpos, walked_iff rfl rfl]
      simp only [within_guard, Fetch.number_bind_within, Fetch.bytes_bind_within, Fetch.pure_eq, Fetch.within_bind_done]
      have hread : ∀ start, leNat (slice file start 4) = u32At file start := fun _ => rfl
      -- the checks and the reads of one pass, in the order of the fields
      refine imp_congr (by rw [hpos4, h.pos_add (by decide)]) ?_
      simp only [hread, h.word]
      rw [NovaKV.Format.inside_iff (by decide), h.word, hposk, h.pos_add (by omega), ← Nat.add_assoc]
      refine and_congr_right fun hin4 => imp_congr_right fun _ => ?_
      rw [hpos4, h.field_iff (by decide) (by omega)]
      refine and_congr_right fun hink => ?_
      rw [hpost, h.pos_add (by omega), ← Nat.add_assoc, h.field_iff (by omega) (by omega),
        show ∀ a b : Nat, a + (4 + b) + 1 = a + 5 + b by omega]
      refine imp_congr_right fun _ => and_congr_right fun hint => ?_
      rw [hposv, h.pos_add (by omega), ← Nat.add_assoc, h.field_iff (by omega) (by omega),
        show ∀ a b : Nat, a + (5 + b) + 4 = a + 9 + b by omega, h.add (by omega) (by omega), ← Nat.add_assoc]
      refine imp_congr_right fun _ => and_congr_right fun hinv => ?_
      rw [hposn, h.pos_add (by omega), ← Nat.add_assoc, ← Nat.add_assoc, h.field_iff (by omega) (by omega),
        ← Nat.add_assoc]
      refine imp_congr_right fun _ => and_congr_right fun hinn => ?_
      rw [ih (h.next (by omega) (by omega)) (hpasses.next h (by omega) (by omega) (by omega)),
        h.pos_add (by omega), ← Nat.add_assoc, ← Nat.add_assoc]
    · rw [walk_block, if_neg hpos]
      rw [UInt64.lt_iff_toNat_lt] at hpos
      exact iff_of_true trivial (.at_key_len (by omega))

theorem reached_zero (hfile : file.length < 2 ^ 63) (offset : UInt64) : Reached file offset 0 :=
  ⟨hfile, by rw [UInt64.add_zero]; rfl, by decide⟩

theorem passes_positions (hfile : file.length < 2 ^ 63) (offset : UInt64) : Passes file offset 0 positions := by
  refine ⟨by rw [positions]; decide, ?_⟩
  rw [positions]
  omega

/-- `ForEach` over all blocks. -/
theorem walk_blocks_safe_iff (hfile : file.length < 2 ^ 63) {entries : List IndexEntry} :
    (walk_blocks entries).Safe file ↔
      ∀ entry ∈ entries, Walked file entry.handle.offset.toNat entry.handle.size.toNat 0 := by
  induction entries with
  | nil => exact iff_of_true trivial nofun
  | cons entry entries ih =>
    have hblock : ∀ mayStick : Prop, (walk_block entry.handle.offset entry.handle.size positions 0).Within
        file mayStick ↔ Walked file entry.handle.offset.toNat entry.handle.size.toNat 0 := fun _ =>
      walk_block_within_iff (reached_zero hfile _) (passes_positions hfile _)
    rw [walk_blocks, Fetch.safe_bind, ← Fetch.within_true, hblock, List.forall_mem_cons, ← ih]
    refine and_congr_right fun hwalked => ?_
    simp only [Fetch.safe_bind]
    constructor
    · intro hrest
      obtain ⟨records, hrecords⟩ := Fetch.within_false.mp ((hblock False).mpr hwalked)
      exact (hrest records hrecords).1
    · exact fun hsafe _ _ => ⟨hsafe, fun _ _ => trivial⟩

end

end NovaKV.Format
