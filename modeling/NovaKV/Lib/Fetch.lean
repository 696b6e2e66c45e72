import NovaKV.Lib.LittleEndian

namespace NovaKV.Lib

/-- A program that looks at a mapped file. A read names its range by the offset
from the start of the mapping, a machine word. A stuck program returns nothing: it
never ends, or it throws. -/
inductive Fetch (α : Type) where
  | done (a : α)
  | stuck
  | read (offset : UInt64) (count : Nat) (next : Bytes → Fetch α)

structure Range where
  offset : UInt64
  count : Nat

/-- What memory holds at each distance from the start of the mapping, also where
no file is mapped. -/
abbrev Memory := UInt64 → UInt8

def Memory.slice (mem : Memory) (offset : UInt64) (count : Nat) : Bytes :=
  (List.range count).map fun i => mem (offset + UInt64.ofNat i)

/-- The bytes of a file from an offset on. -/
def slice (file : Bytes) (offset count : Nat) : Bytes := (file.drop offset).take count

structure Maps (mem : Memory) (file : Bytes) : Prop where
  agrees : ∀ i, i < file.length → file[i]? = some (mem (UInt64.ofNat i))

/-- A memory with nothing but zeros around the file. -/
def Memory.ofFile (file : Bytes) : Memory := fun i => file.getD i.toNat 0

theorem maps_ofFile {file : Bytes} (h : file.length < 2 ^ 64) : Maps (Memory.ofFile file) file := by
  refine ⟨fun i hi => ?_⟩
  have hword : (UInt64.ofNat i).toNat = i := UInt64.toNat_ofNat_of_lt' (hi.trans h)
  rw [Memory.ofFile, hword, List.getD_eq_getElem _ _ hi, List.getElem?_eq_getElem hi]

def Range.Inside (file : Bytes) (range : Range) : Prop :=
  range.count = 0 ∨ range.offset.toNat + range.count ≤ file.length

namespace Fetch

variable {α β : Type}

def bind : Fetch α → (α → Fetch β) → Fetch β
  | done a, f => f a
  | stuck, _ => stuck
  | read offset count next, f => read offset count fun bytes => (next bytes).bind f

instance : Monad Fetch where
  pure := done
  bind := bind

/-- The bytes of one range. -/
def bytes (offset : UInt64) (count : Nat) : Fetch Bytes := read offset count done

/-- A little-endian number. -/
def number (offset : UInt64) (width : Nat) : Fetch Nat := do
  let field ← bytes offset width
  return leNat field

/-- What the program returns over a memory, and the ranges it reads on the way. -/
def run (mem : Memory) : Fetch α → Option α × List Range
  | done a => (some a, [])
  | stuck => (none, [])
  | read offset count next =>
    let (result, ranges) := (next (mem.slice offset count)).run mem
    (result, ⟨offset, count⟩ :: ranges)

/-- Every read stays inside the file. -/
def Safe (file : Bytes) : Fetch α → Prop
  | done _ => True
  | stuck => True
  | read offset count next =>
    Range.Inside file ⟨offset, count⟩ ∧ (next (slice file offset.toNat count)).Safe file

/-- Every read stays inside the file, and this is what comes back. -/
def Yields (file : Bytes) : Fetch α → α → Prop
  | done a, result => a = result
  | stuck, _ => False
  | read offset count next, result =>
    Range.Inside file ⟨offset, count⟩ ∧ (next (slice file offset.toNat count)).Yields file result

@[simp] theorem pure_eq (a : α) : (Pure.pure a : Fetch α) = done a := rfl

@[simp] theorem done_bind (a : α) (f : α → Fetch β) : (done a >>= f) = f a := rfl

@[simp] theorem stuck_bind (f : α → Fetch β) : (stuck >>= f) = stuck := rfl

@[simp] theorem read_bind (offset : UInt64) (count : Nat) (next : Bytes → Fetch α) (f : α → Fetch β) :
    (read offset count next >>= f) = read offset count fun bytes => next bytes >>= f := rfl

variable {file : Bytes} {mem : Memory} {program : Fetch α}

theorem Yields.safe {result : α} (h : program.Yields file result) : program.Safe file := by
  induction program with
  | done a => trivial
  | stuck => trivial
  | read offset count next ih => exact ⟨h.1, ih _ h.2⟩

theorem Yields.unique {first second : α} (hfirst : program.Yields file first)
    (hsecond : program.Yields file second) : first = second := by
  induction program with
  | done a => exact hfirst.symm.trans hsecond
  | stuck => exact hfirst.elim
  | read offset count next ih => exact ih _ hfirst.2 hsecond.2

theorem Yields.bind {f : α → Fetch β} {a : α} {b : β} (hfirst : program.Yields file a)
    (hnext : (f a).Yields file b) : (program >>= f).Yields file b := by
  induction program with
  | done a' =>
    cases hfirst
    exact hnext
  | stuck => exact hfirst.elim
  | read offset count next ih => exact ⟨hfirst.1, ih _ hfirst.2⟩

theorem yields_bind {f : α → Fetch β} {b : β} :
    (program >>= f).Yields file b ↔ ∃ a, program.Yields file a ∧ (f a).Yields file b := by
  constructor
  · intro h
    induction program with
    | done a => exact ⟨a, rfl, h⟩
    | stuck => exact h.elim
    | read offset count next ih =>
      obtain ⟨a, ha, hb⟩ := ih _ h.2
      exact ⟨a, ⟨h.1, ha⟩, hb⟩
  · rintro ⟨a, ha, hb⟩
    exact ha.bind hb

theorem safe_bind {f : α → Fetch β} :
    (program >>= f).Safe file ↔ program.Safe file ∧ ∀ a, program.Yields file a → (f a).Safe file := by
  induction program with
  | done a =>
    constructor
    · rintro h
      exact ⟨trivial, fun _ ha => ha ▸ h⟩
    · rintro ⟨-, h⟩
      exact h a rfl
  | stuck => exact ⟨fun _ => ⟨trivial, fun _ h => h.elim⟩, fun _ => trivial⟩
  | read offset count next ih =>
    constructor
    · rintro ⟨hinside, hrest⟩
      obtain ⟨hsafe, hnext⟩ := (ih _).mp hrest
      exact ⟨⟨hinside, hsafe⟩, fun a ha => hnext a ha.2⟩
    · rintro ⟨⟨hinside, hsafe⟩, hnext⟩
      exact ⟨hinside, (ih _).mpr ⟨hsafe, fun a ha => hnext a ⟨hinside, ha⟩⟩⟩

theorem bytes_bind_safe {f : Bytes → Fetch β} {offset : UInt64} {count : Nat} :
    (bytes offset count >>= f).Safe file ↔
      Range.Inside file ⟨offset, count⟩ ∧ (f (slice file offset.toNat count)).Safe file := Iff.rfl

/-- Every read stays inside the file; whether the program may get stuck is left open. -/
def Within (file : Bytes) (mayStick : Prop) : Fetch α → Prop
  | done _ => True
  | stuck => mayStick
  | read offset count next =>
    Range.Inside file ⟨offset, count⟩ ∧ (next (slice file offset.toNat count)).Within file mayStick

theorem within_true : program.Within file True ↔ program.Safe file := by
  induction program with
  | done a => exact Iff.rfl
  | stuck => exact Iff.rfl
  | read offset count next ih => exact and_congr_right fun _ => ih _

theorem within_false : program.Within file False ↔ ∃ a, program.Yields file a := by
  induction program with
  | done a => exact iff_of_true trivial ⟨a, rfl⟩
  | stuck => exact iff_of_false id fun ⟨_, h⟩ => h
  | read offset count next ih =>
    constructor
    · rintro ⟨hinside, hrest⟩
      obtain ⟨a, ha⟩ := (ih _).mp hrest
      exact ⟨a, hinside, ha⟩
    · rintro ⟨a, hinside, ha⟩
      exact ⟨hinside, (ih _).mpr ⟨a, ha⟩⟩

section

variable {mayStick : Prop}

theorem within_bind_done {f : α → β} :
    (program >>= fun a => done (f a)).Within file mayStick ↔ program.Within file mayStick := by
  induction program with
  | done a => exact Iff.rfl
  | stuck => exact Iff.rfl
  | read offset count next ih => exact and_congr_right fun _ => ih _

theorem bytes_bind_within {f : Bytes → Fetch β} {offset : UInt64} {count : Nat} :
    (bytes offset count >>= f).Within file mayStick ↔
      Range.Inside file ⟨offset, count⟩ ∧ (f (slice file offset.toNat count)).Within file mayStick := Iff.rfl

theorem number_bind_within {f : Nat → Fetch β} {offset : UInt64} {width : Nat} :
    (number offset width >>= f).Within file mayStick ↔
      Range.Inside file ⟨offset, width⟩ ∧ (f (leNat (slice file offset.toNat width))).Within file mayStick := Iff.rfl

end

end Fetch

/-- The file has these bytes at an offset. -/
def Holds (file : Bytes) (offset : Nat) (field : Bytes) : Prop :=
  ∃ before after, file = before ++ (field ++ after) ∧ before.length = offset

theorem Holds.append {file : Bytes} {offset : Nat} {first second : Bytes}
    (h : Holds file offset (first ++ second)) :
    Holds file offset first ∧ Holds file (offset + first.length) second := by
  obtain ⟨before, after, rfl, rfl⟩ := h
  refine ⟨⟨before, second ++ after, by simp, rfl⟩, ⟨before ++ first, after, by simp, by simp⟩⟩

theorem Holds.le {file : Bytes} {offset : Nat} {field : Bytes} (h : Holds file offset field) :
    offset + field.length ≤ file.length := by
  obtain ⟨before, after, rfl, rfl⟩ := h
  simp only [List.length_append]
  omega

theorem Holds.slice {file : Bytes} {offset : Nat} {field : Bytes} (h : Holds file offset field) :
    slice file offset field.length = field := by
  obtain ⟨before, after, rfl, rfl⟩ := h
  rw [NovaKV.Lib.slice, List.drop_left, List.take_left]

theorem slice_zero (file : Bytes) (offset : Nat) : slice file offset 0 = [] := by simp [slice]

theorem slice_length {file : Bytes} {offset count : Nat} (h : offset + count ≤ file.length) :
    (slice file offset count).length = count := by
  rw [slice, List.length_take, List.length_drop]
  omega

/-- A read inside the file sees the file. -/
theorem Maps.slice {mem : Memory} {file : Bytes} (h : Maps mem file) {offset : UInt64} {count : Nat}
    (hinside : Range.Inside file ⟨offset, count⟩) : mem.slice offset count = slice file offset.toNat count := by
  rcases hinside with hempty | hinside
  · cases (show count = 0 from hempty)
    rw [slice_zero]
    rfl
  · refine List.ext_getElem? fun i => ?_
    by_cases hi : i < count
    · have hword : offset + UInt64.ofNat i = UInt64.ofNat (offset.toNat + i) := by
        rw [UInt64.ofNat_add, UInt64.ofNat_toNat]
      have hbyte : file[offset.toNat + i]? = some (mem (UInt64.ofNat (offset.toNat + i))) :=
        h.agrees _ (by dsimp only at hinside; omega)
      rw [Memory.slice, List.getElem?_map, List.getElem?_range hi, NovaKV.Lib.slice, List.getElem?_take_of_lt hi,
        List.getElem?_drop, hbyte, Option.map_some, hword]
    · have hlength : (NovaKV.Lib.slice file offset.toNat count).length = count := slice_length hinside
      rw [List.getElem?_eq_none (by simp [Memory.slice]; omega), List.getElem?_eq_none (by omega)]

namespace Fetch

variable {α : Type} {file : Bytes} {mem : Memory} {program : Fetch α}

theorem bytes_yields {offset : UInt64} {count : Nat} {field : Bytes} (h : Holds file offset.toNat field)
    (hcount : field.length = count) : (bytes offset count).Yields file field := by
  subst hcount
  exact ⟨.inr h.le, h.slice⟩

theorem number_yields {offset : UInt64} {width n : Nat} (h : Holds file offset.toNat (leBytes width n))
    (hn : n < 256 ^ width) : (number offset width).Yields file n :=
  (bytes_yields h (leBytes_length width n)).bind (leNat_leBytes_of_lt hn)

/-- The ranges read over a memory with the file in it stay inside the file exactly
if the program is safe on the file alone. -/
theorem ranges_inside_iff (hmaps : Maps mem file) (program : Fetch α) :
    (∀ range ∈ (program.run mem).2, range.Inside file) ↔ program.Safe file := by
  induction program with
  | done a => simp [run, Safe]
  | stuck => simp [run, Safe]
  | read offset count next ih =>
    simp only [run, Safe, List.forall_mem_cons]
    refine and_congr_right fun hinside => ?_
    rw [hmaps.slice hinside]
    exact ih _

/-- A sequence returns where both parts do. -/
theorem run_bind {β : Type} {f : α → Fetch β} {result : β} :
    ((program >>= f).run mem).1 = some result ↔
      ∃ a, (program.run mem).1 = some a ∧ ((f a).run mem).1 = some result := by
  induction program with
  | done a => simp [run]
  | stuck => simp [run]
  | read offset count next ih => exact ih _

theorem run_bytes {offset : UInt64} {count : Nat} {field : Bytes} :
    ((bytes offset count).run mem).1 = some field ↔ mem.slice offset count = field := by
  simp [bytes, run]

/-- A number read from a few bytes is small, whatever memory holds. -/
theorem lt_of_run_number {offset : UInt64} {width n : Nat} (h : ((number offset width).run mem).1 = some n) :
    n < 2 ^ (8 * width) := by
  obtain ⟨field, hfield, hn⟩ := run_bind.mp h
  have hlength : field.length = width := by
    rw [← run_bytes.mp hfield]
    simp [Memory.slice]
  have hvalue : leNat field = n := Option.some.inj hn
  rw [← hvalue, ← hlength]
  exact leNat_lt field

theorem length_of_run_bytes {offset : UInt64} {count : Nat} {field : Bytes}
    (h : ((bytes offset count).run mem).1 = some field) : field.length = count := by
  rw [← run_bytes.mp h]
  simp [Memory.slice]

/-- A safe program returns the same over every memory with the file in it. -/
theorem run_of_yields (hmaps : Maps mem file) {result : α} (h : program.Yields file result) :
    (program.run mem).1 = some result := by
  induction program with
  | done a => exact congrArg some h
  | stuck => exact h.elim
  | read offset count next ih =>
    rw [run, hmaps.slice h.1]
    exact ih _ h.2

theorem yields_of_run (hmaps : Maps mem file) {result : α} (hsafe : program.Safe file)
    (hrun : (program.run mem).1 = some result) : program.Yields file result := by
  induction program with
  | done a => exact Option.some.inj hrun
  | stuck => cases hrun
  | read offset count next ih =>
    refine ⟨hsafe.1, ih _ hsafe.2 ?_⟩
    rw [run, hmaps.slice hsafe.1] at hrun
    exact hrun

end Fetch

end NovaKV.Lib
