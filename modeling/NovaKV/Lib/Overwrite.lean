import Mathlib

namespace NovaKV.Lib

/-- An edit language whose every edit overwrites one cell of the state with a
value that does not depend on the state. -/
structure OverwriteModel (State Edit Cell Value : Type) where
  apply : Edit → State → State
  read : State → Cell → Value
  cell : Edit → Cell
  value : Edit → Value
  read_apply_self : ∀ edit state, read (apply edit state) (cell edit) = value edit
  read_apply_other : ∀ edit state c, c ≠ cell edit → read (apply edit state) c = read state c
  ext : ∀ s t, (∀ c, read s c = read t c) → s = t

namespace OverwriteModel

variable {State Edit Cell Value : Type} (M : OverwriteModel State Edit Cell Value)

/-- Apply a list of edits, oldest first. -/
def applyAll (edits : List Edit) (state : State) : State :=
  edits.foldl (fun s e => M.apply e s) state

@[simp] theorem applyAll_nil (state : State) : M.applyAll [] state = state := rfl

@[simp] theorem applyAll_cons (edit : Edit) (edits : List Edit) (state : State) :
    M.applyAll (edit :: edits) state = M.applyAll edits (M.apply edit state) := rfl

theorem applyAll_append (first second : List Edit) (state : State) :
    M.applyAll (first ++ second) state = M.applyAll second (M.applyAll first state) := by
  simp [applyAll]

theorem read_applyAll_of_untouched {edits : List Edit} {c : Cell}
    (huntouched : ∀ e ∈ edits, M.cell e ≠ c) (state : State) :
    M.read (M.applyAll edits state) c = M.read state c := by
  induction edits generalizing state with
  | nil => rfl
  | cons edit edits ih =>
    rw [applyAll_cons, ih (fun e he => huntouched e (by simp [he]))]
    exact M.read_apply_other edit state c (Ne.symm (huntouched edit (by simp)))

/-- A cell some edit touches ends with the same value from every start state. -/
theorem read_applyAll_of_touched {edits : List Edit} {c : Cell}
    (htouched : ∃ e ∈ edits, M.cell e = c) (s t : State) :
    M.read (M.applyAll edits s) c = M.read (M.applyAll edits t) c := by
  induction edits generalizing s t with
  | nil => simp at htouched
  | cons edit edits ih =>
    by_cases hlater : ∃ e ∈ edits, M.cell e = c
    · exact ih hlater _ _
    · have huntouched : ∀ e ∈ edits, M.cell e ≠ c := fun e he heq => hlater ⟨e, he, heq⟩
      have hhead : M.cell edit = c := by
        obtain ⟨e, he, heq⟩ := htouched
        rcases List.mem_cons.mp he with rfl | he
        · exact heq
        · exact absurd heq (huntouched e he)
      subst hhead
      rw [applyAll_cons, applyAll_cons, M.read_applyAll_of_untouched huntouched,
        M.read_applyAll_of_untouched huntouched, M.read_apply_self, M.read_apply_self]

/-- Replaying a log over a state that already contains a prefix of that log
gives the same state as replaying it over the state before the prefix. -/
theorem applyAll_applyAll_prefix (first second : List Edit) (state : State) :
    M.applyAll (first ++ second) (M.applyAll first state) = M.applyAll (first ++ second) state := by
  apply M.ext
  intro c
  by_cases htouched : ∃ e ∈ first ++ second, M.cell e = c
  · exact M.read_applyAll_of_touched htouched _ _
  · have huntouched : ∀ e ∈ first ++ second, M.cell e ≠ c := fun e he heq => htouched ⟨e, he, heq⟩
    rw [M.read_applyAll_of_untouched huntouched, M.read_applyAll_of_untouched huntouched,
      M.read_applyAll_of_untouched (fun e he => huntouched e (by simp [he]))]

/-- Replaying a log over its own result changes nothing. -/
theorem applyAll_idem (edits : List Edit) (state : State) :
    M.applyAll edits (M.applyAll edits state) = M.applyAll edits state := by
  simpa using M.applyAll_applyAll_prefix edits [] state

section Written

variable [DecidableEq Cell]

/-- The value that the last edit of a cell writes, if an edit touches it. -/
def written (edits : List Edit) (c : Cell) : Option Value :=
  edits.foldl (fun last e => if M.cell e = c then some (M.value e) else last) none

@[simp] theorem written_nil (c : Cell) : M.written [] c = none := rfl

theorem written_concat (edits : List Edit) (edit : Edit) (c : Cell) :
    M.written (edits ++ [edit]) c =
      if M.cell edit = c then some (M.value edit) else M.written edits c := by
  simp [written]

theorem written_eq_none_iff {edits : List Edit} {c : Cell} :
    M.written edits c = none ↔ ∀ e ∈ edits, M.cell e ≠ c := by
  induction edits using List.reverseRecOn with
  | nil => simp
  | append_singleton edits edit ih =>
    rw [written_concat]
    by_cases hcell : M.cell edit = c
    · simp [hcell]
    · simp [hcell, ih, or_imp, forall_and]

theorem read_applyAll (edits : List Edit) (state : State) (c : Cell) :
    M.read (M.applyAll edits state) c = (M.written edits c).getD (M.read state c) := by
  induction edits using List.reverseRecOn with
  | nil => rfl
  | append_singleton edits edit ih =>
    rw [written_concat, applyAll_append, applyAll_cons, applyAll_nil]
    by_cases hcell : M.cell edit = c
    · subst hcell
      simp [M.read_apply_self]
    · rw [M.read_apply_other edit _ c (Ne.symm hcell), ih, if_neg hcell]

/-- Some of the edits are in a log, and a snapshot already agrees with the
current state on every cell that the log leaves alone. Replaying the log over the
snapshot gives the current state exactly when no cell's last logged edit writes
another value than its last edit. -/
theorem applyAll_logged_eq_iff {logged all : List Edit} {snapshot base : State}
    (hlogged : ∀ e ∈ logged, e ∈ all)
    (hrest : ∀ c, M.written logged c = none →
      M.read snapshot c = M.read (M.applyAll all base) c) :
    M.applyAll logged snapshot = M.applyAll all base ↔
      ∀ c v, M.written logged c = some v → M.written all c = some v := by
  constructor
  · intro heq c v hwritten
    have hread := congrArg (fun state => M.read state c) heq
    simp only [read_applyAll, hwritten, Option.getD_some] at hread
    cases hall : M.written all c with
    | none =>
      have hnone : M.written logged c = none :=
        M.written_eq_none_iff.mpr fun e he => M.written_eq_none_iff.mp hall e (hlogged e he)
      rw [hnone] at hwritten
      cases hwritten
    | some last =>
      rw [hall, Option.getD_some] at hread
      rw [hread]
  · intro hlast
    apply M.ext
    intro c
    cases hwritten : M.written logged c with
    | none => rw [read_applyAll, hwritten, Option.getD_none, hrest c hwritten]
    | some v =>
      rw [read_applyAll, read_applyAll, hwritten, hlast c v hwritten]
      rfl

end Written

end OverwriteModel

end NovaKV.Lib
