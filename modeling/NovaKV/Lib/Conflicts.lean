import Mathlib

namespace NovaKV.Lib

/-- Operations on a state of cells. What an operation returns and writes depends only on
the cells that it reads, and it leaves alone the cells that it does not write. -/
structure Footprints (S K V Op R : Type) where
  look : S → K → V
  exec : Op → S → S × R
  reads : Op → K → Prop
  writes : Op → K → Prop
  extensional : ∀ first second, (∀ key, look first key = look second key) → first = second
  frame : ∀ op state key, ¬ writes op key → look (exec op state).1 key = look state key
  returns : ∀ op first second, (∀ key, reads op key → look first key = look second key) →
    (exec op first).2 = (exec op second).2
  written : ∀ op first second key, writes op key → (∀ other, reads op other → look first other = look second other) →
    look (exec op first).1 key = look (exec op second).1 key

namespace Footprints

section

variable {S K V Op R : Type}

/-- One of the operations writes a cell that the other one uses. -/
def Conflict (prints : Footprints S K V Op R) (first second : Op) : Prop :=
  ∃ key, (prints.writes first key ∧ (prints.reads second key ∨ prints.writes second key)) ∨
    (prints.reads first key ∧ prints.writes second key)

/-- The state after numbered operations in the order of a schedule. -/
def after (prints : Footprints S K V Op R) (ops : Nat → Op) (start : S) (schedule : List Nat) : S :=
  schedule.foldl (fun state number => (prints.exec (ops number) state).1) start

/-- No operation comes twice, and each one comes after those with smaller numbers that
it conflicts with. -/
structure Respects (prints : Footprints S K V Op R) (ops : Nat → Op) (schedule : List Nat) : Prop where
  nodup : schedule.Nodup
  earlier : ∀ before number, before ++ [number] <+: schedule → ∀ other < number,
    prints.Conflict (ops other) (ops number) → other ∈ before

variable {prints : Footprints S K V Op R} {ops : Nat → Op} {start : S} {before schedule : List Nat} {number : Nat}

theorem after_concat (prints : Footprints S K V Op R) (ops : Nat → Op) (start : S) (before : List Nat) (number : Nat) :
    prints.after ops start (before ++ [number]) = (prints.exec (ops number) (prints.after ops start before)).1 := by
  simp [after]

theorem Respects.front (h : prints.Respects ops (before ++ [number])) : prints.Respects ops before where
  nodup := h.nodup.of_append_left
  earlier inner other hinner := h.earlier inner other (hinner.trans (List.prefix_append _ _))

/-- Whatever comes before an operation and conflicts with it has a smaller number. -/
theorem Respects.lt_of_mem (h : prints.Respects ops (before ++ [number])) {other : Nat} (hother : other ∈ before)
    (hconflict : prints.Conflict (ops number) (ops other)) : other < number := by
  have hdistinct := List.nodup_append.mp h.nodup
  have hne : other ≠ number := hdistinct.2.2 other hother number List.mem_cons_self
  by_contra hle
  obtain ⟨inner, later, rfl⟩ := List.append_of_mem hother
  have hcut : inner ++ [other] <+: (inner ++ other :: later) ++ [number] := ⟨later ++ [number], by simp⟩
  have hearlier := h.earlier inner other hcut number (by omega) hconflict
  exact hdistinct.2.2 number (List.mem_append_left _ hearlier) number List.mem_cons_self rfl

/-- Operations that do not write a cell leave it alone. -/
theorem look_after_of_not_writes {key : K} (hnot : ∀ other ∈ schedule, ¬ prints.writes (ops other) key) :
    prints.look (prints.after ops start schedule) key = prints.look start key := by
  induction schedule using List.reverseRecOn with
  | nil => rfl
  | append_singleton schedule other ih =>
    rw [after_concat, prints.frame _ _ _ (hnot other (by simp))]
    exact ih fun inner hinner => hnot inner (List.mem_append_left _ hinner)

/-- The last of the first operations that write a cell decides what is in it. -/
theorem look_after_range {key : K} {count : Nat} (hlt : number < count)
    (hlast : ∀ other, number < other → other < count → ¬ prints.writes (ops other) key) :
    prints.look (prints.after ops start (List.range count)) key =
      prints.look (prints.exec (ops number) (prints.after ops start (List.range number))).1 key := by
  obtain ⟨rest, rfl⟩ := Nat.exists_eq_add_of_le hlt
  rw [List.range_add, ← after_concat, ← List.range_succ, after, List.foldl_append]
  refine look_after_of_not_writes ?_
  intro other hother
  obtain ⟨i, hi, rfl⟩ := List.mem_map.mp hother
  rw [List.mem_range] at hi
  exact hlast _ (by omega) (by omega)

/-- A cell has the same contents after a schedule as after the first operations in their
own order, if the schedule has the same ones of those that write it. -/
theorem Respects.look_after (h : prints.Respects ops schedule) {key : K} {count : Nat}
    (hsame : ∀ other, prints.writes (ops other) key → (other ∈ schedule ↔ other < count)) :
    prints.look (prints.after ops start schedule) key = prints.look (prints.after ops start (List.range count)) key := by
  induction schedule using List.reverseRecOn generalizing key count with
  | nil =>
    refine (@look_after_of_not_writes _ _ _ _ _ prints ops start (List.range count) key ?_).symm
    intro other hother hwrites
    simpa using (hsame other hwrites).mpr (List.mem_range.mp hother)
  | append_singleton before number ih =>
    by_cases hwrites : prints.writes (ops number) key
    · have hlt : number < count := (hsame number hwrites).mp (by simp)
      have hlast : ∀ other, number < other → other < count → ¬ prints.writes (ops other) key := by
        intro other hgt hother hkey
        have hmem := (hsame other hkey).mpr hother
        simp only [List.mem_append, List.mem_singleton] at hmem
        have hbefore := hmem.resolve_right (by omega)
        have hle := h.lt_of_mem hbefore ⟨key, .inl ⟨hwrites, .inr hkey⟩⟩
        omega
      rw [after_concat, look_after_range hlt hlast]
      refine prints.written _ _ _ _ hwrites fun cell hcell => ih h.front fun other hother => ?_
      constructor
      · exact fun hmem => h.lt_of_mem hmem ⟨cell, .inr ⟨hcell, hother⟩⟩
      · exact fun hless => h.earlier before number (List.prefix_refl _) other hless ⟨cell, .inl ⟨hother, .inl hcell⟩⟩
    · rw [after_concat, prints.frame _ _ _ hwrites]
      refine ih h.front fun other hother => ?_
      rw [← hsame other hother, List.mem_append, List.mem_singleton, or_iff_left]
      rintro rfl
      exact hwrites hother

/-- An operation returns what it would return in the order of the numbers. -/
theorem Respects.returns_eq (h : prints.Respects ops (before ++ [number])) :
    (prints.exec (ops number) (prints.after ops start before)).2 =
      (prints.exec (ops number) (prints.after ops start (List.range number))).2 := by
  refine prints.returns _ _ _ fun cell hcell => h.front.look_after fun other hother => ?_
  constructor
  · exact fun hmem => h.lt_of_mem hmem ⟨cell, .inr ⟨hcell, hother⟩⟩
  · exact fun hless => h.earlier before number (List.prefix_refl _) other hless ⟨cell, .inl ⟨hother, .inl hcell⟩⟩

/-- A schedule of all operations ends in the state that the order of the numbers ends in. -/
theorem Respects.after_eq (h : prints.Respects ops schedule) {count : Nat}
    (hall : ∀ number, number ∈ schedule ↔ number < count) :
    prints.after ops start schedule = prints.after ops start (List.range count) :=
  prints.extensional _ _ fun _ => h.look_after fun number _ => hall number

end

end Footprints

end NovaKV.Lib
