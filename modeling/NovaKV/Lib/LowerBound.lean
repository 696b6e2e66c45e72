import Mathlib

namespace NovaKV.Lib

variable {α : Type}

/-- Binary search for the first element that is not below, among the `len` elements
from `first` on; every step at least halves what is left. -/
def lowerBoundLoop (xs : List α) (below : α → Bool) : Nat → Nat → Nat → Nat
  | 0, first, _ => first
  | fuel + 1, first, len =>
    if len = 0 then first
    else
      let half := len / 2
      let middle := first + half
      if (xs[middle]?.map below).getD false then lowerBoundLoop xs below fuel (middle + 1) (len - half - 1)
      else lowerBoundLoop xs below fuel first half

/-- `std::lower_bound`. -/
def lowerBound (xs : List α) (below : α → Bool) : Nat := lowerBoundLoop xs below xs.length 0 xs.length

/-- The elements below come first. -/
def Partitioned (xs : List α) (below : α → Bool) : Prop :=
  xs.Pairwise fun a b => below b = true → below a = true

theorem getElem?_below_iff {xs : List α} {below : α → Bool} (h : Partitioned xs below) (i : Nat) :
    (xs[i]?.map below).getD false = true ↔ i < (xs.takeWhile below).length := by
  induction xs generalizing i with
  | nil => simp
  | cons x xs ih =>
    obtain ⟨hfirst, hrest⟩ := List.pairwise_cons.mp h
    by_cases hx : below x = true
    · rw [List.takeWhile_cons_of_pos hx]
      cases i with
      | zero => simp [hx]
      | succ i => simpa using ih hrest i
    · rw [List.takeWhile_cons_of_neg hx]
      have hnone : ∀ y ∈ x :: xs, below y = false := by
        intro y hy
        rcases List.mem_cons.mp hy with rfl | hy
        · simpa using hx
        · by_contra hbelow
          exact hx (hfirst y hy (by simpa using hbelow))
      cases hget : (x :: xs)[i]? with
      | none => simp
      | some y => simp [hnone y (List.mem_of_getElem? hget)]

theorem lowerBoundLoop_eq {xs : List α} {below : α → Bool} (h : Partitioned xs below) {fuel first len : Nat}
    (hfuel : len ≤ fuel) (hfirst : first ≤ (xs.takeWhile below).length)
    (hlast : (xs.takeWhile below).length ≤ first + len) :
    lowerBoundLoop xs below fuel first len = (xs.takeWhile below).length := by
  induction fuel generalizing first len with
  | zero =>
    rw [lowerBoundLoop]
    omega
  | succ fuel ih =>
    rw [lowerBoundLoop]
    split
    · omega
    · dsimp only
      split
      · rename_i hbelow
        rw [getElem?_below_iff h] at hbelow
        exact ih (by omega) (by omega) (by omega)
      · rename_i hbelow
        rw [getElem?_below_iff h] at hbelow
        exact ih (by omega) (by omega) (by omega)

/-- In a partitioned list the search finds the end of the part below. -/
theorem lowerBound_eq {xs : List α} {below : α → Bool} (h : Partitioned xs below) :
    lowerBound xs below = (xs.takeWhile below).length := by
  refine lowerBoundLoop_eq h (Nat.le_refl _) (Nat.zero_le _) ?_
  rw [Nat.zero_add]
  exact (List.takeWhile_prefix below).length_le

/-- What comes behind the part below is what is not below. -/
theorem dropWhile_eq_filter {xs : List α} {below : α → Bool} (h : Partitioned xs below) :
    xs.dropWhile below = xs.filter fun x => !below x := by
  induction xs with
  | nil => rfl
  | cons x xs ih =>
    obtain ⟨hfirst, hrest⟩ := List.pairwise_cons.mp h
    by_cases hx : below x = true
    · rw [List.dropWhile_cons_of_pos hx, ih hrest, List.filter_cons_of_neg (by simp [hx])]
    · rw [List.dropWhile_cons_of_neg hx, List.filter_eq_self.mpr]
      intro y hy
      rcases List.mem_cons.mp hy with rfl | hy
      · simpa using hx
      · have hnot : ¬ below y = true := fun hbelow => hx (hfirst y hy hbelow)
        simpa using hnot

theorem drop_lowerBound {xs : List α} {below : α → Bool} (h : Partitioned xs below) :
    xs.drop (lowerBound xs below) = xs.filter fun x => !below x := by
  have hdrop : (xs.takeWhile below ++ xs.dropWhile below).drop (xs.takeWhile below).length = xs.dropWhile below :=
    List.drop_left
  rw [List.takeWhile_append_dropWhile] at hdrop
  rw [lowerBound_eq h, hdrop, dropWhile_eq_filter h]

end NovaKV.Lib
