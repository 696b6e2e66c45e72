import NovaKV.Memory.Deletion

open Std
open NovaKV.Lib

namespace NovaKV

/-- A call on an ordered map. -/
inductive MapCall (K V : Type) where
  | insert_element (key : K) (value : V)
  | search_element (key : K)
  | delete_element (key : K)

/-- What a call returns: a search the value it has found, a deletion whether the key
was there. -/
inductive MapReply (V : Type) where
  | inserted
  | found (value : Option V)
  | deleted (present : Bool)
deriving DecidableEq

/-- What a caller can see after a call: what it has returned, `size()`, and the entries
from `begin()` on. -/
structure MapView (K V : Type) where
  reply : MapReply V
  size : Int
  entries : List (K × V)
deriving DecidableEq

/-- The same view with the size that an `int` of 32 bits holds. -/
def MapView.counted {K V : Type} (self : MapView K V) : MapView K V :=
  { self with size := (Int32.ofInt self.size).toInt }

section

variable {K V : Type} [Ord K]

/-- A call on a skip list, with the random numbers an insertion draws. -/
def SkipList.call (self : SkipList K V) (draws : List Bool) :
    MapCall K V → Option (SkipList K V × MapReply V)
  | .insert_element key value => do
    let list ← self.insert_element key value draws
    return (list, .inserted)
  | .search_element key => do
    let value ← self.search_element key
    return (self, .found value)
  | .delete_element key => do
    let (list, present) ← self.delete_element key
    return (list, .deleted present)

/-- A sequence of calls, and what is seen after each. -/
def SkipList.calls (self : SkipList K V) : List (MapCall K V × List Bool) → Option (List (MapView K V))
  | [] => some []
  | (call, draws) :: rest => do
    let (list, reply) ← self.call draws call
    let entries ← list.iterate
    let views ← list.calls rest
    return ⟨reply, list.size.toInt, entries⟩ :: views

variable [TransOrd K]

/-- The same call on a finite ordered map. -/
def mapCall (map : ExtTreeMap K V) : MapCall K V → ExtTreeMap K V × MapReply V
  | .insert_element key value => (map.insert key value, .inserted)
  | .search_element key => (map, .found map[key]?)
  | .delete_element key => (map.erase key, .deleted (map.contains key))

def mapCalls (map : ExtTreeMap K V) : List (MapCall K V) → List (MapView K V)
  | [] => []
  | call :: rest =>
    let (after, reply) := mapCall map call
    ⟨reply, after.size, after.toList⟩ :: mapCalls after rest

theorem mapCalls_sorted (map : ExtTreeMap K V) (calls : List (MapCall K V)) :
    ∀ view ∈ mapCalls map calls, view.entries.Pairwise fun a b => compare a.1 b.1 = .lt := by
  induction calls generalizing map with
  | nil => nofun
  | cons call rest ih =>
    intro view hview
    rcases List.mem_cons.mp hview with rfl | hrest
    · exact ExtTreeMap.ordered_keys_toList
    · exact ih _ view hrest

variable [LawfulEqOrd K] {self : SkipList K V} {map : ExtTreeMap K V}

/-- One call, with any random numbers, does what it does to the map. -/
theorem SkipList.Represents.call (h : self.Represents map) (draws : List Bool) (call : MapCall K V) :
    ∃ list, self.call draws call = some (list, (mapCall map call).2) ∧ list.Represents (mapCall map call).1 := by
  cases call with
  | insert_element key value =>
    obtain ⟨list, hinsert, hlist⟩ := h.insert_element key value draws
    exact ⟨list, by simp [SkipList.call, hinsert, mapCall], hlist⟩
  | search_element key =>
    exact ⟨self, by simp [SkipList.call, h.search_element_eq key, mapCall], h⟩
  | delete_element key =>
    obtain ⟨list, hdelete, hlist⟩ := h.delete_element key
    exact ⟨list, by simp [SkipList.call, hdelete, mapCall], hlist⟩

theorem SkipList.Represents.calls (h : self.Represents map) (calls : List (MapCall K V × List Bool)) :
    self.calls calls = some ((mapCalls map (calls.map Prod.fst)).map MapView.counted) := by
  induction calls generalizing self map with
  | nil => rfl
  | cons first rest ih =>
    obtain ⟨call, draws⟩ := first
    obtain ⟨list, hcall, hlist⟩ := h.call draws call
    have hsize : list.size.toInt = (Int32.ofInt (mapCall map call).1.size).toInt := by
      rw [hlist.size_eq, Int32.ofInt_eq_ofNat]
    simp [SkipList.calls, hcall, hlist.iterate_eq, hsize, ih hlist, mapCalls, MapView.counted]

omit [LawfulEqOrd K] in
theorem mapCalls_size (map : ExtTreeMap K V) (calls : List (MapCall K V)) :
    ∀ view ∈ mapCalls map calls, view.size = view.entries.length := by
  induction calls generalizing map with
  | nil => nofun
  | cons call rest ih =>
    intro view hview
    rcases List.mem_cons.mp hview with rfl | hrest
    · exact congrArg Nat.cast ExtTreeMap.length_toList.symm
    · exact ih _ view hrest

omit [Ord K] [TransOrd K] [LawfulEqOrd K] in
/-- An `int` holds a number of entries if it is less than `2 ^ 31`. -/
theorem MapView.counted_eq_iff {view : MapView K V} (hsize : view.size = view.entries.length) :
    view.counted = view ↔ view.entries.length < 2 ^ 31 := by
  obtain ⟨reply, size, entries⟩ := view
  simp only at hsize
  subst hsize
  simp only [MapView.counted, MapView.mk.injEq, true_and, and_true, Int32.ofInt_eq_ofNat, Int32.toInt_ofNat']
  rw [show Int32.size = 2 ^ 32 from rfl, Int.bmod_def]
  omega

/-- A skip list is a finite ordered map, but for a size that wraps: whatever calls are
made and whatever levels are drawn, every call returns, and what is seen after it is what
the map shows, with its size cut to an `int`. It is the whole of what the map shows if
and only if there are never `2 ^ 31` keys or more. -/
theorem SkipList.refines_ordered_map_iff [Inhabited K] [Inhabited V] {max_level : Nat} (hlevel : 0 < max_level)
    (calls : List (MapCall K V × List Bool)) :
    (SkipList.new max_level : SkipList K V).calls calls =
        some ((mapCalls ∅ (calls.map Prod.fst)).map MapView.counted) ∧
      (∀ view ∈ mapCalls (∅ : ExtTreeMap K V) (calls.map Prod.fst),
        view.entries.Pairwise fun a b => compare a.1 b.1 = .lt) ∧
      ((SkipList.new max_level : SkipList K V).calls calls = some (mapCalls ∅ (calls.map Prod.fst)) ↔
        ∀ view ∈ mapCalls (∅ : ExtTreeMap K V) (calls.map Prod.fst), view.entries.length < 2 ^ 31) := by
  have hcalls := (SkipList.new_represents (K := K) (V := V) hlevel).calls calls
  refine ⟨hcalls, mapCalls_sorted ∅ _, ?_⟩
  rw [hcalls, Option.some_inj]
  nth_rewrite 2 [← List.map_id (mapCalls ∅ (calls.map Prod.fst))]
  rw [List.map_inj_left]
  exact forall₂_congr fun view hview => MapView.counted_eq_iff (mapCalls_size ∅ _ view hview)

theorem SkipList.refines_ordered_map_nat :
    0 < 2 ∧ (SkipList.new 2 : SkipList Nat Nat).calls
        [(.insert_element 5 1, [true]), (.insert_element 3 2, []), (.delete_element 5, []),
          (.search_element 3, [])] =
      some [⟨.inserted, 1, [(5, 1)]⟩, ⟨.inserted, 2, [(3, 2), (5, 1)]⟩, ⟨.deleted true, 1, [(3, 2)]⟩,
        ⟨.found (some 2), 1, [(3, 2)]⟩] := by
  refine ⟨by decide, ?_⟩
  rw [(SkipList.refines_ordered_map_iff (by decide) _).2.2.mpr (by decide +kernel)]
  rfl

end

/-- The first `n` numbers are inserted, one after the other. -/
def insertions (n : Nat) : List (MapCall Nat Nat × List Bool) :=
  (List.range n).map fun key => (.insert_element key 0, [])

/-- The last view shows the map after all calls. -/
theorem exists_last_view {K V : Type} [Ord K] [TransOrd K] (map : ExtTreeMap K V) {calls : List (MapCall K V)}
    (h : calls ≠ []) : ∃ view ∈ mapCalls map calls,
      view.entries = (calls.foldl (fun map call => (mapCall map call).1) map).toList := by
  induction calls generalizing map with
  | nil => exact absurd rfl h
  | cons call rest ih =>
    by_cases hrest : rest = []
    · subst hrest
      exact ⟨_, List.mem_cons_self, rfl⟩
    · obtain ⟨view, hview, hentries⟩ := ih (mapCall map call).1 hrest
      exact ⟨view, List.mem_cons_of_mem _ hview, hentries⟩

/-- The map after the first `n` numbers have been inserted. -/
theorem foldl_insertions (n : Nat) :
    (((insertions n).map Prod.fst).foldl (fun map call => (mapCall map call).1) (∅ : ExtTreeMap Nat Nat)).size = n ∧
      ∀ key ∈ ((insertions n).map Prod.fst).foldl (fun map call => (mapCall map call).1) (∅ : ExtTreeMap Nat Nat),
        key < n := by
  induction n with
  | zero => exact ⟨rfl, fun key hkey => absurd hkey ExtTreeMap.not_mem_empty⟩
  | succ n ih =>
    obtain ⟨hsize, hbelow⟩ := ih
    have hsplit : (insertions (n + 1)).map Prod.fst = (insertions n).map Prod.fst ++ [.insert_element n 0] := by
      simp [insertions, List.range_succ]
    rw [hsplit, List.foldl_append]
    generalize ((insertions n).map Prod.fst).foldl _ _ = map at hsize hbelow ⊢
    change (map.insert n 0).size = n + 1 ∧ ∀ key ∈ map.insert n 0, key < n + 1
    refine ⟨?_, ?_⟩
    · have hnew : n ∉ map := fun hn => Nat.lt_irrefl _ (hbelow n hn)
      rw [ExtTreeMap.size_insert, if_neg (by simpa using hnew), hsize]
    · intro key hkey
      rw [ExtTreeMap.mem_insert] at hkey
      rcases hkey with heq | hold
      · rw [← LawfulEqCmp.eq_of_compare heq]
        exact Nat.lt_succ_self _
      · exact (hbelow key hold).trans (Nat.lt_succ_self _)

theorem exists_view_of_insertions {n : Nat} (hn : 0 < n) :
    ∃ view ∈ mapCalls (∅ : ExtTreeMap Nat Nat) ((insertions n).map Prod.fst), view.entries.length = n := by
  have hcalls : (insertions n).map Prod.fst ≠ [] := by
    rw [insertions, ne_eq, List.map_eq_nil_iff, List.map_eq_nil_iff, List.range_eq_nil]
    exact hn.ne'
  obtain ⟨view, hview, hentries⟩ := exists_last_view ∅ hcalls
  refine ⟨view, hview, ?_⟩
  rw [hentries, ExtTreeMap.length_toList, (foldl_insertions n).1]

/-- With `2 ^ 31` keys `size()` is negative. -/
theorem SkipList.size_wraps :
    ¬ ∀ calls : List (MapCall Nat Nat × List Bool),
      (SkipList.new 16 : SkipList Nat Nat).calls calls = some (mapCalls ∅ (calls.map Prod.fst)) := by
  intro hall
  have hbelow := (SkipList.refines_ordered_map_iff (by decide) (insertions (2 ^ 31))).2.2.mp (hall _)
  obtain ⟨view, hview, hlength⟩ := exists_view_of_insertions (Nat.two_pow_pos 31)
  exact absurd (hbelow view hview) (by rw [hlength]; exact Nat.lt_irrefl _)

end NovaKV
