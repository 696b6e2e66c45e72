import NovaKV.Memory.Insertion

open Std
open NovaKV.Lib

namespace NovaKV

section

variable {K V : Type}

def Tower.entry (tower : Tower K V) : K × V := (tower.key, tower.value)

/-- A skip list that holds the entries of a map. -/
def SkipList.Represents [Ord K] [TransOrd K] (self : SkipList K V) (map : ExtTreeMap K V) : Prop :=
  ∃ towers, self.Holds towers ∧ towers.map Tower.entry = map.toList

theorem foldl_set_zero {f : Nat → Nat} {n : Nat} {ids update : List Nat}
    (hupdate : ∀ j < n, update[j]? = some (f j)) (hids : ∀ i ∈ ids, f i = 0) :
    ∀ j < n, (ids.foldl (fun update i => update.set i 0) update)[j]? = some (f j) := by
  induction ids generalizing update with
  | nil => exact hupdate
  | cons i ids ih =>
    refine ih ?_ fun other hother => hids other (List.mem_cons_of_mem _ hother)
    intro j hj
    rw [List.getElem?_set]
    by_cases heq : i = j
    · subst heq
      have hlength : i < update.length := (List.getElem?_eq_some_iff.mp (hupdate i hj)).1
      simp [hlength, hids i List.mem_cons_self]
    · simp [heq, hupdate j hj]

variable [Ord K] [TransOrd K] {self : SkipList K V} {map : ExtTreeMap K V}

theorem SkipList.new_represents [Inhabited K] [Inhabited V] {max_level : Nat} (h : 0 < max_level) :
    (SkipList.new max_level : SkipList K V).Represents ∅ := by
  refine ⟨[], ⟨h, Nat.zero_le _, ⟨default, default, ?_⟩, trivial, nofun, .nil, nofun, .nil, rfl, ?_⟩, ?_⟩
  · have hlinks : List.replicate max_level none = links max_level ([] : List (Tower K V)) := by
      apply List.ext_getElem?
      intro i
      by_cases hi : i < max_level
      · simp [links, reaching, hi]
      · simp [links, hi]
    simp [SkipList.new, Heap.node?, hlinks]
  · simp [SkipList.new]
  · simp

/-- The count is that of the entries, as far as an `int` holds it. -/
theorem SkipList.Represents.size_eq (h : self.Represents map) : self.size = Int32.ofNat map.size := by
  obtain ⟨towers, hholds, hentries⟩ := h
  rw [SkipList.size, hholds.count, ← ExtTreeMap.length_toList, ← hentries, List.length_map]

theorem SkipList.Represents.iterate_eq (h : self.Represents map) : self.iterate = some map.toList := by
  obtain ⟨towers, hholds, hentries⟩ := h
  rw [hholds.iterate_eq, ← hentries]
  rfl

/-- Without a match, all towers behind the walk have greater keys. -/
theorem SkipList.Holds.post_gt {towers pre post : List (Tower K V)} {key : K} (h : self.Holds towers)
    (hsplit : Splits towers pre post key) (hmiss : ∀ tower, post.head? = some tower → compare tower.key key ≠ .eq) :
    ∀ tower ∈ post, compare key tower.key = .lt := by
  have hsorted := h.sorted
  rw [hsplit.eq] at hsorted
  cases post with
  | nil => nofun
  | cons first rest =>
    have hfirst : compare key first.key = .lt := by
      have hge := hsplit.post_ge first List.mem_cons_self
      have hne := hmiss first rfl
      rw [OrientedOrd.eq_swap]
      cases hcompare : compare first.key key with
      | lt => exact absurd hcompare hge
      | eq => exact absurd hcompare hne
      | gt => rfl
    intro tower htower
    rcases List.mem_cons.mp htower with rfl | hrest
    · exact hfirst
    · exact TransCmp.lt_trans hfirst (List.rel_of_pairwise_cons (List.pairwise_append.mp hsorted).2.1 hrest)

variable [LawfulEqOrd K]

theorem SkipList.Represents.search_element_eq (h : self.Represents map) (key : K) :
    self.search_element key = some map[key]? := by
  obtain ⟨towers, hholds, hentries⟩ := h
  obtain ⟨pre, post, hsplit⟩ := hholds.splits key
  rw [hholds.search_element_eq hsplit]
  congr 1
  have hmap : ∀ value, map[key]? = some value ↔ (key, value) ∈ towers.map Tower.entry := by
    intro value
    rw [hentries, ExtTreeMap.mem_toList_iff_getElem?_eq_some]
  by_cases hfound : ∃ tower, post.head? = some tower ∧ compare tower.key key = .eq
  · obtain ⟨tower, hhead, heq⟩ := hfound
    have hkey : tower.key = key := LawfulEqCmp.eq_of_compare heq
    have hmem : tower ∈ towers := by
      rw [hsplit.eq]
      exact List.mem_append_right _ (List.mem_of_head? hhead)
    have hvalue : map[key]? = some tower.value :=
      (hmap _).mpr (List.mem_map.mpr ⟨tower, hmem, by rw [← hkey]; rfl⟩)
    simp [hhead, heq, hvalue]
  · have hmiss : ∀ tower, post.head? = some tower → compare tower.key key ≠ .eq :=
      fun tower hhead heq => hfound ⟨tower, hhead, heq⟩
    have hnone : map[key]? = none := by
      rw [Option.eq_none_iff_forall_ne_some]
      intro value hvalue
      obtain ⟨tower, hmem, hentry⟩ := List.mem_map.mp ((hmap value).mp hvalue)
      have hkey : tower.key = key := congrArg Prod.fst hentry
      rw [hsplit.eq] at hmem
      rcases List.mem_append.mp hmem with hpre | hpost
      · simpa [hkey] using hsplit.pre_lt tower hpre
      · simpa [hkey] using hholds.post_gt hsplit hmiss tower hpost
    rw [hnone, Option.bind_eq_none_iff]
    intro tower hhead
    simp [hmiss tower hhead]

theorem SkipList.Represents.insert_element (h : self.Represents map) (key : K) (value : V) (draws : List Bool) :
    ∃ list, self.insert_element key value draws = some list ∧ list.Represents (map.insert key value) := by
  obtain ⟨towers, hholds, hentries⟩ := h
  obtain ⟨pre, post, hsplit⟩ := hholds.splits key
  obtain ⟨curr, update, hloop, hbottom, hlength, hupdate⟩ := hholds.predecessors_eq hsplit
  have hmatching := hholds.matching_eq hsplit hbottom
  have hgt := hholds.post_gt hsplit
  obtain ⟨rfl, hpre, -⟩ := hsplit
  rw [List.map_append] at hentries
  by_cases hfound : ∃ tower, post.head? = some tower ∧ compare tower.key key = .eq
  · obtain ⟨tower, hhead, heq⟩ := hfound
    obtain ⟨rest, rfl⟩ : ∃ rest, post = tower :: rest := ⟨post.tail, (List.cons_head?_tail hhead).symm⟩
    have hkey : tower.key = key := LawfulEqCmp.eq_of_compare heq
    refine ⟨_, ?_, _, hholds.overwrite value, ?_⟩
    · simp only [SkipList.insert_element, hloop, hmatching, List.head?_cons, heq, Option.bind_eq_bind,
        Option.bind_some, if_true]
      rfl
    · rw [List.map_cons, Tower.entry, hkey] at hentries
      rw [toList_insert_of_mem hentries.symm, List.map_append, List.map_cons, Tower.entry, hkey]
  · have hmiss : ∀ tower, post.head? = some tower → compare tower.key key ≠ .eq :=
      fun tower hhead heq => hfound ⟨tower, hhead, heq⟩
    have hpost := hgt hmiss
    have hnone : (post.head?.bind fun tower =>
        if compare tower.key key = .eq then some tower.address else none) = none := by
      rw [Option.bind_eq_none_iff]
      intro tower hhead
      simp [hmiss tower hhead]
    obtain ⟨hpos, hle⟩ := grow_level_bounds draws hholds.max_level
    have hunreached : ∀ i ∈ List.range' self.current_level
        (get_random_level self.max_level draws - self.current_level), lastReaching pre i = 0 := by
      intro i hi
      refine @lastReaching_append_of_le K V [] pre i fun tower htower => ?_
      exact ((hholds.heights tower (List.mem_append_left _ htower)).2).trans (List.mem_range'_1.mp hi).1
    have hlink : ∀ j < get_random_level self.max_level draws, ((List.range' self.current_level
        (get_random_level self.max_level draws - self.current_level)).foldl
          (fun update i => update.set i 0) update).getD j 0 = lastReaching pre j := by
      intro j hj
      rw [List.getD_eq_getElem?_getD, foldl_set_zero hupdate hunreached j (hj.trans_le hle), Option.getD_some]
    refine ⟨_, ?_, _, @SkipList.Holds.insert K V _ self pre post key value _ _ hholds hpre hpost hpos hle hlink, ?_⟩
    · simp only [SkipList.insert_element, hloop, hmatching, hnone, Option.bind_eq_bind, Option.bind_some]
      rfl
    · rw [List.map_append, List.map_cons, toList_insert_of_split hentries.symm ?_ ?_]
      · rfl
      · intro entry hentry
        obtain ⟨tower, htower, rfl⟩ := List.mem_map.mp hentry
        exact hpre tower htower
      · intro entry hentry
        obtain ⟨tower, htower, rfl⟩ := List.mem_map.mp hentry
        exact hpost tower htower

end

end NovaKV
