import NovaKV.Store.Recovery

open Std
open NovaKV.Lib

namespace NovaKV

/-- The manifest lists exactly the tables of two levels. Both are in order of file
numbers, none of which is still to be allocated. -/
structure ManifestState.Lists (state : ManifestState Nat) (l0 l1 : List SSTableReader) : Prop where
  sorted0 : l0.Pairwise fun a b => a.file_number < b.file_number
  sorted1 : l1.Pairwise fun a b => a.file_number < b.file_number
  level0 : ∀ id : Nat, state.sst_levels[id]? = some 0 ↔ id ∈ l0.map SSTableReader.file_number
  level1 : ∀ id : Nat, state.sst_levels[id]? = some 1 ↔ id ∈ l1.map SSTableReader.file_number
  levels : ∀ (id : Nat) (level : UInt32), state.sst_levels[id]? = some level → level = 0 ∨ level = 1
  bounded : ∀ id ∈ state.sst_levels, id ≤ state.next_file_number

section

variable {state : ManifestState Nat} {l0 l1 : List SSTableReader}

theorem ManifestState.Lists.initial (next : Nat) :
    ManifestState.Lists { ManifestState.initial with next_file_number := next } [] [] where
  sorted0 := .nil
  sorted1 := .nil
  level0 := by simp [ManifestState.initial]
  level1 := by simp [ManifestState.initial]
  levels := by simp [ManifestState.initial]
  bounded := by simp [ManifestState.initial]

/-- Only the levels and the last allocated number matter. -/
theorem ManifestState.Lists.congr {other : ManifestState Nat} (hlists : state.Lists l0 l1)
    (hlevels : other.sst_levels = state.sst_levels)
    (hnext : state.next_file_number ≤ other.next_file_number) : other.Lists l0 l1 where
  sorted0 := hlists.sorted0
  sorted1 := hlists.sorted1
  level0 := by rw [hlevels]; exact hlists.level0
  level1 := by rw [hlevels]; exact hlists.level1
  levels := by rw [hlevels]; exact hlists.levels
  bounded := by
    rw [hlevels]
    intro id hid
    exact (hlists.bounded id hid).trans hnext

theorem ManifestState.Lists.mem_iff (hlists : state.Lists l0 l1) (id : Nat) :
    id ∈ state.sst_levels ↔
      id ∈ l0.map SSTableReader.file_number ∨ id ∈ l1.map SSTableReader.file_number := by
  rw [← hlists.level0, ← hlists.level1]
  constructor
  · intro hmem
    obtain ⟨level, hlevel⟩ : ∃ level, state.sst_levels[id]? = some level :=
      ⟨_, ExtTreeMap.getElem?_eq_some_getElem hmem⟩
    rcases hlists.levels id level hlevel with rfl | rfl
    · exact .inl hlevel
    · exact .inr hlevel
  · rintro (h | h) <;> exact ExtTreeMap.mem_iff_isSome_getElem?.mpr (by simp [h])

theorem ManifestState.Lists.le_next0 (hlists : state.Lists l0 l1) {reader : SSTableReader}
    (hreader : reader ∈ l0) : reader.file_number ≤ state.next_file_number :=
  hlists.bounded _ ((hlists.mem_iff _).mpr (.inl (List.mem_map_of_mem hreader)))

theorem ManifestState.Lists.le_next1 (hlists : state.Lists l0 l1) {reader : SSTableReader}
    (hreader : reader ∈ l1) : reader.file_number ≤ state.next_file_number :=
  hlists.bounded _ ((hlists.mem_iff _).mpr (.inr (List.mem_map_of_mem hreader)))

theorem ManifestState.Lists.isEmpty_iff (hlists : state.Lists l0 l1) :
    state.sst_levels.isEmpty ↔ l0 = [] ∧ l1 = [] := by
  rw [ExtTreeMap.isEmpty_iff, ExtTreeMap.eq_empty_iff_forall_not_mem]
  constructor
  · intro hnone
    refine ⟨List.eq_nil_iff_forall_not_mem.mpr fun r hr => ?_,
      List.eq_nil_iff_forall_not_mem.mpr fun r hr => ?_⟩
    · exact hnone _ ((hlists.mem_iff _).mpr (.inl (List.mem_map_of_mem hr)))
    · exact hnone _ ((hlists.mem_iff _).mpr (.inr (List.mem_map_of_mem hr)))
  · rintro ⟨rfl, rfl⟩ id hid
    simpa using (hlists.mem_iff id).mp hid

/-- A flushed table joins level 0. -/
theorem ManifestState.Lists.add_l0 {reader : SSTableReader} (hlists : state.Lists l0 l1)
    (hnewest : ∀ r ∈ l0, r.file_number < reader.file_number)
    (hfresh : ∀ r ∈ l1, r.file_number ≠ reader.file_number)
    (hnext : reader.file_number ≤ state.next_file_number) :
    (state.apply_edit (.AddSST reader.file_number 0)).Lists (l0 ++ [reader]) l1 where
  sorted0 := by
    rw [List.pairwise_append]
    exact ⟨hlists.sorted0, List.pairwise_singleton _ _, by simpa using hnewest⟩
  sorted1 := hlists.sorted1
  level0 id := by
    simp only [apply_edit, ExtTreeMap.getElem?_insert, List.map_append, List.mem_append, ← hlists.level0]
    by_cases hid : reader.file_number = id
    · simp [hid]
    · simp [hid, Ne.symm hid]
  level1 id := by
    simp only [apply_edit, ExtTreeMap.getElem?_insert, ← hlists.level1]
    by_cases hid : reader.file_number = id
    · subst hid
      have hnone : state.sst_levels[reader.file_number]? ≠ some 1 := by
        rw [Ne, hlists.level1]
        simpa using hfresh
      simp [hnone]
    · simp [hid]
  levels id level := by
    simp only [apply_edit, ExtTreeMap.getElem?_insert]
    split
    · rintro h
      cases h
      exact .inl rfl
    · exact hlists.levels id level
  bounded id hid := by
    simp only [apply_edit, ExtTreeMap.mem_insert] at hid
    rcases hid with hid | hid
    · simp only [LawfulEqCmp.compare_eq_iff_eq] at hid
      exact hid ▸ hnext
    · exact hlists.bounded id hid

/-- A compacted table joins level 1. -/
theorem ManifestState.Lists.add_l1 {reader : SSTableReader} (hlists : state.Lists l0 l1)
    (hnewest : ∀ r ∈ l1, r.file_number < reader.file_number)
    (hfresh : ∀ r ∈ l0, r.file_number ≠ reader.file_number)
    (hnext : reader.file_number ≤ state.next_file_number) :
    (state.apply_edit (.AddSST reader.file_number 1)).Lists l0 (l1 ++ [reader]) where
  sorted0 := hlists.sorted0
  sorted1 := by
    rw [List.pairwise_append]
    exact ⟨hlists.sorted1, List.pairwise_singleton _ _, by simpa using hnewest⟩
  level0 id := by
    simp only [apply_edit, ExtTreeMap.getElem?_insert, ← hlists.level0]
    by_cases hid : reader.file_number = id
    · subst hid
      have hnone : state.sst_levels[reader.file_number]? ≠ some 0 := by
        rw [Ne, hlists.level0]
        simpa using hfresh
      simp [hnone]
    · simp [hid]
  level1 id := by
    simp only [apply_edit, ExtTreeMap.getElem?_insert, List.map_append, List.mem_append, ← hlists.level1]
    by_cases hid : reader.file_number = id
    · simp [hid]
    · simp [hid, Ne.symm hid]
  levels id level := by
    simp only [apply_edit, ExtTreeMap.getElem?_insert]
    split
    · rintro h
      cases h
      exact .inr rfl
    · exact hlists.levels id level
  bounded id hid := by
    simp only [apply_edit, ExtTreeMap.mem_insert] at hid
    rcases hid with hid | hid
    · simp only [LawfulEqCmp.compare_eq_iff_eq] at hid
      exact hid ▸ hnext
    · exact hlists.bounded id hid

theorem getElem?_apply_edits_del (state : ManifestState Nat) (ids : List Nat) (id : Nat) :
    (state.apply_edits (ids.map .DelSST)).sst_levels[id]? =
      if id ∈ ids then none else state.sst_levels[id]? := by
  induction ids generalizing state with
  | nil => rfl
  | cons other ids ih =>
    rw [List.map_cons, ManifestState.apply_edits_cons, ih]
    by_cases hid : id ∈ ids
    · simp [hid]
    · by_cases hother : other = id
      · simp [ManifestState.apply_edit, hother]
      · simp [ManifestState.apply_edit, ExtTreeMap.getElem?_erase, hother, Ne.symm hother, hid]

theorem next_file_number_apply_edits_del (state : ManifestState Nat) (ids : List Nat) :
    (state.apply_edits (ids.map .DelSST)).next_file_number = state.next_file_number := by
  induction ids generalizing state with
  | nil => rfl
  | cons other ids ih => rw [List.map_cons, ManifestState.apply_edits_cons, ih]; rfl

/-- Deleting some tables of level 0 leaves the others listed. -/
theorem ManifestState.Lists.delete (hlists : state.Lists l0 l1) {ids : List Nat}
    (hids : ∀ r ∈ l1, r.file_number ∉ ids) :
    (state.apply_edits (ids.map .DelSST)).Lists (l0.filter fun r => r.file_number ∉ ids) l1 where
  sorted0 := hlists.sorted0.filter _
  sorted1 := hlists.sorted1
  level0 id := by
    rw [getElem?_apply_edits_del]
    have hlevel := hlists.level0 id
    simp only [List.mem_map] at hlevel ⊢
    by_cases hid : id ∈ ids
    · simp only [hid, if_true, List.mem_filter]
      refine ⟨nofun, ?_⟩
      rintro ⟨r, ⟨-, hr⟩, rfl⟩
      simp [hid] at hr
    · simp only [hid, if_false, hlevel, List.mem_filter]
      constructor
      · rintro ⟨r, hr, rfl⟩
        exact ⟨r, ⟨hr, by simpa using hid⟩, rfl⟩
      · rintro ⟨r, ⟨hr, -⟩, rfl⟩
        exact ⟨r, hr, rfl⟩
  level1 id := by
    rw [getElem?_apply_edits_del]
    by_cases hid : id ∈ ids
    · simp only [hid, if_true]
      refine ⟨nofun, ?_⟩
      intro hmem
      obtain ⟨r, hr, rfl⟩ := List.mem_map.mp hmem
      exact absurd hid (hids r hr)
    · simp only [hid, if_false]
      exact hlists.level1 id
  levels id level := by
    rw [getElem?_apply_edits_del]
    split
    · nofun
    · exact hlists.levels id level
  bounded id hid := by
    rw [next_file_number_apply_edits_del]
    apply hlists.bounded
    rw [ExtTreeMap.mem_iff_isSome_getElem?] at hid ⊢
    rw [getElem?_apply_edits_del] at hid
    split at hid
    · simp at hid
    · exact hid

theorem ManifestState.Lists.disjoint (hlists : state.Lists l0 l1) {r s : SSTableReader}
    (hr : r ∈ l0) (hs : s ∈ l1) : r.file_number ≠ s.file_number := by
  intro heq
  have h0 := (hlists.level0 r.file_number).mpr (List.mem_map_of_mem hr)
  have h1 := (hlists.level1 s.file_number).mpr (List.mem_map_of_mem hs)
  rw [heq, h1] at h0
  cases h0

theorem ids_nodup {level : List SSTableReader}
    (hsorted : level.Pairwise fun a b => a.file_number < b.file_number) :
    (level.map SSTableReader.file_number).Nodup := by
  rw [List.Nodup, List.pairwise_map]
  exact hsorted.imp fun h => Nat.ne_of_lt h

/-- Whatever its order, the listing of level 0 names the tables of level 0 once each. -/
theorem ManifestState.Lists.l0_ids_perm (hlists : state.Lists l0 l1)
    (order : IterationOrder (Nat × UInt32)) :
    (l0_ids order state).Perm (l0.map SSTableReader.file_number) := by
  have hmem : ∀ id, id ∈ l0_ids order state ↔ id ∈ l0.map SSTableReader.file_number := by
    intro id
    simp only [l0_ids, List.mem_filterMap, order.mem_list, ← hlists.level0]
    constructor
    · rintro ⟨⟨id', level⟩, hentry, hid⟩
      by_cases hlevel : level = 0
      · simp only [hlevel, if_true, Option.some.injEq] at hid
        rw [hlevel, hid] at hentry
        exact ExtTreeMap.mem_toList_iff_getElem?_eq_some.mp hentry
      · simp [hlevel] at hid
    · intro h
      exact ⟨(id, 0), ExtTreeMap.mem_toList_iff_getElem?_eq_some.mpr h, by simp⟩
  have hnodup : (l0_ids order state).Nodup := by
    have hentries : ((order.list state.sst_levels.toList).map Prod.fst).Nodup := by
      rw [((order.perm _).map Prod.fst).nodup_iff, List.Nodup, List.pairwise_map]
      exact ExtTreeMap.distinct_keys_toList.imp fun h => by simpa using h
    rw [List.Nodup, List.pairwise_map] at hentries
    rw [l0_ids, List.Nodup, List.pairwise_filterMap]
    refine hentries.imp ?_
    rintro ⟨a, la⟩ ⟨b, lb⟩ hne x hx y hy
    simp only [Option.ite_none_right_eq_some, Option.some.injEq] at hx hy
    rw [← hx.2, ← hy.2]
    exact hne
  exact (List.perm_ext_iff_of_nodup hnodup (ids_nodup hlists.sorted0)).mpr hmem

/-- A level whose files exist is opened as it was. -/
theorem level_readers_eq {ssts : ExtTreeMap Nat SSTable} {level : UInt32} {readers : List SSTableReader}
    (hsorted : readers.Pairwise fun a b => a.file_number < b.file_number)
    (hlevel : ∀ id : Nat, state.sst_levels[id]? = some level ↔ id ∈ readers.map SSTableReader.file_number)
    (hfiles : ∀ r ∈ readers, ssts[r.file_number]? = some r.table) :
    level_readers ssts state level = readers := by
  have hopen : ∀ r ∈ readers, ssts[r.file_number]?.bind (SSTableReader.open r.file_number) = some r := by
    intro r hr
    rw [hfiles r hr]
    exact r.open_self
  have hmem : ∀ r, r ∈ level_readers ssts state level ↔ r ∈ readers := by
    intro r
    simp only [level_readers, List.mem_filterMap]
    constructor
    · rintro ⟨⟨id, l⟩, hentry, hr⟩
      split at hr
      · rename_i hl
        subst hl
        have hid := (hlevel id).mp (ExtTreeMap.mem_toList_iff_getElem?_eq_some.mp hentry)
        obtain ⟨s, hs, rfl⟩ := List.mem_map.mp hid
        rw [hopen s hs] at hr
        cases hr
        exact hs
      · cases hr
    · intro hr
      have hentry := (hlevel r.file_number).mpr (List.mem_map_of_mem hr)
      exact ⟨(r.file_number, level), ExtTreeMap.mem_toList_iff_getElem?_eq_some.mpr hentry,
        by simpa using hopen r hr⟩
  have hloaded : (level_readers ssts state level).Pairwise fun a b => a.file_number < b.file_number := by
    rw [level_readers, List.pairwise_filterMap]
    refine ExtTreeMap.ordered_keys_toList.imp ?_
    rintro ⟨a, la⟩ ⟨b, lb⟩ hlt x hx y hy
    have hopened : ∀ {id : Nat} {l : UInt32} {r : SSTableReader},
        (if l = level then ssts[id]?.bind (SSTableReader.open id) else none) = some r →
        r.file_number = id := by
      intro id l r hr
      split at hr
      · obtain ⟨table, -, hr⟩ := Option.bind_eq_some_iff.mp hr
        exact (SSTableReader.open_eq_some hr).1
      · cases hr
    rw [hopened hx, hopened hy]
    exact Nat.compare_eq_lt.mp hlt
  have hperm : (level_readers ssts state level).Perm readers := by
    exact (List.perm_ext_iff_of_nodup (ids_nodup hloaded).of_map (ids_nodup hsorted).of_map).mpr hmem
  exact hperm.eq_of_pairwise (fun a b _ _ hab hba => absurd hab (Nat.lt_asymm hba)) hloaded hsorted

end

end NovaKV
