import Mathlib

open Std

namespace NovaKV.Lib

section

variable {K V : Type} [Ord K] [TransOrd K] [LawfulEqOrd K]

/-- The entries of an ordered map are determined by their order and their members. -/
theorem toList_eq_of_sorted {table : ExtTreeMap K V} {entries : List (K × V)}
    (hsorted : entries.Pairwise fun a b => compare a.1 b.1 = .lt)
    (hmem : ∀ key value, table[key]? = some value ↔ (key, value) ∈ entries) :
    table.toList = entries := by
  have hirrefl : ∀ {entries : List (K × V)},
      (entries.Pairwise fun a b => compare a.1 b.1 = .lt) → entries.Nodup := by
    intro entries h
    refine h.imp ?_
    intro a b hlt heq
    simp [heq] at hlt
  have hperm : table.toList.Perm entries := by
    refine (List.perm_ext_iff_of_nodup (hirrefl ExtTreeMap.ordered_keys_toList) (hirrefl hsorted)).mpr ?_
    rintro ⟨key, value⟩
    rw [ExtTreeMap.mem_toList_iff_getElem?_eq_some, hmem]
  refine hperm.eq_of_pairwise ?_ ExtTreeMap.ordered_keys_toList hsorted
  intro a b _ _ hab hba
  exact absurd hab (OrientedCmp.not_lt_of_lt hba)

variable {table : ExtTreeMap K V} {front back : List (K × V)} {key : K} {value : V}

omit [LawfulEqOrd K] in
private theorem front_lt (htable : table.toList = front ++ (key, value) :: back) {entry : K × V}
    (hentry : entry ∈ front) : compare entry.1 key = .lt := by
  have hsorted := table.ordered_keys_toList
  rw [htable, List.pairwise_append] at hsorted
  exact hsorted.2.2 entry hentry (key, value) (by simp)

omit [LawfulEqOrd K] in
private theorem back_gt (htable : table.toList = front ++ (key, value) :: back) {entry : K × V}
    (hentry : entry ∈ back) : compare key entry.1 = .lt := by
  have hsorted := table.ordered_keys_toList
  rw [htable, List.pairwise_append, List.pairwise_cons] at hsorted
  exact hsorted.2.1.1 entry hentry

theorem getElem?_of_toList (htable : table.toList = front ++ (key, value) :: back) :
    table[key]? = some value := by
  rw [← ExtTreeMap.mem_toList_iff_getElem?_eq_some, htable]
  simp

/-- A key above all others goes to the end. -/
theorem toList_insertIfNew_of_lt (hlast : ∀ other ∈ table, compare other key = .lt) :
    (table.insertIfNew key value).toList = table.toList ++ [(key, value)] := by
  have hkey : key ∉ table := by
    intro hmem
    simpa using hlast key hmem
  apply toList_eq_of_sorted
  · rw [List.pairwise_append]
    refine ⟨ExtTreeMap.ordered_keys_toList, List.pairwise_singleton _ _, ?_⟩
    intro entry hentry last hlast'
    rw [List.mem_singleton.mp hlast']
    apply hlast
    rw [ExtTreeMap.mem_iff_isSome_getElem?,
      ExtTreeMap.mem_toList_iff_getElem?_eq_some.mp hentry]
    rfl
  · intro other v
    rw [ExtTreeMap.getElem?_insertIfNew, List.mem_append, ExtTreeMap.mem_toList_iff_getElem?_eq_some]
    by_cases hother : key = other
    · subst hother
      simp [hkey, eq_comm]
    · simp [hother, Ne.symm hother]

/-- Overwriting an entry keeps its place. -/
theorem toList_insert_of_mem (htable : table.toList = front ++ (key, value) :: back) (other : V) :
    (table.insert key other).toList = front ++ (key, other) :: back := by
  have hsorted := table.ordered_keys_toList
  rw [htable] at hsorted
  apply toList_eq_of_sorted
  · rw [List.pairwise_append, List.pairwise_cons] at hsorted ⊢
    refine ⟨hsorted.1, hsorted.2.1, ?_⟩
    intro a ha b hb
    rcases List.mem_cons.mp hb with rfl | hb
    · exact front_lt htable ha
    · exact hsorted.2.2 a ha b (by simp [hb])
  · intro k v
    rw [ExtTreeMap.getElem?_insert]
    by_cases hk : key = k
    · subst hk
      have hfront : ∀ w, (key, w) ∉ front := fun w hw => by simpa using front_lt htable hw
      have hback : ∀ w, (key, w) ∉ back := fun w hw => by simpa using back_gt htable hw
      simp [hfront, hback, eq_comm]
    · rw [if_neg (by simpa using hk), ← ExtTreeMap.mem_toList_iff_getElem?_eq_some, htable]
      simp [Ne.symm hk]

/-- A new key goes between the smaller and the greater ones. -/
theorem toList_insert_of_split (htable : table.toList = front ++ back)
    (hfront : ∀ entry ∈ front, compare entry.1 key = .lt) (hback : ∀ entry ∈ back, compare key entry.1 = .lt) :
    (table.insert key value).toList = front ++ (key, value) :: back := by
  have hsorted := table.ordered_keys_toList
  rw [htable] at hsorted
  apply toList_eq_of_sorted
  · rw [List.pairwise_append] at hsorted ⊢
    refine ⟨hsorted.1, List.pairwise_cons.mpr ⟨hback, hsorted.2.1⟩, ?_⟩
    intro a ha b hb
    rcases List.mem_cons.mp hb with rfl | hb
    · exact hfront a ha
    · exact hsorted.2.2 a ha b hb
  · intro k v
    rw [ExtTreeMap.getElem?_insert]
    by_cases hk : key = k
    · subst hk
      have hfront' : ∀ w, (key, w) ∉ front := fun w hw => by simpa using hfront _ hw
      have hback' : ∀ w, (key, w) ∉ back := fun w hw => by simpa using hback _ hw
      simp [hfront', hback', eq_comm]
    · rw [if_neg (by simpa using hk), ← ExtTreeMap.mem_toList_iff_getElem?_eq_some, htable]
      simp [Ne.symm hk]

theorem toList_erase_of_mem (htable : table.toList = front ++ (key, value) :: back) :
    (table.erase key).toList = front ++ back := by
  have hsorted := table.ordered_keys_toList
  rw [htable] at hsorted
  apply toList_eq_of_sorted
  · exact hsorted.sublist (List.Sublist.append_left (List.sublist_cons_self _ _) front)
  · intro k v
    rw [ExtTreeMap.getElem?_erase]
    by_cases hk : key = k
    · subst hk
      have hfront : (key, v) ∉ front := fun hw => by simpa using front_lt htable hw
      have hback : (key, v) ∉ back := fun hw => by simpa using back_gt htable hw
      simp [hfront, hback]
    · rw [if_neg (by simpa using hk), ← ExtTreeMap.mem_toList_iff_getElem?_eq_some, htable]
      simp [Ne.symm hk]

/-- What the entries of an ordered map weigh together. -/
def totalWeight (weight : K → V → Nat) (table : ExtTreeMap K V) : Nat :=
  (table.toList.map fun entry => weight entry.1 entry.2).sum

/-- Where an entry stands, and that the weights of the others do not depend on it. -/
theorem exists_split_of_getElem? {weight weight' : K → V → Nat} (hvalue : table[key]? = some value)
    (hothers : ∀ other v, other ≠ key → weight' other v = weight other v) :
    ∃ front back, table.toList = front ++ (key, value) :: back ∧
      (front.map fun entry => weight' entry.1 entry.2) = (front.map fun entry => weight entry.1 entry.2) ∧
      (back.map fun entry => weight' entry.1 entry.2) = (back.map fun entry => weight entry.1 entry.2) := by
  obtain ⟨front, back, htable⟩ := List.append_of_mem (ExtTreeMap.mem_toList_iff_getElem?_eq_some.mpr hvalue)
  refine ⟨front, back, htable, List.map_congr_left ?_, List.map_congr_left ?_⟩
  · intro entry hentry
    refine hothers entry.1 entry.2 ?_
    intro heq
    simpa [heq] using front_lt htable hentry
  · intro entry hentry
    refine hothers entry.1 entry.2 ?_
    intro heq
    simpa [heq] using back_gt htable hentry

/-- An entry and its weight change. -/
theorem totalWeight_insert {weight weight' : K → V → Nat} (hvalue : table[key]? = some value)
    (hothers : ∀ other v, other ≠ key → weight' other v = weight other v) (new : V) :
    totalWeight weight' (table.insert key new) + weight key value = totalWeight weight table + weight' key new := by
  obtain ⟨front, back, htable, hfront, hback⟩ := exists_split_of_getElem? hvalue hothers
  unfold totalWeight
  rw [toList_insert_of_mem htable, htable]
  simp only [List.map_append, List.map_cons, List.sum_append, List.sum_cons, hfront, hback]
  omega

theorem totalWeight_erase {weight weight' : K → V → Nat} (hvalue : table[key]? = some value)
    (hothers : ∀ other v, other ≠ key → weight' other v = weight other v) :
    totalWeight weight' (table.erase key) + weight key value = totalWeight weight table := by
  obtain ⟨front, back, htable, hfront, hback⟩ := exists_split_of_getElem? hvalue hothers
  unfold totalWeight
  rw [toList_erase_of_mem htable, htable]
  simp only [List.map_append, List.map_cons, List.sum_append, List.sum_cons, hfront, hback]
  omega

theorem toList_erase (table : ExtTreeMap K V) (key : K) :
    (table.erase key).toList = table.toList.filter fun entry => compare entry.1 key ≠ .eq := by
  apply toList_eq_of_sorted
  · exact table.ordered_keys_toList.filter _
  · intro k v
    rw [List.mem_filter, ExtTreeMap.mem_toList_iff_getElem?_eq_some, ExtTreeMap.getElem?_erase]
    by_cases hkey : compare key k = .eq
    · have hkey' : compare k key = .eq := OrientedCmp.eq_symm hkey
      simp [hkey, hkey']
    · have hkey' : compare k key ≠ .eq := fun h => hkey (OrientedCmp.eq_symm h)
      simp [hkey, hkey']

end

end NovaKV.Lib
