import Mathlib

open Std

namespace NovaKV.Lib

section

variable {K V : Type} [BEq K]

/-- The last value written for a key by a sequence of writes, oldest first. -/
def latest (writes : List (K × V)) (key : K) : Option V := writes.reverse.lookup key

@[simp] theorem latest_nil (key : K) : latest ([] : List (K × V)) key = none := rfl

theorem latest_append (first second : List (K × V)) (key : K) :
    latest (first ++ second) key = (latest second key).or (latest first key) := by
  simp [latest, List.lookup_append]

variable [LawfulBEq K]

theorem lookup_cons_of_ne {key other : K} (hne : other ≠ key) (value : V) (rest : List (K × V)) :
    ((key, value) :: rest).lookup other = rest.lookup other := by
  rw [List.lookup_cons, beq_false_of_ne hne]

theorem latest_concat_self (writes : List (K × V)) (key : K) (value : V) :
    latest (writes ++ [(key, value)]) key = some value := by
  simp [latest]

theorem latest_concat_of_ne (writes : List (K × V)) {key other : K} (value : V)
    (hne : other ≠ key) : latest (writes ++ [(key, value)]) other = latest writes other := by
  simp [latest, lookup_cons_of_ne hne]

theorem mem_of_latest {writes : List (K × V)} {key : K} {value : V} (h : latest writes key = some value) :
    (key, value) ∈ writes := by
  obtain ⟨front, back, hsplit, -⟩ := List.lookup_eq_some_iff.mp h
  rw [← List.mem_reverse, hsplit]
  simp

/-- A strictly sorted association list is looked up like any other: the first
entry for a key is the only one. -/
theorem lookup_eq_some_iff_mem {entries : List (K × V)} {key : K} {value : V}
    (hdistinct : entries.Pairwise fun a b => a.1 ≠ b.1) :
    entries.lookup key = some value ↔ (key, value) ∈ entries := by
  induction entries with
  | nil => simp
  | cons entry entries ih =>
    obtain ⟨k, v⟩ := entry
    rw [List.pairwise_cons] at hdistinct
    by_cases hkey : key = k
    · subst hkey
      have hother : ∀ w, (key, w) ∉ entries := fun w hw => hdistinct.1 _ hw rfl
      simp [hother, eq_comm]
    · simp [lookup_cons_of_ne hkey, hkey, ih hdistinct.2]

end

section

variable {K V : Type} [Ord K] [TransOrd K] [LawfulEqOrd K] [BEq K] [LawfulBEq K]

theorem latest_eq_getElem?_insertMany (writes : List (K × V)) (table : ExtTreeMap K V) (key : K) :
    (table.insertMany writes)[key]? = (latest writes key).or table[key]? := by
  induction writes generalizing table with
  | nil => simp
  | cons write writes ih =>
    obtain ⟨k, v⟩ := write
    rw [ExtTreeMap.insertMany_cons, ih, ExtTreeMap.getElem?_insert]
    rw [show (k, v) :: writes = [(k, v)] ++ writes from rfl, latest_append]
    by_cases hkey : k = key
    · subst hkey
      simp [latest]
    · simp [latest, lookup_cons_of_ne (Ne.symm hkey), hkey]

theorem toList_lookup (table : ExtTreeMap K V) (key : K) : table.toList.lookup key = table[key]? := by
  have hdistinct : table.toList.Pairwise fun a b => a.1 ≠ b.1 :=
    ExtTreeMap.distinct_keys_toList.imp fun h => by simpa using h
  ext value
  rw [lookup_eq_some_iff_mem hdistinct, ExtTreeMap.mem_toList_iff_getElem?_eq_some]

end

section

variable {K V : Type} [Ord K] [TransOrd K] [LawfulEqOrd K]

theorem insert_insert (table : ExtTreeMap K V) (key : K) (value other : V) :
    (table.insert key value).insert key other = table.insert key other := by
  apply ExtTreeMap.ext_getElem?
  intro found
  simp only [ExtTreeMap.getElem?_insert]
  split <;> rfl

theorem erase_insert (table : ExtTreeMap K V) (key : K) (value : V) :
    (table.insert key value).erase key = table.erase key := by
  apply ExtTreeMap.ext_getElem?
  intro found
  simp only [ExtTreeMap.getElem?_erase, ExtTreeMap.getElem?_insert]
  split <;> rfl

end

end NovaKV.Lib
