import NovaKV.Store.Levels

open Std
open NovaKV.Lib

namespace NovaKV

/-- A total order decides how a list is sorted. -/
theorem mergeSort_eq_of_sorted {le : Nat → Nat → Bool} (htrans : ∀ a b c, le a b = true → le b c = true → le a c = true)
    (htotal : ∀ a b, (le a b || le b a) = true) (hantisymm : ∀ a b, le a b = true → le b a = true → a = b)
    {ids others : List Nat} (h : ids.Perm others) (hsorted : others.Pairwise fun a b => le a b = true) :
    ids.mergeSort le = others := by
  refine List.Perm.eq_of_pairwise (fun a b _ _ => hantisymm a b) ?_ hsorted ((List.mergeSort_perm _ _).trans h)
  exact List.pairwise_mergeSort htrans htotal ids

section

variable {a b c : Nat}

end

section

variable {ssts ssts' : ExtTreeMap Nat SSTable} {p : Nat → Bool}

/-- A scan opens the table files of the directory. -/
theorem mem_scanned_readers {r : SSTableReader} (hr : r ∈ scanned_readers ssts) :
    ssts[r.file_number]? = some r.table := by
  obtain ⟨id, -, hopen⟩ := List.mem_filterMap.mp hr
  obtain ⟨table, htable, hopen⟩ := Option.bind_eq_some_iff.mp hopen
  obtain ⟨rfl, rfl⟩ := SSTableReader.open_eq_some hopen
  exact htable

end

end NovaKV
