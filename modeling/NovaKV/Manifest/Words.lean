import NovaKV.Manifest.Session

open Std
open NovaKV.Lib

namespace NovaKV

/-- An edit with its file number as a machine word. -/
def ManifestEdit.words : ManifestEdit Nat → ManifestEdit FileNumber
  | .SetNextFileNumber id => .SetNextFileNumber (UInt64.ofNat id)
  | .AddSST id level => .AddSST (UInt64.ofNat id) level
  | .DelSST id => .DelSST (UInt64.ofNat id)
  | .AddWAL id => .AddWAL (UInt64.ofNat id)
  | .DelWAL id => .DelWAL (UInt64.ofNat id)

/-- The file number of an edit fits its 64-bit field. -/
def ManifestEdit.Fits : ManifestEdit Nat → Prop
  | .SetNextFileNumber id => id < 2 ^ 64
  | .AddSST id _ => id < 2 ^ 64
  | .DelSST id => id < 2 ^ 64
  | .AddWAL id => id < 2 ^ 64
  | .DelWAL id => id < 2 ^ 64

instance (edit : ManifestEdit Nat) : Decidable edit.Fits := by
  cases edit <;> exact Nat.decLt _ _

namespace ManifestState

/-- A state with its file numbers as machine words. -/
def words (state : ManifestState Nat) : ManifestState FileNumber where
  next_file_number := UInt64.ofNat state.next_file_number
  sst_levels := (∅ : ExtTreeMap FileNumber UInt32).insertMany
    (state.sst_levels.toList.map fun entry => (UInt64.ofNat entry.1, entry.2))
  live_wals := (∅ : ExtTreeSet FileNumber).insertMany (state.live_wals.toList.map UInt64.ofNat)

/-- The file numbers of a state fit 64 bits. -/
def NumbersFit (state : ManifestState Nat) : Prop :=
  state.next_file_number < 2 ^ 64 ∧ (∀ entry ∈ state.sst_levels.toList, entry.1 < 2 ^ 64) ∧
    ∀ id ∈ state.live_wals.toList, id < 2 ^ 64

/-- A state can be written as a snapshot. -/
def Fits (state : ManifestState Nat) : Prop :=
  state.NumbersFit ∧ state.sst_levels.size < 2 ^ 32 ∧ state.live_wals.size < 2 ^ 32

instance (state : ManifestState Nat) : Decidable state.Fits := by
  unfold Fits NumbersFit
  infer_instance

/-- A state in machine words says what a state in numbers does. -/
structure Stands (words : ManifestState FileNumber) (state : ManifestState Nat) : Prop where
  next : words.next_file_number.toNat = state.next_file_number
  ssts : ∀ id : FileNumber, words.sst_levels[id]? = state.sst_levels[id.toNat]?
  wals : ∀ id : FileNumber, id ∈ words.live_wals ↔ id.toNat ∈ state.live_wals
  ssts_fit : ∀ id ∈ state.sst_levels, id < 2 ^ 64
  wals_fit : ∀ id ∈ state.live_wals, id < 2 ^ 64

end ManifestState

section

variable {state : ManifestState Nat} {words : ManifestState FileNumber} {edit : ManifestEdit Nat}
  {edits : List (ManifestEdit Nat)}

/-- Words that stand for different numbers differ. -/
theorem word_eq_iff {id : Nat} (hid : id < 2 ^ 64) (other : FileNumber) :
    UInt64.ofNat id = other ↔ id = other.toNat := by
  constructor
  · rintro rfl
    exact (UInt64.toNat_ofNat_of_lt' hid).symm
  · rintro rfl
    exact UInt64.ofNat_toNat

theorem ManifestState.words_stands (h : state.NumbersFit) : state.words.Stands state where
  next := UInt64.toNat_ofNat_of_lt' h.1
  ssts id := by
    unfold ManifestState.words
    cases hid : state.sst_levels[id.toNat]? with
    | some level =>
      refine ExtTreeMap.getElem?_insertMany_list_of_mem (k := UInt64.ofNat id.toNat) (by simp) ?_ ?_
      · rw [List.pairwise_map]
        refine state.sst_levels.distinct_keys_toList.imp_of_mem ?_
        intro a b ha hb hne heq
        have hword := LawfulEqCmp.compare_eq_iff_eq.mp heq
        rw [word_eq_iff (h.2.1 a ha), UInt64.toNat_ofNat_of_lt' (h.2.1 b hb)] at hword
        exact hne (by simp [hword])
      · exact List.mem_map.mpr ⟨(id.toNat, level), ExtTreeMap.mem_toList_iff_getElem?_eq_some.mpr hid, rfl⟩
    | none =>
      rw [ExtTreeMap.getElem?_insertMany_list_of_contains_eq_false]
      · simp
      · rw [Bool.eq_false_iff, Ne, List.contains_iff_mem]
        intro hmem
        simp only [List.map_map, List.mem_map, Function.comp_apply] at hmem
        obtain ⟨entry, hentry, heq⟩ := hmem
        rw [word_eq_iff (h.2.1 entry hentry)] at heq
        rw [← heq, ExtTreeMap.mem_toList_iff_getElem?_eq_some.mp hentry] at hid
        cases hid
  wals id := by
    unfold ManifestState.words
    rw [ExtTreeSet.mem_insertMany_list, List.contains_iff_mem, List.mem_map]
    constructor
    · rintro (hnone | ⟨other, hother, heq⟩)
      · exact absurd hnone ExtTreeSet.not_mem_empty
      · rw [word_eq_iff (h.2.2 other hother)] at heq
        rw [← heq]
        exact ExtTreeSet.mem_toList.mp hother
    · intro hid
      exact .inr ⟨id.toNat, ExtTreeSet.mem_toList.mpr hid, UInt64.ofNat_toNat⟩
  ssts_fit id hid := by
    obtain ⟨level, hlevel⟩ := Option.isSome_iff_exists.mp (ExtTreeMap.mem_iff_isSome_getElem?.mp hid)
    exact h.2.1 (id, level) (ExtTreeMap.mem_toList_iff_getElem?_eq_some.mpr hlevel)
  wals_fit id hid := h.2.2 id (ExtTreeSet.mem_toList.mpr hid)

theorem ManifestState.words_countsFit (h : state.Fits) : state.words.CountsFit := by
  obtain ⟨-, hssts, hwals⟩ := h
  constructor
  · refine Nat.lt_of_le_of_lt ExtTreeMap.size_insertMany_list_le ?_
    simpa using hssts
  · refine Nat.lt_of_le_of_lt ExtTreeSet.size_insertMany_list_le ?_
    simpa using hwals

/-- Edits do the same to both. -/
theorem ManifestState.Stands.apply_edit (h : words.Stands state) (hfits : edit.Fits) :
    (words.apply_edit edit.words).Stands (state.apply_edit edit) := by
  have hcompare : ∀ {id : Nat}, id < 2 ^ 64 → ∀ other : FileNumber,
      compare (UInt64.ofNat id) other = .eq ↔ compare id other.toNat = .eq := by
    intro id hid other
    rw [LawfulEqCmp.compare_eq_iff_eq, LawfulEqCmp.compare_eq_iff_eq, word_eq_iff hid]
  cases edit with
  | SetNextFileNumber id => exact ⟨UInt64.toNat_ofNat_of_lt' hfits, h.ssts, h.wals, h.ssts_fit, h.wals_fit⟩
  | AddSST id level =>
    refine ⟨h.next, fun other => ?_, h.wals, fun other hother => ?_, h.wals_fit⟩
    · simp only [apply_edit, ManifestEdit.words, ExtTreeMap.getElem?_insert, hcompare hfits, h.ssts]
    · rcases ExtTreeMap.mem_insert.mp hother with heq | hold
      · rwa [← LawfulEqCmp.compare_eq_iff_eq.mp heq]
      · exact h.ssts_fit other hold
  | DelSST id =>
    refine ⟨h.next, fun other => ?_, h.wals, fun other hother => ?_, h.wals_fit⟩
    · simp only [apply_edit, ManifestEdit.words, ExtTreeMap.getElem?_erase, hcompare hfits, h.ssts]
    · exact h.ssts_fit other (ExtTreeMap.mem_of_mem_erase hother)
  | AddWAL id =>
    refine ⟨h.next, h.ssts, fun other => ?_, h.ssts_fit, fun other hother => ?_⟩
    · simp only [apply_edit, ManifestEdit.words, ExtTreeSet.mem_insert, hcompare hfits, h.wals]
    · rcases ExtTreeSet.mem_insert.mp hother with heq | hold
      · rwa [← LawfulEqCmp.compare_eq_iff_eq.mp heq]
      · exact h.wals_fit other hold
  | DelWAL id =>
    refine ⟨h.next, h.ssts, fun other => ?_, h.ssts_fit, fun other hother => ?_⟩
    · simp only [apply_edit, ManifestEdit.words, ExtTreeSet.mem_erase, Ne, hcompare hfits, h.wals]
    · exact h.wals_fit other (ExtTreeSet.mem_of_mem_erase hother)

theorem ManifestState.Stands.apply_edits (h : words.Stands state) (hfits : ∀ edit ∈ edits, edit.Fits) :
    (words.apply_edits (edits.map ManifestEdit.words)).Stands (state.apply_edits edits) := by
  induction edits generalizing words state with
  | nil => exact h
  | cons edit edits ih =>
    exact ih (h.apply_edit (hfits edit List.mem_cons_self)) fun later hlater =>
      hfits later (List.mem_cons_of_mem _ hlater)

end

end NovaKV
