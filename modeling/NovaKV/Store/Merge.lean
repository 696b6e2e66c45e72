import NovaKV.Store.Compaction

open Std
open NovaKV.Lib

namespace NovaKV

theorem has_visible_value_in_l1_iff (l1 : List SSTableReader) (key : Key) :
    has_visible_value_in_l1 l1 key = true ↔ visible (search_level l1 key) ≠ none := by
  unfold has_visible_value_in_l1
  cases search_level l1 key with
  | none => simp
  | some record =>
    obtain ⟨type, value⟩ := record
    cases type <;> simp

theorem getElem?_output_records (l1 : List SSTableReader) (merged : ExtTreeMap Key ValueRecord)
    (key : Key) : (output_records l1 merged)[key]? = merged[key]?.bind (output_record l1 key) := by
  rw [output_records, ExtTreeMap.getElem?_filterMap']

/-- What compaction does to one key: the new record over level 1 shows what the
merged record over level 1 showed. -/
theorem visible_output_record (l1 : List SSTableReader) (key : Key) (record : ValueRecord) :
    visible ((output_record l1 key record).or (search_level l1 key)) = visible (some record) := by
  obtain ⟨type, value⟩ := record
  cases type with
  | kValue => rfl
  | kDeletion =>
    by_cases hhidden : has_visible_value_in_l1 l1 key = true
    · simp [output_record, hhidden]
    · have hnone : visible (search_level l1 key) = none := by
        simpa [has_visible_value_in_l1_iff] using hhidden
      simp [output_record, hhidden, hnone]

/-- Replacing level 0 by the compaction output on top of level 1 changes no lookup. -/
theorem visible_output_records (l0 l1 : List SSTableReader) (key : Key) :
    visible ((output_records l1 (merge_records l0))[key]?.or (search_level l1 key)) =
      visible (search_levels l0 l1 key) := by
  rw [getElem?_output_records, search_levels, search_level_eq_merge_records l0]
  cases (merge_records l0)[key]? with
  | none => simp
  | some record =>
    simp only [Option.bind_some, Option.map_some, Option.some_or, visible_output_record, visible_cleared]

/-- The view after installing an output table. -/
theorem visible_search_installed {l0 l1 : List SSTableReader} {reader : SSTableReader}
    (htable : reader.table = .of_map (output_records l1 (merge_records l0))) (key : Key) :
    visible (search_levels [] (l1 ++ [reader]) key) = visible (search_levels l0 l1 key) := by
  rw [← visible_output_records l0, search_levels, search_level_nil, Option.none_or,
    search_level_concat, SSTable.get_record, htable, SSTable.lookup_of_map]
  cases (output_records l1 (merge_records l0))[key]? with
  | none => rfl
  | some record => simp

/-- The view after consuming level 0 without an output. -/
theorem visible_search_consumed {l0 l1 : List SSTableReader}
    (hempty : (output_records l1 (merge_records l0)).isEmpty = true) (key : Key) :
    visible (search_levels [] l1 key) = visible (search_levels l0 l1 key) := by
  rw [← visible_output_records l0, ExtTreeMap.isEmpty_iff.mp hempty]
  simp [search_levels]

/-- A nonempty level merges to a nonempty map, since no open table is empty. -/
theorem merge_records_isEmpty {l0 : List SSTableReader} (hl0 : l0 ≠ []) :
    (merge_records l0).isEmpty = false := by
  obtain ⟨reader, hreader⟩ := List.exists_mem_of_ne_nil l0 hl0
  obtain ⟨⟨key, record⟩, hentry⟩ := List.exists_mem_of_ne_nil _ reader.nonempty
  have hlookup : (reader.table.lookup key).isSome := by
    rw [SSTable.lookup, List.lookup_isSome_iff]
    exact ⟨(key, record), hentry, by simp⟩
  have hfound : (merge_records l0)[key]?.isSome := by
    rw [getElem?_merge_records, List.findSome?_isSome_iff]
    exact ⟨reader, by simpa using hreader, hlookup⟩
  rw [ExtTreeMap.isEmpty_eq_false_iff]
  exact ExtTreeMap.ne_empty_of_mem (ExtTreeMap.mem_iff_isSome_getElem?.mpr hfound)

end NovaKV
