import NovaKV.Store.Events
import NovaKV.Store.Merge

open Std
open NovaKV.Lib

namespace NovaKV

/-- The record that the newest table of a level with the key holds for it. -/
def newest_record (level : List SSTableReader) (key : Key) : Option ValueRecord :=
  level.reverse.findSome? fun reader => reader.table.lookup key

theorem getElem?_merge_records_eq_newest (level : List SSTableReader) (key : Key) :
    (merge_records level)[key]? = newest_record level key :=
  getElem?_merge_records level key

/-- A prepared compaction with one key left out of its output. -/
def L0ToL1Ctx.without (self : L0ToL1Ctx) (key : Key) : L0ToL1Ctx :=
  { self with
    output_records := self.output_records.erase key
    has_output := !(self.output_records.erase key).isEmpty }

/-- Build the output table of a prepared compaction and install it. -/
def Levels.install_output (self : Levels) (ctx : L0ToL1Ctx) : FileM Levels := do
  let reader ← build_l0_to_l1_sst ctx true
  let (levels, _) ← self.install_l0_to_l1 ctx reader
  return levels

theorem output_of_map_get_record (output : ExtTreeMap Key ValueRecord) (key : Key) :
    (SSTable.of_map output).get_record key = output[key]?.map ValueRecord.cleared := by
  rw [SSTable.get_record, SSTable.lookup_of_map]

/-- Opening the table just written, whatever was on the disk. -/
theorem write_sst_returns_reader {id : Nat} {table : SSTable} (h : table.records ≠ []) :
    (write_sst id table true).Returns fun reader => reader = some ⟨id, table, h⟩ := by
  refine .seq fun disk => ?_
  simp only [if_true, SSTableReader.open_of_nonempty h]
  split
  · exact .seq fun _ => .seq fun _ => .pure rfl
  · exact .seq fun _ => .pure rfl

/-- Over the installed levels a key is answered by the output, then by the old
level 1. -/
theorem Levels.install_output_search {levels : Levels} {ctx : L0ToL1Ctx} {id : Nat}
    (hunchanged : levels.inputs_unchanged ctx = true) (hmerged : ctx.merged_l0_records.isEmpty = false)
    (hid : ctx.new_sst_id = some id) (hhas : ctx.has_output = !ctx.output_records.isEmpty) (key : Key) :
    (levels.install_output ctx).Returns fun installed =>
      installed.search key =
        (ctx.output_records[key]?.map ValueRecord.cleared).or (search_level levels.l1 key) := by
  cases hempty : ctx.output_records.isEmpty with
  | true =>
    refine .seq fun reader => ?_
    simp only [Levels.install_l0_to_l1, hunchanged, hhas, hempty, Bool.not_true, Bool.not_false,
      Bool.or_true, if_true, Bool.false_eq_true, if_false]
    refine .bind (.seq fun manifest => .pure ?_) fun installed hinstalled => .pure hinstalled
    simp [Levels.search, search_levels, ExtTreeMap.isEmpty_iff.mp hempty]
  | false =>
    have hreader : (build_l0_to_l1_sst ctx true).Returns fun reader =>
        reader = some ⟨id, .of_map ctx.output_records, records_of_map_ne_nil hempty⟩ := by
      simp only [build_l0_to_l1_sst, hhas, hempty, hid, Bool.not_false, Bool.not_true,
        Bool.false_eq_true, if_false]
      exact write_sst_returns_reader _
    refine .bind hreader ?_
    rintro _ rfl
    simp only [Levels.install_l0_to_l1, hunchanged, hhas, hempty, hmerged, Bool.not_true, Bool.not_false,
      Bool.or_self, Bool.false_eq_true, if_false]
    refine .bind (.seq fun manifest => .seq fun manifest' => .pure ?_) fun installed hinstalled =>
      .pure hinstalled
    simp [Levels.search, search_levels, search_level_concat, output_of_map_get_record]

/-- What a prepared compaction writes: every newest value, of the newest
deletions those without which a deleted key would show a value again, and
nothing else. -/
structure L0ToL1Ctx.Necessary (ctx : L0ToL1Ctx) (levels : Levels) : Prop where
  value : ∀ key value, newest_record levels.l0 key = some ⟨.kValue, value⟩ →
    ctx.output_records[key]? = some ⟨.kValue, value⟩
  deletion : ∀ key value, newest_record levels.l0 key = some ⟨.kDeletion, value⟩ →
    (ctx.output_records[key]? = none ∨ ctx.output_records[key]? = some ⟨.kDeletion, []⟩) ∧
    ∀ disk, key ∈ ctx.output_records ↔
      visible ((levels.install_output (ctx.without key) disk).1.search key) ≠ none
  other : ∀ key, newest_record levels.l0 key = none → key ∉ ctx.output_records
  has_output : ctx.has_output = false ↔
    ∀ key record, newest_record levels.l0 key = some record → record.type = .kDeletion ∧
      ∀ disk, visible ((levels.install_output (ctx.without key) disk).1.search key) = none

theorem l0_ids_perm (order : IterationOrder (Nat × UInt32)) (state : ManifestState Nat) :
    (l0_ids order state).Perm (l0_ids .forward state) :=
  (order.perm _).filterMap _

/-- Nothing has changed between preparing a compaction and installing it. -/
theorem inputs_unchanged_of_prepared {levels : Levels} {ctx : L0ToL1Ctx}
    {order : IterationOrder (Nat × UInt32)} (hcount : ctx.expected_l0_reader_count = levels.l0.length)
    (hids : ctx.l0_input_ids = l0_ids order levels.manifest.state) : levels.inputs_unchanged ctx = true := by
  have hperm : (l0_ids order levels.manifest.state).mergeSort.Perm
      (l0_ids .forward levels.manifest.state).mergeSort :=
    (List.mergeSort_perm _ _).trans ((l0_ids_perm order _).trans (List.mergeSort_perm _ _).symm)
  have hsorted := hperm.eq_of_pairwise' (List.pairwise_mergeSort' (· ≤ ·) _) (List.pairwise_mergeSort' (· ≤ ·) _)
  simp [Levels.inputs_unchanged, hcount, hids, hsorted]

theorem getElem?_output_records_newest (levels : Levels) (key : Key) :
    (output_records levels.l1 (merge_records levels.l0))[key]? =
      (newest_record levels.l0 key).bind (output_record levels.l1 key) := by
  rw [getElem?_output_records, getElem?_merge_records_eq_newest]

/-- A newest deletion is written exactly when level 1 shows a value for the key. -/
theorem mem_output_records_deletion {levels : Levels} {key : Key} {value : Bytes}
    (hnewest : newest_record levels.l0 key = some ⟨.kDeletion, value⟩) :
    key ∈ output_records levels.l1 (merge_records levels.l0) ↔
      visible (search_level levels.l1 key) ≠ none := by
  rw [ExtTreeMap.mem_iff_isSome_getElem?, getElem?_output_records_newest, hnewest,
    ← has_visible_value_in_l1_iff]
  simp [output_record]

/-- A compaction prepared over these levels. -/
structure L0ToL1Ctx.Prepared (ctx : L0ToL1Ctx) (levels : Levels) : Prop where
  unchanged : levels.inputs_unchanged ctx = true
  merged : ctx.merged_l0_records.isEmpty = false
  output : ctx.output_records = NovaKV.output_records levels.l1 (merge_records levels.l0)
  id : ∃ id, ctx.new_sst_id = some id
  has_output : ctx.has_output = !ctx.output_records.isEmpty

variable {levels : Levels} {ctx : L0ToL1Ctx} {key : Key}

/-- With the key left out, level 1 alone answers. -/
theorem L0ToL1Ctx.Prepared.search_without (h : ctx.Prepared levels) (key : Key) (disk : Disk) :
    (levels.install_output (ctx.without key) disk).1.search key = search_level levels.l1 key := by
  obtain ⟨id, hid⟩ := h.id
  have hsearch : (levels.install_output (ctx.without key) disk).1.search key =
      ((ctx.without key).output_records[key]?.map ValueRecord.cleared).or (search_level levels.l1 key) :=
    @Levels.install_output_search levels (ctx.without key) id h.unchanged h.merged hid rfl key disk
  rw [hsearch]
  simp [L0ToL1Ctx.without]

theorem L0ToL1Ctx.Prepared.mem_deletion (h : ctx.Prepared levels) {value : Bytes}
    (hnewest : newest_record levels.l0 key = some ⟨.kDeletion, value⟩) (disk : Disk) :
    key ∈ ctx.output_records ↔
      visible ((levels.install_output (ctx.without key) disk).1.search key) ≠ none := by
  rw [h.search_without, h.output]
  exact mem_output_records_deletion hnewest

theorem L0ToL1Ctx.Prepared.has_output_iff (h : ctx.Prepared levels) :
    ctx.has_output = false ↔
      ∀ key record, newest_record levels.l0 key = some record → record.type = .kDeletion ∧
        ∀ disk, visible ((levels.install_output (ctx.without key) disk).1.search key) = none := by
  have hempty : ctx.has_output = false ↔ ctx.output_records = ∅ := by
    rw [h.has_output, Bool.not_eq_false', ExtTreeMap.isEmpty_iff]
  rw [hempty]
  constructor
  · rintro hnone key ⟨type, value⟩ hnewest
    have habsent : key ∉ ctx.output_records := by simp [hnone]
    cases type with
    | kValue =>
      rw [h.output, ExtTreeMap.mem_iff_isSome_getElem?, getElem?_output_records_newest, hnewest] at habsent
      exact absurd rfl habsent
    | kDeletion =>
      refine ⟨rfl, fun disk => ?_⟩
      by_contra hshown
      exact habsent ((h.mem_deletion hnewest disk).mpr hshown)
  · intro hunneeded
    refine ExtTreeMap.eq_empty_iff_forall_not_mem.mpr fun key hkey => ?_
    cases hnewest : newest_record levels.l0 key with
    | none =>
      rw [h.output, ExtTreeMap.mem_iff_isSome_getElem?, getElem?_output_records_newest, hnewest] at hkey
      exact absurd hkey (by simp)
    | some record =>
      obtain ⟨hdeletion, hhidden⟩ := hunneeded key record hnewest
      obtain ⟨_, value⟩ := record
      cases hdeletion
      exact (h.mem_deletion hnewest .empty).mp hkey (hhidden .empty)

theorem L0ToL1Ctx.Prepared.necessary (h : ctx.Prepared levels) : ctx.Necessary levels where
  value key value hnewest := by
    rw [h.output, getElem?_output_records_newest, hnewest]
    rfl
  deletion key value hnewest := by
    refine ⟨?_, h.mem_deletion hnewest⟩
    rw [h.output, getElem?_output_records_newest, hnewest, Option.bind_some]
    cases hhidden : has_visible_value_in_l1 levels.l1 key <;> simp [output_record, hhidden]
  other key hnewest := by
    rw [h.output, ExtTreeMap.mem_iff_isSome_getElem?, getElem?_output_records_newest, hnewest]
    simp
  has_output := h.has_output_iff

/-- A level 0 that the manifest lists is prepared for compaction. -/
theorem Levels.prepare_l0_to_l1_prepared {levels : Levels} {order : IterationOrder (Nat × UInt32)}
    (hl0 : levels.l0 ≠ []) (hids : (l0_ids order levels.manifest.state).length = levels.l0.length) :
    (levels.prepare_l0_to_l1 order).Returns fun result => ∃ manifest ctx,
      result = ({ levels with manifest := manifest }, some ctx) ∧
        ctx.Prepared { levels with manifest := manifest } := by
  have hmerged := merge_records_isEmpty hl0
  have hlevels : (levels.manifest.allocate_file_number {}).1.state.sst_levels =
      levels.manifest.state.sst_levels := by
    rw [ManifestManager.allocate_file_number_eq_commit, ManifestManager.commit_state]
    rfl
  have hlisted : l0_ids order levels.manifest.state =
      l0_ids order (levels.manifest.allocate_file_number {}).1.state := by
    rw [l0_ids, l0_ids, hlevels]
  unfold Levels.prepare_l0_to_l1
  simp only [if_neg hl0, hids, ne_eq, not_true, if_false, hmerged, Bool.false_eq_true]
  exact fun disk => ⟨_, _, rfl,
    { unchanged := inputs_unchanged_of_prepared rfl hlisted
      merged := hmerged
      output := rfl
      id := ⟨_, rfl⟩
      has_output := rfl }⟩

/-- Preparing a compaction fails only without level 0 tables or when the manifest
lists another number of them; otherwise it keeps exactly the necessary deletions. -/
theorem Levels.prepare_l0_to_l1_necessary (levels : Levels) (order : IterationOrder (Nat × UInt32)) :
    (levels.prepare_l0_to_l1 order).Returns fun (prepared, result) =>
      prepared.l0 = levels.l0 ∧ prepared.l1 = levels.l1 ∧
      (result = none ↔
        levels.l0 = [] ∨ (l0_ids order levels.manifest.state).length ≠ levels.l0.length) ∧
      ∀ ctx, result = some ctx → ctx.Necessary prepared := by
  by_cases hl0 : levels.l0 = []
  · rw [Levels.prepare_l0_to_l1, if_pos hl0]
    exact .pure ⟨rfl, rfl, by simp [hl0], by simp⟩
  by_cases hids : (l0_ids order levels.manifest.state).length = levels.l0.length
  · intro disk
    obtain ⟨manifest, ctx, hresult, hprepared⟩ := Levels.prepare_l0_to_l1_prepared hl0 hids disk
    rw [hresult]
    refine ⟨rfl, rfl, by simp [hl0, hids], ?_⟩
    rintro _ ⟨⟩
    exact hprepared.necessary
  · simp only [Levels.prepare_l0_to_l1, if_neg hl0, hids, ne_eq, not_false_eq_true, if_true]
    exact .pure ⟨rfl, rfl, by simp, by simp⟩

end NovaKV
