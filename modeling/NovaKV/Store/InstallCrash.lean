import NovaKV.Store.ConsumeOrder
import NovaKV.Store.InstallStep
import NovaKV.Store.Opening
import NovaKV.Store.Scan

open Std
open NovaKV.Lib

namespace NovaKV

/-- The building step of `CompactL0ToL1`, with no result when the call gives up. -/
def build_output (ctx : L0ToL1Ctx) : FileM (Option (Option SSTableReader)) :=
  if ctx.has_output then return (← build_l0_to_l1_sst ctx true).map some
  else return some none

/-- `CompactL0ToL1` up to its installation, with no result when the call gives up. -/
def Levels.start_l0_to_l1 (self : Levels) (order : IterationOrder (Nat × UInt32)) :
    FileM (Option (Levels × L0ToL1Ctx × Option SSTableReader)) := do
  let (levels, ctx) ← self.prepare_l0_to_l1 order
  match ctx with
  | none => return none
  | some ctx => return (← build_output ctx).map fun reader => (levels, ctx, reader)

/-- The levels that reloading a directory with a snapshot yields. -/
def Files.loaded (self : Files) : List SSTableReader × List SSTableReader :=
  if self.state.sst_levels.isEmpty then (scanned_readers self.ssts, [])
  else (level_readers self.ssts self.state 0, level_readers self.ssts self.state 1)

section

variable {files : Files} {l0 l1 : List SSTableReader} {crash : Files → Prop}

/-- A program on which nothing depends. -/
theorem Files.Triple.ignore {α : Type} {program : FileM α} {post : α → Files → Prop}
    (h : ∀ a files', post a files') : files.Triple program post fun _ => True :=
  fun _ _ => ⟨fun _ _ => trivial, h _ _⟩

/-- The levels that the manifest lists are reloaded as they were. -/
theorem Files.Holds.loaded (h : files.Holds l0 l1) (hlisted : l0 ≠ [] ∨ l1 ≠ []) :
    files.loaded = (l0, l1) := by
  have hempty : ¬ files.state.sst_levels.isEmpty = true := by
    rw [h.lists.isEmpty_iff]
    rintro ⟨hl0, hl1⟩
    exact hlisted.elim (absurd hl0) (absurd hl1)
  have hl0 := level_readers_eq h.lists.sorted0 h.lists.level0
    fun r hr => h.tables r (List.mem_append_left _ hr)
  have hl1 := level_readers_eq h.lists.sorted1 h.lists.level1
    fun r hr => h.tables r (List.mem_append_right _ hr)
  rw [Files.loaded, if_neg hempty, hl0, hl1]

/-- One table leaves the manifest; its file is still there. -/
theorem Files.Holds.delete {id : Nat} (h : files.Holds l0 l1) (hid : ∀ r ∈ l1, r.file_number ≠ id) :
    (files.commit (.DelSST id)).Holds (l0.filter fun r => r.file_number ∉ [id]) l1 where
  lists := @ManifestState.Lists.delete _ _ _ h.lists [id] (by simpa using hid)
  tables r hr := by
    apply h.tables r
    rcases List.mem_append.mp hr with hr | hr
    · exact List.mem_append_left _ (List.mem_filter.mp hr).1
    · exact List.mem_append_right _ hr
  ssts_le := h.ssts_le
  wals_le := h.wals_le

end

/-- A compaction ready to be installed into the levels it was prepared from. -/
structure Levels.Ready (levels : Levels) (ctx : L0ToL1Ctx) (reader : Option SSTableReader)
    (files : Files) : Prop where
  stored : levels.Stored files
  ok : CompactCall.Ok ⟨.caller, ctx, some reader⟩ levels files
  unlisted : ctx.new_id ∉ files.state.sst_levels
  unchanged : levels.inputs_unchanged ctx = true

section

variable {levels levels' : Levels} {files : Files} {ctx : L0ToL1Ctx} {reader : Option SSTableReader}
  {order : IterationOrder (Nat × UInt32)}

theorem mergeSort_eq_of_perm {ids others : List Nat} (h : ids.Perm others) :
    ids.mergeSort = others.mergeSort := by
  have htrans : ∀ a b c : Nat, decide (a ≤ b) = true → decide (b ≤ c) = true → decide (a ≤ c) = true := by
    simpa using fun a b c => @Nat.le_trans a b c
  have htotal : ∀ a b : Nat, (decide (a ≤ b) || decide (b ≤ a)) = true := by
    simpa using Nat.le_total
  refine @mergeSort_eq_of_sorted (fun a b => decide (a ≤ b)) htrans htotal ?_ _ _ ?_ ?_
  · simpa using fun a b => @Nat.le_antisymm a b
  · exact h.trans (List.mergeSort_perm _ _).symm
  · exact @List.pairwise_mergeSort Nat (fun a b => decide (a ≤ b)) htrans htotal others

/-- Building the output of a prepared compaction. -/
theorem CompactCall.Ok.build (hok : CompactCall.Ok ⟨.caller, ctx, none⟩ levels files)
    (hstored : levels.Stored files) (hle : ctx.new_id ≤ files.state.next_file_number)
    (hunlisted : ctx.new_id ∉ files.state.sst_levels) (hunchanged : levels.inputs_unchanged ctx = true) :
    files.Triple (build_output ctx)
      (fun result files' => ∃ reader, result = some reader ∧ levels.Ready ctx reader files' ∧
        (ctx.has_output = false → files'.ssts = files.ssts))
      fun _ => True := by
  unfold build_output
  by_cases hhas : ctx.has_output = true
  · have hnonempty : ctx.output_records.isEmpty = false := by
      have houtput := hok.has_output
      simpa [hhas] using houtput
    rw [if_pos hhas, build_l0_to_l1_sst_eq_write hhas hok.new_sst_id]
    refine .seq (.write_sst (records_of_map_ne_nil hnonempty) trivial trivial trivial ?_)
    refine .pure trivial ⟨_, rfl, ⟨?_, ?_, hunlisted, hunchanged⟩, by simp [hhas]⟩
    · exact ⟨hstored.snapshot, hstored.synced, hstored.holds.insert_sst hunlisted hle⟩
    · refine ⟨hok.inputs, hok.inputs_le, hok.new_sst_id, hok.merged, hok.has_output, hok.current, ?_⟩
      rintro _ ⟨⟩
      exact .inr ⟨_, rfl, rfl, rfl, hhas, by simp⟩
  · rw [if_neg hhas]
    refine .pure trivial ⟨_, rfl, ⟨hstored, ?_, hunlisted, hunchanged⟩, fun _ => rfl⟩
    refine ⟨hok.inputs, hok.inputs_le, hok.new_sst_id, hok.merged, hok.has_output, hok.current, ?_⟩
    rintro _ ⟨⟩
    exact .inl ⟨rfl, by simpa using hhas⟩

/-- Preparing and building a compaction makes it ready. -/
theorem Levels.Stored.start (h : levels.Stored files) :
    files.Triple (levels.start_l0_to_l1 order)
      (fun result files' => ∀ levels' ctx reader, result = some (levels', ctx, reader) →
        levels'.Ready ctx reader files' ∧ levels'.l0 = levels.l0 ∧ levels'.l1 = levels.l1 ∧
          ctx.l0_input_ids = l0_ids order levels.manifest.state ∧
          (ctx.has_output = false → files'.ssts = files.ssts)) fun _ => True := by
  unfold Levels.start_l0_to_l1 Levels.prepare_l0_to_l1
  by_cases hl0 : levels.l0 = []
  · simp only [if_pos hl0]
    exact .seq (.pure trivial (.pure trivial nofun))
  simp only [if_neg hl0, merge_records_isEmpty hl0]
  split
  · exact .seq (.pure trivial (.pure trivial nofun))
  refine .seq (.seq (.allocate h.synced h.snapshot trivial trivial ?_))
  intro manifest hmanifest
  refine .pure trivial ?_
  have hidle : Working levels none 0 .idle [] files :=
    ⟨h, trivial, nofun, List.nodup_nil, nofun, nofun, nofun⟩
  have hworking := @Working.prepare_l0_to_l1 _ _ _ _ _ _
    ⟨.caller,
      { merged_l0_records := merge_records levels.l0
        output_records := output_records levels.l1 (merge_records levels.l0)
        l0_input_ids := l0_ids order levels.manifest.state
        expected_l0_reader_count := levels.l0.length
        new_sst_id := some manifest.state.next_file_number
        has_output := !(output_records levels.l1 (merge_records levels.l0)).isEmpty },
      none⟩ order manifest hidle hl0 hmanifest rfl rfl rfl rfl rfl rfl
  have hreserved := List.mem_singleton_self manifest.state.next_file_number
  refine .seq (((hworking.compactions _ List.mem_cons_self).build hworking.stored
    (hworking.reserved_le _ hreserved) (hworking.unlisted _ hreserved) ?_).mono ?_ fun _ => id)
  · have hforward := h.holds.lists.l0_ids_perm .forward
    have hinputs := h.holds.lists.l0_ids_perm order
    rw [h.synced] at hforward hinputs
    have hsame : l0_ids .forward manifest.state = l0_ids .forward levels.manifest.state := by
      rw [← hmanifest, ← h.synced]
      rfl
    simp only [Levels.inputs_unchanged, hsame, Bool.and_eq_true, beq_iff_eq]
    exact ⟨trivial, mergeSort_eq_of_perm (hinputs.trans hforward.symm)⟩
  · rintro _ files' ⟨reader, rfl, hready, hssts⟩
    refine .pure trivial ?_
    rintro _ _ _ ⟨⟩
    exact ⟨hready, rfl, rfl, rfl, hssts⟩

end

section

variable {files : Files} {l0 l1 l1' : List SSTableReader} {ids done : List Nat} {id : Nat}

end

section

variable {levels : Levels} {files : Files} {ctx : L0ToL1Ctx} {reader : Option SSTableReader}

end

section

variable {levels levels' : Levels} {disk : Disk} {order : IterationOrder (Nat × UInt32)}
  {ctx : L0ToL1Ctx} {reader : Option SSTableReader}

theorem Levels.Stored.ready (hstored : levels.Stored disk.files)
    (hstart : (levels.start_l0_to_l1 order disk).1 = some (levels', ctx, reader)) :
    levels'.Ready ctx reader ((levels.start_l0_to_l1 order).final disk).files ∧
      levels'.l0 = levels.l0 ∧ levels'.l1 = levels.l1 ∧
      ctx.l0_input_ids = l0_ids order levels.manifest.state ∧
      (ctx.has_output = false → ((levels.start_l0_to_l1 order).final disk).ssts = disk.ssts) := by
  have htriple : disk.files.Triple (levels.start_l0_to_l1 order) _ _ := hstored.start
  exact (htriple disk rfl).2 _ _ _ hstart

end

section

variable (newest unlisted : ValueRecord)

end

end NovaKV
