import NovaKV.Lib.SortedMap
import NovaKV.Store.Files
import NovaKV.Store.Levels
import NovaKV.Store.Merge

open Std
open NovaKV.Lib

namespace NovaKV

/-- A directory holds two levels: the manifest lists them, the table files exist,
and no file has a number that is still to be allocated. -/
structure Files.Holds (files : Files) (l0 l1 : List SSTableReader) : Prop where
  lists : files.state.Lists l0 l1
  tables : ∀ r ∈ l0 ++ l1, files.ssts[r.file_number]? = some r.table
  ssts_le : ∀ id ∈ files.ssts, id ≤ files.state.next_file_number
  wals_le : ∀ id ∈ files.wals, id ≤ files.state.next_file_number

/-- The levels in memory are the ones that the directory holds. -/
structure Levels.Stored (levels : Levels) (files : Files) : Prop where
  snapshot : files.snapshot = true
  synced : files.state = levels.manifest.state
  holds : files.Holds levels.l0 levels.l1

/-- The number a compaction reserved for its output. -/
def L0ToL1Ctx.new_id (self : L0ToL1Ctx) : Nat := self.new_sst_id.getD 0

/-- A compaction in progress. Its inputs were the level 0 of some moment; if they
still are, its output is what compacting the current levels gives and belongs on
top of level 1. -/
structure CompactCall.Ok (call : CompactCall) (levels : Levels) (files : Files) : Prop where
  inputs : call.ctx.l0_input_ids ≠ []
  inputs_le : ∀ id ∈ call.ctx.l0_input_ids, id ≤ files.state.next_file_number
  new_sst_id : call.ctx.new_sst_id = some call.ctx.new_id
  merged : call.ctx.merged_l0_records.isEmpty = false
  has_output : call.ctx.has_output = !call.ctx.output_records.isEmpty
  current : call.ctx.l0_input_ids.Perm (levels.l0.map SSTableReader.file_number) →
    call.ctx.output_records = output_records levels.l1 (merge_records levels.l0) ∧
      ∀ r ∈ levels.l1, r.file_number < call.ctx.new_id
  reader : ∀ reader, call.reader = some reader →
    (reader = none ∧ call.ctx.has_output = false) ∨
      ∃ r, reader = some r ∧ r.file_number = call.ctx.new_id ∧
        r.table = .of_map call.ctx.output_records ∧ call.ctx.has_output = true ∧
        files.ssts[call.ctx.new_id]? = some r.table

/-- A flush past its preparation: it flushes the immutable memtable into a table
newer than all of level 0, which no compaction has for an input. -/
structure MinorCtx.Ok (ctx : MinorCtx) (imm : Option MemTable) (imm_wal_id : Nat)
    (l0 : List SSTableReader) (calls : List CompactCall) : Prop where
  imm : imm = some ctx.flushing_imm
  old_wal_id : ctx.old_wal_id = imm_wal_id
  newest : ∀ r ∈ l0, r.file_number < ctx.new_sst_id
  no_input : ∀ call ∈ calls, ctx.new_sst_id ∉ call.ctx.l0_input_ids

def Flusher.Ok (self : Flusher) (imm : Option MemTable) (imm_wal_id : Nat)
    (l0 : List SSTableReader) (calls : List CompactCall) (ssts : ExtTreeMap Nat SSTable) : Prop :=
  match self with
  | .prepared ctx => ctx.Ok imm imm_wal_id l0 calls
  | .built ctx reader => ctx.Ok imm imm_wal_id l0 calls ∧
    ∃ r, reader = some r ∧ r.file_number = ctx.new_sst_id ∧
      r.table = .of_map ctx.flushing_imm.table ∧ ssts[ctx.new_sst_id]? = some r.table
  | _ => True

def Flusher.reserved : Flusher → List Nat
  | .prepared ctx => [ctx.new_sst_id]
  | .built ctx _ => [ctx.new_sst_id]
  | _ => []

/-- The numbers allocated for tables that are not installed yet. -/
def reserved (flusher : Flusher) (calls : List CompactCall) : List Nat :=
  flusher.reserved ++ calls.map (·.ctx.new_id)

/-- What holds of flushes and compactions between the steps of a session. -/
structure Working (levels : Levels) (imm : Option MemTable) (imm_wal_id : Nat) (flusher : Flusher)
    (calls : List CompactCall) (files : Files) : Prop where
  stored : levels.Stored files
  flush : flusher.Ok imm imm_wal_id levels.l0 calls files.ssts
  compactions : ∀ call ∈ calls, call.Ok levels files
  distinct : (reserved flusher calls).Nodup
  reserved_le : ∀ id ∈ reserved flusher calls, id ≤ files.state.next_file_number
  unlisted : ∀ id ∈ reserved flusher calls, id ∉ files.state.sst_levels
  imm_nonempty : ∀ memtable, imm = some memtable → memtable.table.isEmpty = false

abbrev DBImpl.Working (self : DBImpl) (files : Files) : Prop :=
  NovaKV.Working self.levels self.imm self.imm_wal_id self.flusher self.calls files

section

variable {levels : Levels} {imm : Option MemTable} {imm_wal_id : Nat} {flusher : Flusher}
  {calls : List CompactCall} {files : Files} {l0 l1 : List SSTableReader}

theorem Files.Holds.set_state {state : ManifestState Nat} (h : files.Holds l0 l1)
    (hlevels : state.sst_levels = files.state.sst_levels)
    (hnext : files.state.next_file_number ≤ state.next_file_number) :
    { files with state := state }.Holds l0 l1 where
  lists := h.lists.congr hlevels hnext
  tables := h.tables
  ssts_le id hid := (h.ssts_le id hid).trans hnext
  wals_le id hid := (h.wals_le id hid).trans hnext

theorem Files.Holds.set_wals {wals : ExtTreeMap Nat (List WalRecord)} {written : List WalRecord}
    (h : files.Holds l0 l1) (hwals : ∀ id ∈ wals, id ≤ files.state.next_file_number) :
    { files with wals := wals, written := written }.Holds l0 l1 :=
  { h with wals_le := hwals }

theorem Files.Holds.listed (h : files.Holds l0 l1) {r : SSTableReader} (hr : r ∈ l0 ++ l1) :
    r.file_number ∈ files.state.sst_levels := by
  rw [h.lists.mem_iff]
  rcases List.mem_append.mp hr with hr | hr
  · exact .inl (List.mem_map_of_mem hr)
  · exact .inr (List.mem_map_of_mem hr)

theorem Files.Holds.insert_sst {id : Nat} {table : SSTable} (h : files.Holds l0 l1)
    (hunlisted : id ∉ files.state.sst_levels) (hid : id ≤ files.state.next_file_number) :
    { files with ssts := files.ssts.insert id table }.Holds l0 l1 where
  lists := h.lists
  tables r hr := by
    have hne : id ≠ r.file_number := fun heq => hunlisted (heq ▸ h.listed hr)
    simp [ExtTreeMap.getElem?_insert, hne, h.tables r hr]
  ssts_le other hother := by
    rw [ExtTreeMap.mem_insert] at hother
    rcases hother with heq | hmem
    · rwa [← LawfulEqCmp.eq_of_compare heq]
    · exact h.ssts_le other hmem
  wals_le := h.wals_le

theorem Files.Holds.erase_sst {id : Nat} (h : files.Holds l0 l1)
    (hunlisted : id ∉ files.state.sst_levels) :
    { files with ssts := files.ssts.erase id }.Holds l0 l1 where
  lists := h.lists
  tables r hr := by
    have hne : id ≠ r.file_number := fun heq => hunlisted (heq ▸ h.listed hr)
    simp [ExtTreeMap.getElem?_erase, hne, h.tables r hr]
  ssts_le other hother := h.ssts_le other (ExtTreeMap.mem_of_mem_erase hother)
  wals_le := h.wals_le

/-- The manifest edit that installs a flushed table. -/
theorem Files.Holds.add_l0 {reader : SSTableReader} (h : files.Holds l0 l1)
    (hnewest : ∀ r ∈ l0, r.file_number < reader.file_number)
    (hunlisted : reader.file_number ∉ files.state.sst_levels)
    (hfile : files.ssts[reader.file_number]? = some reader.table) :
    (files.commit (.AddSST reader.file_number 0)).Holds (l0 ++ [reader]) l1 where
  lists := by
    refine h.lists.add_l0 hnewest ?_ (h.ssts_le _ (by simp [ExtTreeMap.mem_iff_isSome_getElem?, hfile]))
    intro r hr heq
    exact hunlisted (heq ▸ h.listed (List.mem_append_right _ hr))
  tables r hr := by
    simp only [List.append_assoc, List.singleton_append, List.mem_append, List.mem_cons] at hr
    rcases hr with hr | rfl | hr
    · exact h.tables r (List.mem_append_left _ hr)
    · exact hfile
    · exact h.tables r (List.mem_append_right _ hr)
  ssts_le := h.ssts_le
  wals_le := h.wals_le

/-- `PrepareL0ToL1` finds as many ids as readers. -/
theorem Levels.Stored.l0_ids_length (h : levels.Stored files) (order : IterationOrder (Nat × UInt32)) :
    (l0_ids order levels.manifest.state).length = levels.l0.length := by
  have hperm := h.holds.lists.l0_ids_perm order
  rw [h.synced] at hperm
  rw [hperm.length_eq, List.length_map]

theorem CompactCall.Ok.mono {call : CompactCall} {levels levels' : Levels} {files' : Files}
    (h : call.Ok levels files)
    (hnext : files.state.next_file_number ≤ files'.state.next_file_number)
    (hlevels : call.ctx.l0_input_ids.Perm (levels'.l0.map SSTableReader.file_number) →
      levels'.l0 = levels.l0 ∧ levels'.l1 = levels.l1)
    (hssts : call.reader.isSome → files'.ssts[call.ctx.new_id]? = files.ssts[call.ctx.new_id]?) :
    call.Ok levels' files' where
  inputs := h.inputs
  inputs_le id hid := (h.inputs_le id hid).trans hnext
  new_sst_id := h.new_sst_id
  merged := h.merged
  has_output := h.has_output
  current hperm := by
    obtain ⟨h0, h1⟩ := hlevels hperm
    rw [h0] at hperm
    rw [h0, h1]
    exact h.current hperm
  reader reader hreader := by
    rw [hssts (by simp [hreader])]
    exact h.reader reader hreader

/-- A manifest edit that changes no level. -/
theorem Working.set_manifest {manifest : ManifestManager Nat} {state : ManifestState Nat}
    (h : Working levels imm imm_wal_id flusher calls files) (hmanifest : state = manifest.state)
    (hlevels : state.sst_levels = files.state.sst_levels)
    (hnext : files.state.next_file_number ≤ state.next_file_number) :
    Working { levels with manifest := manifest } imm imm_wal_id flusher calls
      { files with state := state } where
  stored :=
    { snapshot := h.stored.snapshot
      synced := hmanifest
      holds := h.stored.holds.set_state hlevels hnext }
  flush := h.flush
  compactions call hcall := (h.compactions call hcall).mono hnext (fun _ => ⟨rfl, rfl⟩) fun _ => rfl
  distinct := h.distinct
  reserved_le id hid := (h.reserved_le id hid).trans hnext
  unlisted := by rw [hlevels]; exact h.unlisted
  imm_nonempty := h.imm_nonempty

theorem Working.allocated {manifest : ManifestManager Nat}
    (h : Working levels imm imm_wal_id flusher calls files)
    (hmanifest : files.allocated.state = manifest.state) :
    Working { levels with manifest := manifest } imm imm_wal_id flusher calls files.allocated :=
  h.set_manifest hmanifest rfl (Nat.le_succ _)

/-- Changes of the logs alone. -/
theorem Working.set_wals (h : Working levels imm imm_wal_id flusher calls files)
    (wals : ExtTreeMap Nat (List WalRecord)) (written : List WalRecord)
    (hwals : ∀ id ∈ wals, id ≤ files.state.next_file_number) :
    Working levels imm imm_wal_id flusher calls { files with wals := wals, written := written } where
  stored := ⟨h.stored.snapshot, h.stored.synced, h.stored.holds.set_wals hwals⟩
  flush := h.flush
  compactions call hcall := (h.compactions call hcall).mono (Nat.le_refl _) (fun _ => ⟨rfl, rfl⟩) fun _ => rfl
  distinct := h.distinct
  reserved_le := h.reserved_le
  unlisted := h.unlisted
  imm_nonempty := h.imm_nonempty

/-- A memtable with records becomes the immutable one. -/
theorem Working.set_imm {memtable : MemTable} {imm_wal_id' : Nat}
    (h : Working levels none imm_wal_id flusher calls files) (hnonempty : 0 < memtable.count) :
    Working levels (some memtable) imm_wal_id' flusher calls files where
  stored := h.stored
  flush := by
    have hflusher := h.flush
    cases flusher with
    | prepared ctx => exact absurd hflusher.imm (by simp)
    | built ctx reader => exact absurd hflusher.1.imm (by simp)
    | _ => trivial
  compactions := h.compactions
  distinct := h.distinct
  reserved_le := h.reserved_le
  unlisted := h.unlisted
  imm_nonempty := by
    rintro _ ⟨⟩
    rw [ExtTreeMap.isEmpty_eq_size_beq_zero, beq_eq_false_iff_ne]
    exact Nat.ne_of_gt hnonempty

/-- The flusher moves to a phase without a table of its own. -/
theorem Working.set_flusher {flusher' : Flusher}
    (h : Working levels imm imm_wal_id flusher calls files)
    (hok : flusher'.Ok imm imm_wal_id levels.l0 calls files.ssts) (hreserved : flusher'.reserved = []) :
    Working levels imm imm_wal_id flusher' calls files where
  stored := h.stored
  flush := hok
  compactions := h.compactions
  distinct := by
    have hdistinct := h.distinct
    rw [reserved, List.nodup_append] at hdistinct
    simpa [reserved, hreserved] using hdistinct.2.1
  reserved_le id hid := by
    rw [reserved, hreserved, List.nil_append] at hid
    exact h.reserved_le id (List.mem_append_right _ hid)
  unlisted id hid := by
    rw [reserved, hreserved, List.nil_append] at hid
    exact h.unlisted id (List.mem_append_right _ hid)
  imm_nonempty := h.imm_nonempty

/-- A new table file under a number that is allocated but not listed. -/
theorem Working.insert_sst {id : Nat} {table : SSTable} {flusher' : Flusher}
    (h : Working levels imm imm_wal_id flusher calls files)
    (hunlisted : id ∉ files.state.sst_levels) (hid : id ≤ files.state.next_file_number)
    (hok : flusher'.Ok imm imm_wal_id levels.l0 calls (files.ssts.insert id table))
    (hreserved : flusher'.reserved = flusher.reserved)
    (hcalls : ∀ call ∈ calls, call.reader.isSome → call.ctx.new_id ≠ id) :
    Working levels imm imm_wal_id flusher' calls { files with ssts := files.ssts.insert id table } where
  stored := ⟨h.stored.snapshot, h.stored.synced, h.stored.holds.insert_sst hunlisted hid⟩
  flush := hok
  compactions call hcall := by
    refine (h.compactions call hcall).mono (Nat.le_refl _) (fun _ => ⟨rfl, rfl⟩) fun hreader => ?_
    simp [ExtTreeMap.getElem?_insert, Ne.symm (hcalls call hcall hreader)]
  distinct := by
    rw [reserved, hreserved]
    exact h.distinct
  reserved_le := by
    rw [reserved, hreserved]
    exact h.reserved_le
  unlisted := by
    rw [reserved, hreserved]
    exact h.unlisted
  imm_nonempty := h.imm_nonempty

end

end NovaKV
