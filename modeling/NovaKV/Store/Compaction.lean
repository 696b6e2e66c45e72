import NovaKV.Lib.Unordered
import NovaKV.Store.Disk

open Std
open NovaKV.Lib

namespace NovaKV

/-- A memtable: the number of the log it appends to, and its ordered records. -/
structure MemTable where
  wal : Nat
  table : ExtTreeMap Key ValueRecord

def MemTable.new (wal : Nat) : FileM MemTable := do
  Program.emit (.create_wal wal)
  return { wal := wal, table := ∅ }

/-- The record is logged before the table changes. -/
def MemTable.put (self : MemTable) (key : Key) (record : ValueRecord) : FileM MemTable := do
  Program.emit (.append_wal self.wal (key, record))
  return { self with table := self.table.insert key record }

def MemTable.apply_without_wal (self : MemTable) (key : Key) (record : ValueRecord) : MemTable :=
  { self with table := self.table.insert key record }

def MemTable.get (self : MemTable) (key : Key) : Option ValueRecord := self.table[key]?

def MemTable.count (self : MemTable) : Nat := self.table.size

/-- The manifest and the open tables of both levels, oldest first: the state that
`DBImpl`, `CompactionEngine` and `RecoveryLoader` share. -/
structure Levels where
  manifest : ManifestManager Nat
  l0 : List SSTableReader
  l1 : List SSTableReader

def Levels.search (self : Levels) (key : Key) : Option ValueRecord := search_levels self.l0 self.l1 key

/-- `MinorCtx`. The memtable being flushed is no longer written, so its contents
at preparation are its contents when the table is built. -/
structure MinorCtx where
  flushing_imm : MemTable
  old_wal_id : Nat
  new_sst_id : Nat

/-- `L0ToL1Ctx`. An absent `new_sst_id` is the empty `new_sst_path`. -/
structure L0ToL1Ctx where
  merged_l0_records : ExtTreeMap Key ValueRecord
  output_records : ExtTreeMap Key ValueRecord
  l0_input_ids : List Nat
  expected_l0_reader_count : Nat
  new_sst_id : Option Nat
  has_output : Bool

/-- `HasVisibleValueInL1`. -/
def has_visible_value_in_l1 (l1 : List SSTableReader) (key : Key) : Bool :=
  match search_level l1 key with
  | some record => record.type == .kValue
  | none => false

/-- The record that compaction writes for a merged one: a deletion is kept, with
an empty value, only while it hides a value of level 1. -/
def output_record (l1 : List SSTableReader) (key : Key) (record : ValueRecord) : Option ValueRecord :=
  match record.type with
  | .kValue => some record
  | .kDeletion => if has_visible_value_in_l1 l1 key then some ⟨.kDeletion, []⟩ else none

def output_records (l1 : List SSTableReader) (merged : ExtTreeMap Key ValueRecord) :
    ExtTreeMap Key ValueRecord :=
  merged.filterMap fun key record => output_record l1 key record

/-- The tables that the manifest assigns to level 0, in the order in which the
hash map happens to list them. -/
def l0_ids (order : IterationOrder (Nat × UInt32)) (state : ManifestState Nat) : List Nat :=
  (order.list state.sst_levels.toList).filterMap fun (id, level) => if level = 0 then some id else none

/-- `PrepareL0ToL1`. -/
def Levels.prepare_l0_to_l1 (self : Levels) (order : IterationOrder (Nat × UInt32)) :
    FileM (Levels × Option L0ToL1Ctx) :=
  if self.l0 = [] then return (self, none)
  else
    let merged := merge_records self.l0
    let ids := l0_ids order self.manifest.state
    if ids.length ≠ self.l0.length then return (self, none)
    else if merged.isEmpty then
      return (self, some
        { merged_l0_records := merged, output_records := ∅, l0_input_ids := ids
          expected_l0_reader_count := self.l0.length, new_sst_id := none, has_output := false })
    else do
      let manifest ← perform (self.manifest.allocate_file_number {})
      let output := output_records self.l1 merged
      return ({ self with manifest := manifest }, some
        { merged_l0_records := merged, output_records := output, l0_input_ids := ids
          expected_l0_reader_count := self.l0.length
          new_sst_id := some manifest.state.next_file_number, has_output := !output.isEmpty })

/-- Write a complete table file, replacing a stale one, and open it. With `ok`
false the new file cannot be opened and is removed again. -/
def write_sst (id : Nat) (table : SSTable) (ok : Bool) : FileM (Option SSTableReader) := do
  let disk ← Program.read
  if id ∈ disk.ssts then Program.emit (.remove_sst id)
  Program.emit (.create_sst id table)
  match if ok then SSTableReader.open id table else none with
  | some reader => return some reader
  | none =>
    Program.emit (.remove_sst id)
    return none

theorem write_sst_returns {id : Nat} {table : SSTable} (h : table.records ≠ []) :
    (write_sst id table true).Returns fun reader => reader.isSome = true := by
  refine .seq fun disk => ?_
  simp only [if_true, SSTableReader.open_of_nonempty h]
  split
  · exact .seq fun _ => .seq fun _ => .pure rfl
  · exact .seq fun _ => .pure rfl

/-- `BuildMinorSST`. -/
def build_minor_sst (ctx : MinorCtx) (ok : Bool) : FileM (Option SSTableReader) :=
  write_sst ctx.new_sst_id (.of_map ctx.flushing_imm.table) ok

/-- `BuildL0ToL1SST`. -/
def build_l0_to_l1_sst (ctx : L0ToL1Ctx) (ok : Bool) : FileM (Option SSTableReader) :=
  if !ctx.has_output then return none
  else match ctx.new_sst_id with
    | none => return none
    | some id => write_sst id (.of_map ctx.output_records) ok

theorem build_l0_to_l1_sst_eq_write {ctx : L0ToL1Ctx} {ok : Bool} {id : Nat} (hhas : ctx.has_output = true)
    (hid : ctx.new_sst_id = some id) :
    build_l0_to_l1_sst ctx ok = write_sst id (.of_map ctx.output_records) ok := by
  simp [build_l0_to_l1_sst, hhas, hid]

theorem build_l0_to_l1_sst_without_id {ctx : L0ToL1Ctx} {ok : Bool} (hid : ctx.new_sst_id = none) :
    build_l0_to_l1_sst ctx ok = pure none := by
  simp [build_l0_to_l1_sst, hid]

/-- The loop of `consume_l0`: each input leaves the manifest before its file is
removed. -/
def consume_l0 (manifest : ManifestManager Nat) : List Nat → FileM (ManifestManager Nat)
  | [] => return manifest
  | id :: ids => do
    let manifest ← perform (manifest.remove_sst {} id)
    Program.emit (.remove_sst id)
    consume_l0 manifest ids

/-- Whether the level 0 that a compaction was prepared from is still the current one. -/
def Levels.inputs_unchanged (self : Levels) (ctx : L0ToL1Ctx) : Bool :=
  self.l0.length == ctx.expected_l0_reader_count &&
    ctx.l0_input_ids.mergeSort == (l0_ids .forward self.manifest.state).mergeSort

/-- `InstallL0ToL1`, with whether it succeeded. -/
def Levels.install_l0_to_l1 (self : Levels) (ctx : L0ToL1Ctx) (reader : Option SSTableReader) :
    FileM (Levels × Bool) :=
  if !self.inputs_unchanged ctx then return (self, false)
  else if ctx.merged_l0_records.isEmpty || !ctx.has_output then do
    let manifest ← consume_l0 self.manifest ctx.l0_input_ids
    return ({ self with manifest := manifest, l0 := [] }, true)
  else match reader with
    | none => return (self, false)
    | some reader => do
      let manifest ← perform (self.manifest.add_sst {} (ctx.new_sst_id.getD 0) 1)
      let manifest ← consume_l0 manifest ctx.l0_input_ids
      return ({ manifest := manifest, l0 := [], l1 := self.l1 ++ [reader] }, true)

section

variable {levels : Levels} {ctx : L0ToL1Ctx} {reader : Option SSTableReader}

theorem Levels.install_of_changed (hchanged : levels.inputs_unchanged ctx = false) :
    levels.install_l0_to_l1 ctx reader = pure (levels, false) := by
  simp [Levels.install_l0_to_l1, hchanged]

/-- Without an output the inputs are only removed. -/
theorem Levels.install_without_output (hunchanged : levels.inputs_unchanged ctx = true)
    (hempty : ctx.merged_l0_records.isEmpty = true ∨ ctx.has_output = false) :
    levels.install_l0_to_l1 ctx reader = do
      let manifest ← consume_l0 levels.manifest ctx.l0_input_ids
      return ({ levels with manifest := manifest, l0 := [] }, true) := by
  have hbranch : (ctx.merged_l0_records.isEmpty || !ctx.has_output) = true := by simpa using hempty
  simp only [Levels.install_l0_to_l1, hunchanged, hbranch, Bool.not_true, Bool.false_eq_true, if_false, if_true]

theorem Levels.install_without_reader (hmerged : ctx.merged_l0_records.isEmpty = false)
    (hhas : ctx.has_output = true) : levels.install_l0_to_l1 ctx none = pure (levels, false) := by
  simp [Levels.install_l0_to_l1, hmerged, hhas]

/-- The output is listed before the inputs are removed. -/
theorem Levels.install_with_reader {reader : SSTableReader} (hunchanged : levels.inputs_unchanged ctx = true)
    (hmerged : ctx.merged_l0_records.isEmpty = false) (hhas : ctx.has_output = true) :
    levels.install_l0_to_l1 ctx (some reader) = do
      let manifest ← perform (levels.manifest.add_sst {} (ctx.new_sst_id.getD 0) 1)
      let manifest ← consume_l0 manifest ctx.l0_input_ids
      return ({ manifest := manifest, l0 := [], l1 := levels.l1 ++ [reader] }, true) := by
  simp [Levels.install_l0_to_l1, hunchanged, hmerged, hhas]

end

end NovaKV
