import NovaKV.Store.DBImpl

open Std
open NovaKV.Lib

namespace NovaKV

/-- A file number stored in an `int`. -/
def to_int (id : Nat) : Int := (BitVec.ofNat 32 id).toInt

/-- An `int` passed on as a 64-bit file number. -/
def of_int (id : Int) : Nat := (BitVec.ofInt 64 id).toNat

/-- `InitNextFileNumberFromDisk`: the greatest number of a log or table file.
`std::stoi` throws on a number that is no `int`. -/
def init_next_file_number_from_disk (disk : Disk) : Option Nat :=
  let ids := disk.ssts.keys ++ disk.wals.keys
  if ids.any (2 ^ 31 ≤ ·) then none else some (ids.foldl max 0)

/-- `Load`, or the first snapshot of a directory without one, then `ReplayLog`. -/
def load_manifest : FileM (Option (ManifestManager Nat)) := do
  let disk ← Program.read
  match disk.manifest with
  | some snapshot =>
    return some { state := snapshot.apply_edits disk.log, edits_since_checkpoint := 0 }
  | none =>
    match init_next_file_number_from_disk disk with
    | none => return none
    | some next =>
      let state : ManifestState Nat := { ManifestState.initial with next_file_number := next }
      let manager : ManifestManager Nat := { state := state, edits_since_checkpoint := 0 }
      let _ ← perform (manager.persist {})
      return some { manager with state := state.apply_edits disk.log }

/-- Open the files that the manifest lists for one level, in order of their numbers. -/
def level_readers (ssts : ExtTreeMap Nat SSTable) (state : ManifestState Nat) (level : UInt32) :
    List SSTableReader :=
  state.sst_levels.toList.filterMap fun (id, l) =>
    if l = level then ssts[id]?.bind (SSTableReader.open id) else none

/-- The order of the pairs of an `int` and a path. -/
def scan_le (a b : Nat) : Bool :=
  to_int a < to_int b ||
    (to_int a == to_int b && decide (toString a ++ ".sst" ≤ toString b ++ ".sst"))

/-- Every table file that opens, when the manifest lists none. -/
def scanned_readers (ssts : ExtTreeMap Nat SSTable) : List SSTableReader :=
  (ssts.keys.mergeSort scan_le).filterMap fun id => ssts[id]?.bind (SSTableReader.open id)

/-- `LoadSSTables`. -/
def load_sstables (manifest : ManifestManager Nat) : FileM Levels := do
  let disk ← Program.read
  if !manifest.state.sst_levels.isEmpty then
    return {
      manifest := manifest
      l0 := level_readers disk.ssts manifest.state 0
      l1 := level_readers disk.ssts manifest.state 1 }
  else
    let readers := scanned_readers disk.ssts
    let sst_levels := readers.foldl (fun levels reader =>
      levels.insert (of_int (to_int reader.file_number)) 0) manifest.state.sst_levels
    let manifest := { manifest with state := { manifest.state with sst_levels := sst_levels } }
    if !sst_levels.isEmpty then
      let _ ← perform (manifest.persist {})
    return { manifest := manifest, l0 := readers, l1 := [] }

/-- Register every log found in the directory. -/
def add_wals (manifest : ManifestManager Nat) : List Nat → FileM (ManifestManager Nat)
  | [] => return manifest
  | id :: ids => do
    let manifest ← perform (manifest.add_wal {} id)
    add_wals manifest ids

/-- `RecoverFromWals`: the live logs are replayed in order of their numbers, those
without a file skipped. -/
def recover_from_wals (manifest : ManifestManager Nat) (mem : MemTable) (order : IterationOrder Nat) :
    FileM (ManifestManager Nat × MemTable) := do
  let disk ← Program.read
  let manifest ← add_wals manifest (order.list disk.wals.keys)
  let disk ← Program.read
  let records := manifest.state.live_wals.toList.flatMap fun id => disk.wals[id]?.getD []
  return (manifest, records.foldl (fun mem record => mem.apply_without_wal record.1 record.2) mem)

/-- The constructor. There is no database when it throws. -/
def DBImpl.open (order : IterationOrder Nat) : FileM (Option DBImpl) := do
  match ← load_manifest with
  | none => return none
  | some manifest =>
    let levels ← load_sstables manifest
    let manifest ← perform (levels.manifest.allocate_file_number {})
    let new_wal_id := manifest.state.next_file_number
    let mem ← MemTable.new new_wal_id
    let manifest ← perform (manifest.add_wal {} new_wal_id)
    let (manifest, mem) ← recover_from_wals manifest mem order
    return some
      { levels := { levels with manifest := manifest }
        mem := some mem
        imm := none
        active_wal_id := new_wal_id
        imm_wal_id := 0
        bg_stopped := false
        bg_compaction_scheduled := false
        bg := .waiting
        flusher := .idle
        writer := none
        calls := [] }

/-- Open a database on a directory. -/
def System.open (order : IterationOrder Nat) (disk : Disk) : Option System :=
  ((DBImpl.open order) disk).1.map fun db => { db := db, disk := (DBImpl.open order).final disk }

/-- The background thread of a new database waits and no call is under way. -/
structure DBImpl.Opened (db : DBImpl) : Prop where
  mem : db.mem.isSome
  imm : db.imm = none
  bg_stopped : db.bg_stopped = false
  bg_compaction_scheduled : db.bg_compaction_scheduled = false
  bg : db.bg = .waiting
  flusher : db.flusher = .idle
  writer : db.writer = none
  calls : db.calls = []

theorem System.open_opened {order : IterationOrder Nat} {disk : Disk} {start : System}
    (hopen : System.open order disk = some start) : start.db.Opened := by
  have hreturns : (DBImpl.open order).Returns fun result => ∀ db, result = some db → db.Opened := by
    refine .seq ?_
    intro manifest
    cases manifest with
    | none => exact .pure nofun
    | some manifest =>
      refine .seq fun levels => .seq fun manifest => .seq fun mem => .seq fun manifest => .seq fun result => ?_
      refine .pure ?_
      rintro _ ⟨⟩
      exact ⟨rfl, rfl, rfl, rfl, rfl, rfl, rfl, rfl⟩
  obtain ⟨db, hdb, rfl⟩ := Option.map_eq_some_iff.mp hopen
  exact hreturns disk db hdb

end NovaKV
