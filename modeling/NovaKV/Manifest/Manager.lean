import NovaKV.Manifest.State

open Std

namespace NovaKV

/-- `kManifestCheckpointThreshold`. -/
def kManifestCheckpointThreshold : UInt32 := 100

structure ManifestManager (ι : Type) [Ord ι] where
  state : ManifestState ι
  edits_since_checkpoint : UInt32

/-- A file effect of the manager: one record appended to `MANIFEST.log`, a
complete snapshot renamed over `MANIFEST`, or `MANIFEST.log` emptied. -/
inductive ManifestEffect (ι : Type) [Ord ι] where
  | append_edit (edit : ManifestEdit ι)
  | rename_snapshot (snapshot : ManifestState ι)
  | truncate_log

/-- Outcomes of the file operations that recording one edit may attempt. -/
structure EditIo where
  append_ok : Bool := true
  persist_ok : Bool := true
  truncate_ok : Bool := true

section

variable {ι : Type} [Ord ι] [TransOrd ι]

def ManifestManager.persist (self : ManifestManager ι) (io : EditIo) :
    Bool × List (ManifestEffect ι) :=
  if io.persist_ok then (true, [.rename_snapshot self.state]) else (false, [])

def ManifestManager.truncate_log (io : EditIo) : Bool × List (ManifestEffect ι) :=
  if io.truncate_ok then (true, [.truncate_log]) else (false, [])

def ManifestManager.maybe_checkpoint (self : ManifestManager ι) (io : EditIo) :
    ManifestManager ι × List (ManifestEffect ι) :=
  if self.edits_since_checkpoint < kManifestCheckpointThreshold then (self, [])
  else
    let (persisted, snapshot) := self.persist io
    if !persisted then (self, snapshot)
    else
      let (truncated, truncation) := truncate_log io
      if !truncated then (self, snapshot ++ truncation)
      else ({ self with edits_since_checkpoint := 0 }, snapshot ++ truncation)

/-- `RecordEdit`: append the edit, or fall back to a snapshot. The caller has
already changed the state in memory. -/
def ManifestManager.record_edit (self : ManifestManager ι) (io : EditIo) (edit : ManifestEdit ι) :
    ManifestManager ι × List (ManifestEffect ι) :=
  if !io.append_ok then (self, (self.persist io).2)
  else
    let (next, effects) :=
      { self with edits_since_checkpoint := self.edits_since_checkpoint + 1 }.maybe_checkpoint io
    (next, .append_edit edit :: effects)

def ManifestManager.allocate_file_number [Add ι] [OfNat ι 1] (self : ManifestManager ι)
    (io : EditIo) : ManifestManager ι × List (ManifestEffect ι) :=
  let next := self.state.next_file_number + 1
  { self with state := { self.state with next_file_number := next } }.record_edit io
    (.SetNextFileNumber next)

/-- `AddWal` records nothing for a log that is already live. -/
def ManifestManager.add_wal (self : ManifestManager ι) (io : EditIo) (wal_id : ι) :
    ManifestManager ι × List (ManifestEffect ι) :=
  if wal_id ∈ self.state.live_wals then (self, [])
  else { self with state := { self.state with live_wals := self.state.live_wals.insert wal_id } }
    |>.record_edit io (.AddWAL wal_id)

/-- `RemoveWal` records nothing for a log that is not live. -/
def ManifestManager.remove_wal (self : ManifestManager ι) (io : EditIo) (wal_id : ι) :
    ManifestManager ι × List (ManifestEffect ι) :=
  if wal_id ∈ self.state.live_wals then
    { self with state := { self.state with live_wals := self.state.live_wals.erase wal_id } }
      |>.record_edit io (.DelWAL wal_id)
  else (self, [])

def ManifestManager.add_sst (self : ManifestManager ι) (io : EditIo) (file_number : ι)
    (level : UInt32) : ManifestManager ι × List (ManifestEffect ι) :=
  { self with
    state := { self.state with sst_levels := self.state.sst_levels.insert file_number level } }
    |>.record_edit io (.AddSST file_number level)

def ManifestManager.remove_sst (self : ManifestManager ι) (io : EditIo) (file_number : ι) :
    ManifestManager ι × List (ManifestEffect ι) :=
  { self with state := { self.state with sst_levels := self.state.sst_levels.erase file_number } }
    |>.record_edit io (.DelSST file_number)

/-- A call of one of the recording operations. -/
inductive ManifestCall (ι : Type) where
  | allocate_file_number
  | add_wal (wal_id : ι)
  | remove_wal (wal_id : ι)
  | add_sst (file_number : ι) (level : UInt32)
  | remove_sst (file_number : ι)

def ManifestManager.call [Add ι] [OfNat ι 1] (self : ManifestManager ι) (io : EditIo) :
    ManifestCall ι → ManifestManager ι × List (ManifestEffect ι)
  | .allocate_file_number => self.allocate_file_number io
  | .add_wal id => self.add_wal io id
  | .remove_wal id => self.remove_wal io id
  | .add_sst id level => self.add_sst io id level
  | .remove_sst id => self.remove_sst io id

/-- The edit a call records in a given state, if any. -/
def ManifestCall.edit? [Add ι] [OfNat ι 1] (state : ManifestState ι) :
    ManifestCall ι → Option (ManifestEdit ι)
  | .allocate_file_number => some (.SetNextFileNumber (state.next_file_number + 1))
  | .add_wal id => if id ∈ state.live_wals then none else some (.AddWAL id)
  | .remove_wal id => if id ∈ state.live_wals then some (.DelWAL id) else none
  | .add_sst id level => some (.AddSST id level)
  | .remove_sst id => some (.DelSST id)

/-- Every recording operation applies its edit in memory and records the same
edit, or does nothing at all. -/
theorem ManifestManager.call_eq [Add ι] [OfNat ι 1] (self : ManifestManager ι) (io : EditIo)
    (call : ManifestCall ι) :
    self.call io call = match call.edit? self.state with
      | none => (self, [])
      | some edit => { self with state := self.state.apply_edit edit }.record_edit io edit := by
  cases call with
  | allocate_file_number => rfl
  | add_wal id => by_cases h : id ∈ self.state.live_wals <;>
      simp [call, add_wal, ManifestCall.edit?, ManifestState.apply_edit, h]
  | remove_wal id => by_cases h : id ∈ self.state.live_wals <;>
      simp [call, remove_wal, ManifestCall.edit?, ManifestState.apply_edit, h]
  | add_sst id level => rfl
  | remove_sst id => rfl

omit [TransOrd ι] in
/-- A successful append is the first effect; a checkpoint may add the snapshot
of the current state, and the truncation only after it. -/
theorem ManifestManager.record_edit_effects (self : ManifestManager ι) (io : EditIo)
    (edit : ManifestEdit ι) (hio : io.append_ok = true) :
    (self.record_edit io edit).1.state = self.state ∧
      ∃ rest, (self.record_edit io edit).2 = .append_edit edit :: rest ∧
        (rest = [] ∨ rest = [.rename_snapshot self.state] ∨
          rest = [.rename_snapshot self.state, .truncate_log]) := by
  simp only [record_edit, hio, maybe_checkpoint, persist, truncate_log]
  cases io.persist_ok <;> cases io.truncate_ok <;> simp <;> split <;> simp

end

end NovaKV
