import NovaKV.Lib.CrashHoare
import NovaKV.Manifest.Manager
import NovaKV.Store.Table

open Std
open NovaKV.Lib

namespace NovaKV

/-- One logged operation of a memtable. -/
abbrev WalRecord := Key × ValueRecord

/-- The files of a database directory. The manifest is a snapshot and the edits
logged after it; logs and tables are named by their numbers. `written` is a
history variable: every record ever appended to a log, oldest first. No
operation reads it. -/
structure Disk where
  manifest : Option (ManifestState Nat)
  log : List (ManifestEdit Nat)
  wals : ExtTreeMap Nat (List WalRecord)
  ssts : ExtTreeMap Nat SSTable
  written : List WalRecord

def Disk.empty : Disk := { manifest := none, log := [], wals := ∅, ssts := ∅, written := [] }

/-- One file effect. -/
inductive DiskEffect where
  | manifest (effect : ManifestEffect Nat)
  | create_wal (id : Nat)
  | append_wal (id : Nat) (record : WalRecord)
  | remove_wal (id : Nat)
  | create_sst (id : Nat) (table : SSTable)
  | remove_sst (id : Nat)

/-- Opening a log in append mode keeps the records it already has. -/
def Disk.apply (self : Disk) : DiskEffect → Disk
  | .manifest (.append_edit edit) => { self with log := self.log ++ [edit] }
  | .manifest (.rename_snapshot snapshot) => { self with manifest := some snapshot }
  | .manifest .truncate_log => { self with log := [] }
  | .create_wal id => { self with wals := self.wals.insertIfNew id [] }
  | .append_wal id record =>
    { self with
      wals := self.wals.insert id (self.wals[id]?.getD [] ++ [record])
      written := self.written ++ [record] }
  | .remove_wal id => { self with wals := self.wals.erase id }
  | .create_sst id table => { self with ssts := self.ssts.insert id table }
  | .remove_sst id => { self with ssts := self.ssts.erase id }

instance : Effect DiskEffect Disk := ⟨Disk.apply⟩

/-- Code that works on a database directory. -/
abbrev FileM := Program Disk DiskEffect

/-- The manifest state that loading the snapshot and replaying the log yields. -/
def Disk.recovered (self : Disk) : ManifestState Nat :=
  (self.manifest.getD .initial).apply_edits self.log

/-- Run the file effects of a manifest operation. -/
def perform {α : Type} (outcome : α × List (ManifestEffect Nat)) : FileM α :=
  fun _ => (outcome.1, outcome.2.map DiskEffect.manifest)

/-- Record one edit: change the state in memory and run the file effects. -/
def ManifestManager.commit (self : ManifestManager Nat) (edit : ManifestEdit Nat) :
    ManifestManager Nat × List (ManifestEffect Nat) :=
  { self with state := self.state.apply_edit edit }.record_edit {} edit

theorem ManifestManager.allocate_file_number_eq_commit (self : ManifestManager Nat) :
    self.allocate_file_number {} =
      self.commit (.SetNextFileNumber (self.state.next_file_number + 1)) := rfl

theorem ManifestManager.add_wal_eq_commit {self : ManifestManager Nat} {id : Nat}
    (h : id ∉ self.state.live_wals) : self.add_wal {} id = self.commit (.AddWAL id) := by
  simp only [add_wal, h, if_false]
  rfl

theorem ManifestManager.remove_wal_eq_commit {self : ManifestManager Nat} {id : Nat}
    (h : id ∈ self.state.live_wals) : self.remove_wal {} id = self.commit (.DelWAL id) := by
  simp only [remove_wal, h, if_true]
  rfl

@[simp] theorem ManifestManager.commit_state (self : ManifestManager Nat) (edit : ManifestEdit Nat) :
    (self.commit edit).1.state = self.state.apply_edit edit :=
  (record_edit_effects _ {} edit rfl).1

end NovaKV
