import NovaKV.Format.RoundTrip
import NovaKV.Manifest.Words
import NovaKV.Memory.LogFile
import NovaKV.Store.History

open Std
open NovaKV.Lib

namespace NovaKV

/-- A logged operation with its type as the byte that stands for it. -/
def WalRecord.logged (record : WalRecord) : LogRecord := (record.2.type.to_u8, record.1, record.2.value)

def ManifestEffect.words : ManifestEffect Nat → ManifestEffect FileNumber
  | .append_edit edit => .append_edit edit.words
  | .rename_snapshot snapshot => .rename_snapshot snapshot.words
  | .truncate_log => .truncate_log

/-- Lengths fit their fields, and the file can be mapped. -/
def SSTable.Fits (table : SSTable) : Prop :=
  Format.Fits table.records ∧ (Format.sstable_file table.records).length < 2 ^ 63

instance (record : LogRecord) : Decidable record.Fits := inferInstanceAs (Decidable (_ ∧ _))

instance (table : SSTable) : Decidable table.Fits := by
  unfold SSTable.Fits Format.Fits
  infer_instance

/-- What an effect writes fits the formats of the files. -/
def DiskEffect.Fits : DiskEffect → Prop
  | .manifest (.append_edit edit) => edit.Fits
  | .manifest (.rename_snapshot snapshot) => snapshot.Fits
  | .manifest .truncate_log => True
  | .create_wal _ => True
  | .append_wal _ record => record.logged.Fits
  | .remove_wal _ => True
  | .create_sst _ table => table.Fits
  | .remove_sst _ => True

instance : DecidablePred DiskEffect.Fits
  | .manifest (.append_edit edit) => inferInstanceAs (Decidable edit.Fits)
  | .manifest (.rename_snapshot snapshot) => inferInstanceAs (Decidable snapshot.Fits)
  | .manifest .truncate_log => .isTrue trivial
  | .create_wal _ => .isTrue trivial
  | .append_wal _ record => inferInstanceAs (Decidable record.logged.Fits)
  | .remove_wal _ => .isTrue trivial
  | .create_sst _ table => inferInstanceAs (Decidable table.Fits)
  | .remove_sst _ => .isTrue trivial

/-- The files of a database directory, as bytes. -/
structure Directory where
  manifest : ManifestFiles
  wals : ExtTreeMap Nat Bytes
  ssts : ExtTreeMap Nat Bytes

namespace Directory

def empty : Directory := { manifest := ⟨none, none⟩, wals := ∅, ssts := ∅ }

/-- The bytes that a file effect leaves. A snapshot lists the logs in some order. -/
def write (self : Directory) (order : IterationOrder FileNumber) : DiskEffect → Directory
  | .manifest effect => { self with manifest := self.manifest.apply ⟨order, effect.words⟩ }
  | .create_wal id => { self with wals := self.wals.insertIfNew id [] }
  | .append_wal id record =>
    { self with wals := self.wals.insert id (self.wals[id]?.getD [] ++ record.logged.encoded) }
  | .remove_wal id => { self with wals := self.wals.erase id }
  | .create_sst id table => { self with ssts := self.ssts.insert id (Format.sstable_file table.records) }
  | .remove_sst id => { self with ssts := self.ssts.erase id }

/-- The directory after effects on an empty one. -/
def after (effects : List (IterationOrder FileNumber × DiskEffect)) : Directory :=
  effects.foldl (fun directory entry => directory.write entry.1 entry.2) empty

/-- The bytes of a directory are those of the files that a disk holds. -/
structure Stores (directory : Directory) (disk : Disk) : Prop where
  manifest : (disk.manifest = none ∧ directory.manifest.manifest = none) ∨
    ∃ snapshot order, disk.manifest = some snapshot ∧ snapshot.Fits ∧
      directory.manifest.manifest = some (persist_state order snapshot.words)
  log : directory.manifest.log.getD [] = disk.log.flatMap fun edit => edit.words.encode
  log_fits : ∀ edit ∈ disk.log, edit.Fits
  wals : ∀ id : Nat, directory.wals[id]? = disk.wals[id]?.map fun records => log_file (records.map WalRecord.logged)
  wals_fit : ∀ (id : Nat) (records : List WalRecord), disk.wals[id]? = some records →
    ∀ record ∈ records, record.logged.Fits
  ssts : ∀ id : Nat, directory.ssts[id]? = disk.ssts[id]?.map fun table => Format.sstable_file table.records
  ssts_fit : ∀ (id : Nat) (table : SSTable), disk.ssts[id]? = some table → table.Fits

end Directory

/-- What a program sees of a table file that it maps: an empty one is not opened, and
otherwise `ForEach` reports the records and `GetRecord` looks them up. -/
def SSTable.ReadBack (table : SSTable) (mem : Memory) (size : UInt64) : Prop :=
  if table.records = [] then ((Format.SSTableReader.open size).run mem).1 = some none
  else
    ∃ reader : Format.SSTableReader, ((Format.SSTableReader.open size).run mem).1 = some (some reader) ∧
      (reader.for_each.run mem).1 = some (table.records.map Format.reported) ∧
      ∀ key, ((reader.get_record key).run mem).1 = some ((table.get_record key).map ValueRecord.stored)

/-- All files are read as what a disk holds. -/
structure Directory.Reads (directory : Directory) (disk : Disk) : Prop where
  manifest : disk.manifest.isSome → ∃ manager, ManifestManager.recover directory.manifest = some manager ∧
    manager.state.Stands disk.recovered
  no_manifest : disk.manifest = none → (ManifestManager.new.load directory.manifest).1 = false
  wals : ∀ (id : Nat) (locals : Uninitialized),
    (directory.wals[id]?.map fun file => delivered locals ⟨file, true⟩) =
      disk.wals[id]?.map fun records => records.map WalRecord.logged
  ssts : ∀ id : Nat, id ∈ directory.ssts ↔ id ∈ disk.ssts
  tables : ∀ (id : Nat) (file : Bytes) (table : SSTable), directory.ssts[id]? = some file →
    disk.ssts[id]? = some table → ∀ mem, Maps mem file → table.ReadBack mem (UInt64.ofNat file.length)

section

variable {directory : Directory} {disk : Disk} {table : SSTable} {effect : DiskEffect}

/-- The file of a table without records has nothing but a footer. -/
theorem empty_file_eq : Format.sstable_file [] = Format.Footer.encode_to ⟨⟨0, 0⟩, ⟨0, 0⟩⟩ := rfl

theorem open_empty_yields :
    (Format.SSTableReader.open (UInt64.ofNat (Format.sstable_file []).length)).Yields (Format.sstable_file []) none := by
  have hlength : (Format.sstable_file []).length = 40 := by
    rw [empty_file_eq, Format.footer_length, Format.kEncodedLength]
  have hfooter : Holds (Format.sstable_file []) (0 : UInt64).toNat (Format.Footer.encode_to ⟨⟨0, 0⟩, ⟨0, 0⟩⟩) :=
    ⟨[], [], by rw [empty_file_eq]; simp, rfl⟩
  have hnothing : Holds (Format.sstable_file []) ((0 : UInt64) + 0).toNat (Format.encoded_index [] ++ []) :=
    ⟨[], Format.sstable_file [], rfl, rfl⟩
  have hentries : (Format.read_index_entries 0 0 Format.positions 0 []).Yields (Format.sstable_file []) ([] ++ []) := by
    refine Format.read_index_entries_yields (by omega) (by simp) ?_ rfl hnothing
    rw [Format.positions]
    exact Nat.two_pow_pos 64
  rw [hlength, Format.SSTableReader.open, if_neg (by decide)]
  refine (Fetch.bytes_yields hfooter (Format.footer_length _)).bind ?_
  rw [Format.decode_from_encode_to]
  refine Fetch.Yields.bind (a := none) ?_ rfl
  rw [Format.read_index_block, if_neg (by decide)]
  exact hentries.bind rfl

theorem SSTable.Fits.readBack (h : table.Fits) {mem : Memory} (hmaps : Maps mem (Format.sstable_file table.records)) :
    table.ReadBack mem (UInt64.ofNat (Format.sstable_file table.records).length) := by
  unfold SSTable.ReadBack
  obtain ⟨hfits, hsize⟩ := h
  by_cases hrecords : table.records = []
  · rw [if_pos hrecords]
    rw [hrecords] at hmaps ⊢
    exact Fetch.run_of_yields hmaps open_empty_yields
  · rw [if_neg hrecords]
    obtain ⟨reader, hopen, hwalk, hget⟩ := Format.built_table_yields table hrecords hfits hsize
    refine ⟨reader, Fetch.run_of_yields hmaps hopen, Fetch.run_of_yields hmaps hwalk, ?_⟩
    intro key
    rw [SSTable.get_record, Option.map_map]
    exact Fetch.run_of_yields hmaps (hget key)

theorem Directory.Stores.write_manifest {effect : ManifestEffect Nat} (h : directory.Stores disk)
    (order : IterationOrder FileNumber) (hfits : (DiskEffect.manifest effect).Fits) :
    (directory.write order (.manifest effect)).Stores (disk.apply (.manifest effect)) := by
  cases effect with
  | append_edit edit =>
    refine ⟨h.manifest, ?_, ?_, h.wals, h.wals_fit, h.ssts, h.ssts_fit⟩
    · have hlog := h.log
      simp only [Directory.write, ManifestEffect.words, ManifestFiles.apply, ManifestFiles.append_log, Disk.apply,
        Option.getD_some, List.flatMap_append, List.flatMap_cons, List.flatMap_nil, List.append_nil, hlog]
    · intro other hother
      rcases List.mem_append.mp hother with hold | hnew
      · exact h.log_fits other hold
      · cases List.mem_singleton.mp hnew
        exact hfits
  | rename_snapshot snapshot =>
    exact ⟨.inr ⟨snapshot, order, rfl, hfits, rfl⟩, h.log, h.log_fits, h.wals, h.wals_fit, h.ssts, h.ssts_fit⟩
  | truncate_log => exact ⟨h.manifest, rfl, by simp [Disk.apply], h.wals, h.wals_fit, h.ssts, h.ssts_fit⟩

theorem Directory.Stores.write_create_wal (h : directory.Stores disk) (order : IterationOrder FileNumber) (id : Nat) :
    (directory.write order (.create_wal id)).Stores (disk.apply (.create_wal id)) := by
  have hpresent : id ∈ directory.wals ↔ id ∈ disk.wals := by
    rw [ExtTreeMap.mem_iff_isSome_getElem?, ExtTreeMap.mem_iff_isSome_getElem?, h.wals, Option.isSome_map]
  refine ⟨h.manifest, h.log, h.log_fits, ?_, ?_, h.ssts, h.ssts_fit⟩
  · intro other
    simp only [Directory.write, Disk.apply, ExtTreeMap.getElem?_insertIfNew, h.wals, hpresent]
    split <;> rfl
  · intro other records hrecords
    rw [Disk.apply, ExtTreeMap.getElem?_insertIfNew] at hrecords
    split at hrecords
    · cases hrecords
      simp
    · exact h.wals_fit other records hrecords

theorem Directory.Stores.write_append_wal {record : WalRecord} (h : directory.Stores disk)
    (order : IterationOrder FileNumber) (id : Nat) (hfits : record.logged.Fits) :
    (directory.write order (.append_wal id record)).Stores (disk.apply (.append_wal id record)) := by
  have hold : ∀ old ∈ disk.wals[id]?.getD [], old.logged.Fits := by
    cases hrecords : disk.wals[id]? with
    | none => simp
    | some records => exact h.wals_fit id records hrecords
  refine ⟨h.manifest, h.log, h.log_fits, ?_, ?_, h.ssts, h.ssts_fit⟩
  · intro other
    have hfile : directory.wals[id]?.getD [] = log_file ((disk.wals[id]?.getD []).map WalRecord.logged) := by
      rw [h.wals]
      cases disk.wals[id]? <;> rfl
    simp only [Directory.write, Disk.apply, ExtTreeMap.getElem?_insert, hfile, h.wals other]
    split
    · simp [log_file]
    · rfl
  · intro other records hrecords
    rw [Disk.apply, ExtTreeMap.getElem?_insert] at hrecords
    split at hrecords
    · cases hrecords
      intro one hone
      rcases List.mem_append.mp hone with hbefore | hnew
      · exact hold one hbefore
      · cases List.mem_singleton.mp hnew
        exact hfits
    · exact h.wals_fit other records hrecords

theorem Directory.Stores.write_remove_wal (h : directory.Stores disk) (order : IterationOrder FileNumber) (id : Nat) :
    (directory.write order (.remove_wal id)).Stores (disk.apply (.remove_wal id)) := by
  refine ⟨h.manifest, h.log, h.log_fits, ?_, ?_, h.ssts, h.ssts_fit⟩
  · intro other
    simp only [Directory.write, Disk.apply, ExtTreeMap.getElem?_erase, h.wals]
    split <;> rfl
  · intro other records hrecords
    rw [Disk.apply, ExtTreeMap.getElem?_erase] at hrecords
    split at hrecords
    · cases hrecords
    · exact h.wals_fit other records hrecords

theorem Directory.Stores.write_create_sst (h : directory.Stores disk) (order : IterationOrder FileNumber) (id : Nat)
    (hfits : table.Fits) :
    (directory.write order (.create_sst id table)).Stores (disk.apply (.create_sst id table)) := by
  refine ⟨h.manifest, h.log, h.log_fits, h.wals, h.wals_fit, ?_, ?_⟩
  · intro other
    simp only [Directory.write, Disk.apply, ExtTreeMap.getElem?_insert, h.ssts]
    split <;> rfl
  · intro other found hfound
    rw [Disk.apply, ExtTreeMap.getElem?_insert] at hfound
    split at hfound
    · cases hfound
      exact hfits
    · exact h.ssts_fit other found hfound

theorem Directory.Stores.write_remove_sst (h : directory.Stores disk) (order : IterationOrder FileNumber) (id : Nat) :
    (directory.write order (.remove_sst id)).Stores (disk.apply (.remove_sst id)) := by
  refine ⟨h.manifest, h.log, h.log_fits, h.wals, h.wals_fit, ?_, ?_⟩
  · intro other
    simp only [Directory.write, Disk.apply, ExtTreeMap.getElem?_erase, h.ssts]
    split <;> rfl
  · intro other found hfound
    rw [Disk.apply, ExtTreeMap.getElem?_erase] at hfound
    split at hfound
    · cases hfound
    · exact h.ssts_fit other found hfound

/-- Every effect that fits leaves bytes that stand for what it does to the disk. -/
theorem Directory.Stores.write (h : directory.Stores disk) (order : IterationOrder FileNumber) (hfits : effect.Fits) :
    (directory.write order effect).Stores (disk.apply effect) := by
  cases effect with
  | manifest effect => exact h.write_manifest order hfits
  | create_wal id => exact h.write_create_wal order id
  | append_wal id record => exact h.write_append_wal order id hfits
  | remove_wal id => exact h.write_remove_wal order id
  | create_sst id table => exact h.write_create_sst order id hfits
  | remove_sst id => exact h.write_remove_sst order id

theorem Directory.empty_stores : Directory.empty.Stores Disk.empty where
  manifest := .inl ⟨rfl, rfl⟩
  log := rfl
  log_fits := by simp [Disk.empty]
  wals id := by simp [Directory.empty, Disk.empty]
  wals_fit id records hrecords := by simp [Disk.empty] at hrecords
  ssts id := by simp [Directory.empty, Disk.empty]
  ssts_fit id table htable := by simp [Disk.empty] at htable

theorem Directory.after_stores {effects : List (IterationOrder FileNumber × DiskEffect)}
    (hfits : ∀ entry ∈ effects, entry.2.Fits) :
    (Directory.after effects).Stores (applyAll Disk.empty (effects.map Prod.snd)) := by
  induction effects using List.reverseRecOn with
  | nil => exact Directory.empty_stores
  | append_singleton effects entry ih =>
    have hbefore := ih fun other hother => hfits other (List.mem_append_left _ hother)
    have hnext := hbefore.write entry.1 (hfits entry (by simp))
    unfold Directory.after
    rw [List.foldl_append, List.map_append, applyAll_append]
    exact hnext

/-- What is stored is read back. -/
theorem Directory.Stores.reads (h : directory.Stores disk) : directory.Reads disk where
  manifest hsome := by
    obtain ⟨hnone, -⟩ | ⟨snapshot, order, hsnapshot, hfits, hbytes⟩ := h.manifest
    · rw [hnone] at hsome
      cases hsome
    have hrepresents : directory.manifest.Represents (snapshot.words.apply_edits (disk.log.map ManifestEdit.words)) [] :=
      ⟨replay_record_nil, order, snapshot.words, disk.log.map ManifestEdit.words, hbytes,
        ManifestState.words_countsFit hfits, by rw [h.log]; simp [List.flatMap_map], rfl⟩
    refine ⟨_, hrepresents.recover_eq, ?_⟩
    have hrecovered : disk.recovered = snapshot.apply_edits disk.log := by
      rw [Disk.recovered, hsnapshot, Option.getD_some]
    rw [hrecovered]
    exact (ManifestState.words_stands hfits.1).apply_edits h.log_fits
  no_manifest hnone := by
    obtain ⟨-, hbytes⟩ | ⟨snapshot, order, hsnapshot, -⟩ := h.manifest
    · rw [ManifestManager.load, hbytes]
      rfl
    · cases hnone.symm.trans hsnapshot
  wals id locals := by
    rw [h.wals]
    cases hrecords : disk.wals[id]? with
    | none => rfl
    | some records =>
      have hfits : ∀ record ∈ records.map WalRecord.logged, record.Fits := by
        intro record hrecord
        obtain ⟨original, horiginal, rfl⟩ := List.mem_map.mp hrecord
        exact h.wals_fit id records hrecords original horiginal
      have hnone : delivered locals ⟨[], true⟩ = [] := delivered_of_none rfl
      have hdelivered := @delivered_log_file locals _ hfits []
      rw [hnone, List.append_nil, List.append_nil] at hdelivered
      exact congrArg some hdelivered
  ssts id := by
    rw [ExtTreeMap.mem_iff_isSome_getElem?, ExtTreeMap.mem_iff_isSome_getElem?, h.ssts, Option.isSome_map]
  tables id file table hfile htable mem hmaps := by
    rw [h.ssts, htable, Option.map_some] at hfile
    cases hfile
    exact (h.ssts_fit id table htable).readBack hmaps

/-- The effects of a history are what has made its directory. -/
theorem History.disk_eq {opening : Disk → List DiskEffect → Prop} {db : Option DBImpl} {trace : List DiskEffect}
    (h : History opening db disk trace) : disk = applyAll Disk.empty trace := by
  induction h with
  | empty => rfl
  | boot before allowed order opens ih => rw [applyAll_append, ← ih]; rfl
  | boot_crash before allowed order crash ih => rw [applyAll_append, ← ih]
  | step before program_eq ih => rw [applyAll_append, ← ih]; rfl
  | crash before program_eq crash ih => rw [applyAll_append, ← ih]
  | quit before ih => exact ih

/-- At every moment of every history, also in the midst of an opening or of an action and
after a crash there, the bytes of all files are read as what the directory holds. -/
theorem History.files_read_back {opening : Disk → List DiskEffect → Prop} {db : Option DBImpl}
    {effects : List (IterationOrder FileNumber × DiskEffect)} (h : History opening db disk (effects.map Prod.snd))
    (hfits : ∀ entry ∈ effects, entry.2.Fits) : (Directory.after effects).Reads disk := by
  rw [h.disk_eq]
  exact (Directory.after_stores hfits).reads

/-- The file effects of actions. -/
def System.effects (self : System) : List Act → List DiskEffect
  | [] => []
  | act :: acts =>
    match self.db.program act with
    | none => []
    | some program =>
      (program self.disk).2 ++ System.effects { db := (program self.disk).1, disk := program.final self.disk } acts

theorem History.run_effects {opening : Disk → List DiskEffect → Prop} {self last : System} {acts : List Act}
    {trace : List DiskEffect} (h : History opening (some self.db) self.disk trace)
    (hrun : self.run acts = some last) : History opening (some last.db) last.disk (trace ++ self.effects acts) := by
  induction acts generalizing self trace with
  | nil =>
    cases hrun
    rw [System.effects, List.append_nil]
    exact h
  | cons act acts ih =>
    obtain ⟨mid, hstep, hrest⟩ := Option.bind_eq_some_iff.mp hrun
    obtain ⟨program, hprogram, rfl⟩ := Option.map_eq_some_iff.mp hstep
    rw [System.effects, hprogram, ← List.append_assoc]
    exact ih (.step h hprogram) hrest

/-- The file effects of a first session, those of its opening included. -/
def firstEffects (acts : List Act) : List DiskEffect :=
  ((DBImpl.open .forward) Disk.empty).2 ++ ((System.open .forward Disk.empty).map (·.effects acts)).getD []

theorem History.of_first {last : System} {acts : List Act}
    (hrun : (System.open .forward Disk.empty).bind (·.run acts) = some last) :
    History (fun _ _ => True) (some last.db) last.disk (firstEffects acts) := by
  obtain ⟨start, hstart, hrest⟩ := Option.bind_eq_some_iff.mp hrun
  obtain ⟨db, hdb, heq⟩ := Option.map_eq_some_iff.mp hstart
  subst heq
  have hopened : History (fun _ _ => True) (some db) ((DBImpl.open .forward).final Disk.empty)
      ([] ++ ((DBImpl.open .forward) Disk.empty).2) := .boot .empty trivial .forward hdb
  rw [firstEffects, hstart]
  exact History.run_effects hopened hrest

/-- A key is set in a new database. -/
def oneSet : List Act := [.put_lock [107] ⟨.kValue, [118]⟩, .put_write]

/-- A key is set in a new database, and the destructor flushes it. -/
def oneFlush : List Act := oneSet ++ [.stop, .bg_wake, .last_flush, .minor_prepare, .minor_build true, .minor_install]

theorem History.files_read_back_oneFlush :
    ∃ last, (System.open .forward Disk.empty).bind (·.run oneFlush) = some last ∧ last.disk.ssts.size = 1 ∧
      (Directory.after ((firstEffects oneFlush).map fun effect => (.forward, effect))).Reads last.disk := by
  have hflushed : ((System.open .forward Disk.empty).bind (·.run oneFlush)).map (·.disk.ssts.size) = some 1 := by
    decide +kernel
  have hall : ∀ effect ∈ firstEffects oneFlush, effect.Fits := by decide +kernel
  obtain ⟨last, hlast, hsize⟩ := Option.map_eq_some_iff.mp hflushed
  have hhistory := History.of_first hlast
  have heffects : firstEffects oneFlush = ((firstEffects oneFlush).map fun effect =>
      ((.forward, effect) : IterationOrder FileNumber × DiskEffect)).map Prod.snd := by
    rw [List.map_map]
    exact (List.map_id _).symm
  rw [heffects] at hhistory
  refine ⟨last, hlast, hsize, hhistory.files_read_back ?_⟩
  intro entry hentry
  obtain ⟨effect, heffect, rfl⟩ := List.mem_map.mp hentry
  exact hall effect heffect

end

end NovaKV
