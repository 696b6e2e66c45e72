import NovaKV.Store.Listing
import NovaKV.Store.ReplayStep
import NovaKV.Store.Run
import NovaKV.Store.Scan

open Std
open NovaKV.Lib

namespace NovaKV

section

variable {remnant : Remnant} {crash : Remnant → Prop}

theorem Remnant.Triple.load_manifest {post : Option (ManifestManager Nat) → Remnant → Prop}
    (hsnapshot : remnant.snapshot = true) (hcrash : crash remnant)
    (hpost : ∀ manifest : ManifestManager Nat, remnant.next = manifest.state.next_file_number →
      post (some manifest) remnant) : remnant.Triple load_manifest post crash := by
  refine .seq (.read hcrash ?_)
  rintro disk rfl
  obtain ⟨snapshot, hmanifest⟩ := Option.isSome_iff_exists.mp hsnapshot
  have hnext : disk.remnant.next = (snapshot.apply_edits disk.log).next_file_number := by
    simp [Disk.remnant, Disk.recovered, hmanifest]
  rw [hmanifest]
  exact .pure hcrash (hpost _ hnext)

/-- A snapshot of what is in memory. -/
theorem Remnant.Triple.persist {manifest : ManifestManager Nat} {post : Bool → Remnant → Prop}
    (hsnapshot : remnant.snapshot = true) (hnext : remnant.next = manifest.state.next_file_number)
    (hcrash : crash remnant) (hpost : post true remnant) :
    remnant.Triple (perform (manifest.persist {})) post crash := by
  rintro disk rfl
  have hrenamed : (disk.apply (.manifest (.rename_snapshot manifest.state))).remnant = disk.remnant := by
    have hsame : (disk.apply (.manifest (.rename_snapshot manifest.state))).recovered.next_file_number =
        disk.recovered.next_file_number := (Disk.next_rename hnext).trans hnext.symm
    have hsome : disk.manifest.isSome = true := hsnapshot
    simp only [Disk.remnant, hsame, hsome]
    rfl
  refine ⟨?_, ?_⟩
  · have hafter : crash (disk.apply (.manifest (.rename_snapshot manifest.state))).remnant := hrenamed ▸ hcrash
    exact forall_prefix_cons.mpr ⟨hcrash, forall_prefix_nil.mpr hafter⟩
  · change post true (disk.apply (.manifest (.rename_snapshot manifest.state))).remnant
    rw [hrenamed]
    exact hpost

/-- The tables that are loaded are files of the directory, whatever the manifest lists. -/
theorem Remnant.Triple.load_sstables {manifest : ManifestManager Nat} {post : Levels → Remnant → Prop}
    (hsnapshot : remnant.snapshot = true) (hnext : remnant.next = manifest.state.next_file_number)
    (hcrash : crash remnant)
    (hpost : ∀ levels : Levels, remnant.next = levels.manifest.state.next_file_number →
      (∀ reader ∈ levels.l0 ++ levels.l1, remnant.ssts[reader.file_number]? = some reader.table) →
      post levels remnant) :
    remnant.Triple (load_sstables manifest) post crash := by
  refine .seq (.read hcrash ?_)
  intro disk hdisk
  have hssts : disk.ssts = remnant.ssts := congrArg Remnant.ssts hdisk
  rw [hssts]
  split
  · refine .pure hcrash (hpost _ hnext ?_)
    intro reader hreader
    rcases List.mem_append.mp hreader with hreader | hreader
    · exact (level_reader_mem hreader).1
    · exact (level_reader_mem hreader).1
  · have hscanned : ∀ reader ∈ scanned_readers remnant.ssts ++ [],
        remnant.ssts[reader.file_number]? = some reader.table := by
      intro reader hreader
      rw [List.append_nil] at hreader
      exact mem_scanned_readers hreader
    dsimp only
    split
    · exact .seq (.persist hsnapshot hnext hcrash (.pure hcrash (hpost _ hnext hscanned)))
    · exact .pure hcrash (hpost _ hnext hscanned)

theorem mem_live_wals_add {manifest : ManifestManager Nat} {id other : Nat}
    (h : other = id ∨ other ∈ manifest.state.live_wals) :
    other ∈ (manifest.add_wal {} id).1.state.live_wals := by
  by_cases hlive : id ∈ manifest.state.live_wals
  · rw [ManifestManager.add_wal, if_pos hlive]
    rcases h with rfl | h
    · exact hlive
    · exact h
  · rw [ManifestManager.add_wal_eq_commit hlive, ManifestManager.commit_state]
    change other ∈ manifest.state.live_wals.insert id
    rw [ExtTreeSet.mem_insert]
    rcases h with rfl | h
    · exact .inl ReflCmp.compare_self
    · exact .inr h

theorem Remnant.Triple.add_wals {manifest : ManifestManager Nat} {ids : List Nat}
    {post : ManifestManager Nat → Remnant → Prop} (hsnapshot : remnant.snapshot = true)
    (hnext : remnant.next = manifest.state.next_file_number) (hcrash : crash remnant)
    (hpost : ∀ manifest' : ManifestManager Nat, remnant.next = manifest'.state.next_file_number →
      (∀ id, id ∈ ids ∨ id ∈ manifest.state.live_wals → id ∈ manifest'.state.live_wals) →
      post manifest' remnant) :
    remnant.Triple (add_wals manifest ids) post crash := by
  induction ids generalizing manifest with
  | nil => exact .pure hcrash (hpost manifest hnext (by simp))
  | cons id ids ih =>
    refine .seq (@Remnant.Triple.record _ _ manifest (.add_wal id) _ nofun hsnapshot hnext hcrash ?_)
    intro hadded
    refine ih hadded ?_
    intro manifest' hnext' hlive
    refine hpost manifest' hnext' ?_
    intro other hother
    apply hlive
    rw [List.mem_cons, or_assoc, or_left_comm] at hother
    exact hother.imp_right mem_live_wals_add

/-- `RecoverFromWals` replays every log of the directory in order of their numbers. -/
theorem Remnant.Triple.recover_from_wals {manifest : ManifestManager Nat} {mem : MemTable}
    {order : IterationOrder Nat} {post : ManifestManager Nat × MemTable → Remnant → Prop}
    (hsnapshot : remnant.snapshot = true) (hnext : remnant.next = manifest.state.next_file_number)
    (hcrash : crash remnant)
    (hpost : ∀ (manifest' : ManifestManager Nat) (mem' : MemTable),
      remnant.next = manifest'.state.next_file_number → mem'.wal = mem.wal →
      (∀ key : Key, mem'.table[key]? = (latest remnant.records key).or mem.table[key]?) →
      post (manifest', mem') remnant) :
    remnant.Triple (recover_from_wals manifest mem order) post crash := by
  refine .seq (.read hcrash ?_)
  intro disk hdisk
  refine .seq (.add_wals hsnapshot hnext hcrash ?_)
  intro manifest' hnext' hlive
  refine .seq (.read hcrash ?_)
  intro disk' hdisk'
  have hwals : ∀ id ∈ remnant.wals, id ∈ manifest'.state.live_wals := by
    intro id hid
    apply hlive
    left
    rw [order.mem_list, ExtTreeMap.mem_keys, show disk.wals = remnant.wals from congrArg Remnant.wals hdisk]
    exact hid
  rw [show disk'.wals = remnant.wals from congrArg Remnant.wals hdisk', flatMap_live_wals hwals]
  obtain ⟨hwal, htable⟩ := foldl_apply_without_wal remnant.records mem
  exact .pure hcrash (hpost _ _ hnext' hwal htable)

/-- The constructor on a directory with a manifest: the memtable gets all records of the
logs, and tables are loaded from the directory. -/
theorem Remnant.Triple.open {order : IterationOrder Nat} {post : Option DBImpl → Remnant → Prop}
    (hsnapshot : remnant.snapshot = true) (hwals : ∀ id ∈ remnant.wals, id ≤ remnant.next)
    (hcrash : crash remnant) (hallocated : crash { remnant with next := remnant.next + 1 })
    (hcreated : crash { remnant with
      next := remnant.next + 1, wals := remnant.wals.insertIfNew (remnant.next + 1) [] })
    (hpost : ∀ (db : DBImpl) (mem : MemTable), db.Opened → db.active_wal_id = remnant.next + 1 →
      remnant.next + 1 = db.levels.manifest.state.next_file_number → db.mem = some mem → mem.wal = db.active_wal_id →
      (∀ key : Key, mem.table[key]? = latest remnant.records key) →
      (∀ reader ∈ db.levels.l0 ++ db.levels.l1, remnant.ssts[reader.file_number]? = some reader.table) →
      post (some db) { remnant with
        next := remnant.next + 1, wals := remnant.wals.insertIfNew (remnant.next + 1) [] }) :
    remnant.Triple (DBImpl.open order) post crash := by
  have hrecords : Remnant.records { remnant with
      next := remnant.next + 1, wals := remnant.wals.insertIfNew (remnant.next + 1) [] } = remnant.records :=
    Remnant.records_create_wal fun id hid => Nat.lt_succ_of_le (hwals id hid)
  refine .seq (.load_manifest hsnapshot hcrash ?_)
  intro manifest hmanifest
  refine .seq (.load_sstables hsnapshot hmanifest hcrash ?_)
  intro levels hlevels hloaded
  refine .seq (.allocate hsnapshot hlevels hcrash hallocated ?_)
  intro manifest1 hmanifest1
  rw [hmanifest1]
  refine .seq (.seq (.create_wal hallocated hcreated (.pure hcreated ?_)))
  refine .seq (@Remnant.Triple.record _ _ manifest1 (.add_wal _) _ nofun hsnapshot hmanifest1.symm hcreated ?_)
  intro hmanifest2
  refine .seq (.recover_from_wals hsnapshot hmanifest2 hcreated ?_)
  intro manifest3 mem hmanifest3 hwal htable
  refine .pure hcreated (hpost _ mem ⟨rfl, rfl, rfl, rfl, rfl, rfl, rfl, rfl⟩ rfl hmanifest3 rfl hwal ?_ hloaded)
  intro key
  rw [htable key, hrecords]
  simp

/-- The constructor on a directory whose logs decide what shows. A crash on the way
leaves it so. -/
theorem Remnant.Replays.open {order : IterationOrder Nat} (h : remnant.Replays) :
    remnant.Triple (DBImpl.open order)
      (fun result remnant' => ∃ db, result = some db ∧ db.Opened ∧ Replayed remnant [] db remnant')
      Remnant.Replays := by
  have hfresh : ∀ id ∈ remnant.wals, id < remnant.next + 1 :=
    fun id hid => Nat.lt_succ_of_le (h.wals_le id hid)
  have hallocated := h.set_next (Nat.le_succ remnant.next)
  have hcreated := hallocated.create_wal (Nat.le_refl _) hfresh
  have hrecords : Remnant.records { remnant with
      next := remnant.next + 1, wals := remnant.wals.insertIfNew (remnant.next + 1) [] } = remnant.records :=
    Remnant.records_create_wal hfresh
  refine .open h.snapshot h.wals_le h hallocated hcreated ?_
  intro db mem hopened hactive hnext hmem hwal htable hloaded
  refine ⟨db, rfl, hopened, ⟨hcreated, hnext, ⟨remnant.wals.toList, [], [], ?_⟩, hopened.mem, ?_, ?_, ?_, ?_⟩, by simp⟩
  · rw [hmem, hopened.imm]
    refine ⟨?_, nofun, ?_, nofun, ?_⟩
    · have htoList : (remnant.wals.insertIfNew (remnant.next + 1) []).toList =
          remnant.wals.toList ++ [(remnant.next + 1, [])] :=
        toList_insertIfNew_of_lt fun id hid => Nat.compare_eq_lt.mpr (hfresh id hid)
      refine Eq.trans htoList ?_
      simp [hwal, hactive]
    · rintro _ ⟨⟩
      exact hwal
    · rintro _ ⟨⟩ key
      simpa [carried, Remnant.records] using htable key
  · intro reader hreader
    rw [hrecords]
    exact h.covered _ _ (hloaded reader hreader)
  · simp [hopened.flusher]
  · simp [hopened.calls]
  · simp [hopened.calls]

end

end NovaKV
