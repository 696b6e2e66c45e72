import NovaKV.Store.Session

open Std
open NovaKV.Lib

namespace NovaKV

/-- What a database shows that loads these levels and replays all logs over them. -/
def Files.shows (self : Files) (l0 l1 : List SSTableReader) (key : Key) : Option Bytes :=
  visible ((latest self.records key).or (search_levels l0 l1 key))

/-- A directory that the constructor loads as the two levels it holds: one without
a snapshot has no other files either, and one that lists no table holds none, so
that there is nothing for a scan to find. -/
structure Files.Loads (files : Files) (l0 l1 : List SSTableReader) : Prop where
  holds : files.Holds l0 l1
  fresh : files.snapshot = false → files.ssts = ∅ ∧ files.wals = ∅
  listed : l0 = [] → l1 = [] → files.ssts = ∅

/-- Changes that opening makes before the database runs: manifest edits that leave
the levels alone, and a log without records. -/
structure Files.Same (files files' : Files) : Prop where
  snapshot : files.snapshot = true → files'.snapshot = true
  levels : files'.state.sst_levels = files.state.sst_levels
  next : files.state.next_file_number ≤ files'.state.next_file_number
  ssts : files'.ssts = files.ssts
  records : files'.records = files.records
  wals_le : ∀ id ∈ files'.wals, id ≤ files'.state.next_file_number
  written : files'.written = files.written

section

variable {files files' files'' : Files} {l0 l1 : List SSTableReader} {crash : Files → Prop}

theorem Files.Same.refl (h : ∀ id ∈ files.wals, id ≤ files.state.next_file_number) : files.Same files :=
  ⟨id, rfl, Nat.le_refl _, rfl, rfl, h, rfl⟩

theorem Files.Holds.same (h : files.Holds l0 l1) (hsame : files.Same files') : files'.Holds l0 l1 where
  lists := h.lists.congr hsame.levels hsame.next
  tables := by
    rw [hsame.ssts]
    exact h.tables
  ssts_le := by
    rw [hsame.ssts]
    exact fun id hid => (h.ssts_le id hid).trans hsame.next
  wals_le := hsame.wals_le

theorem Files.Same.shows (hsame : files.Same files') (key : Key) :
    files'.shows l0 l1 key = files.shows l0 l1 key := by
  rw [Files.shows, Files.shows, hsame.records]

theorem Files.Same.set_state {state : ManifestState Nat} (hsame : files.Same files')
    (hlevels : state.sst_levels = files'.state.sst_levels)
    (hnext : files'.state.next_file_number ≤ state.next_file_number) :
    files.Same { files' with state := state } where
  snapshot := hsame.snapshot
  levels := hlevels.trans hsame.levels
  next := hsame.next.trans hnext
  ssts := hsame.ssts
  records := hsame.records
  wals_le id hid := (hsame.wals_le id hid).trans hnext
  written := hsame.written

theorem Files.Same.create_wal {id : Nat} (hsame : files.Same files')
    (hid : id ≤ files'.state.next_file_number) (hlast : ∀ other ∈ files'.wals, other < id) :
    files.Same { files' with wals := files'.wals.insertIfNew id [] } where
  snapshot := hsame.snapshot
  levels := hsame.levels
  next := hsame.next
  ssts := hsame.ssts
  records := by
    have htoList : (files'.wals.insertIfNew id []).toList = files'.wals.toList ++ [(id, [])] :=
      toList_insertIfNew_of_lt fun other hother => Nat.compare_eq_lt.mpr (hlast other hother)
    rw [← hsame.records, Files.records, htoList, records_append, records_singleton, List.append_nil]
    rfl
  wals_le other hother := by
    rw [ExtTreeMap.mem_insertIfNew] at hother
    rcases hother with heq | hmem
    · rwa [← LawfulEqCmp.eq_of_compare heq]
    · exact hsame.wals_le other hmem
  written := hsame.written

/-- The first snapshot of a directory whose log, if any, starts from nothing. -/
theorem Files.Triple.persist_initial {manager : ManifestManager Nat} {post : Bool → Files → Prop}
    (hstate : manager.state = .initial) (hsnapshot : files.snapshot = false)
    (hbefore : crash files) (hafter : crash { files with snapshot := true })
    (hpost : post true { files with snapshot := true }) :
    files.Triple (perform (manager.persist {})) post crash := by
  rintro disk rfl
  have hnone : disk.manifest = none := by simpa [Disk.files] using hsnapshot
  have hrenamed : (disk.apply (.manifest (.rename_snapshot manager.state))).files =
      { disk.files with snapshot := true } := by
    simp [Disk.apply, Disk.files, Disk.recovered, hnone, hstate]
  have hcrash : crash (disk.apply (.manifest (.rename_snapshot manager.state))).files := hrenamed ▸ hafter
  refine ⟨forall_prefix_cons.mpr ⟨hbefore, forall_prefix_nil.mpr hcrash⟩, ?_⟩
  · have hdone := hpost
    rw [← hrenamed] at hdone
    exact hdone

/-- Loading the manifest: an existing one is recovered, an empty directory gets one. -/
theorem Files.Triple.load_manifest {post : Option (ManifestManager Nat) → Files → Prop}
    (hfresh : files.snapshot = false → files.ssts = ∅ ∧ files.wals = ∅)
    (hbefore : crash files) (hafter : crash { files with snapshot := true })
    (hpost : ∀ manifest, files.state = manifest.state →
      post (some manifest) { files with snapshot := true }) :
    files.Triple load_manifest post crash := by
  refine .seq (.read hbefore ?_)
  rintro disk rfl
  cases hmanifest : disk.manifest with
  | some snapshot =>
    have hsnapshot : { disk.files with snapshot := true } = disk.files := by
      simp [Disk.files, hmanifest]
    have hstate : disk.files.state = snapshot.apply_edits disk.log := by
      simp [Disk.files, Disk.recovered, hmanifest]
    rw [hsnapshot] at hpost
    exact .pure hbefore (hpost _ hstate)
  | none =>
    obtain ⟨hssts, hwals⟩ := hfresh (by simp [Disk.files, hmanifest])
    have hnext : init_next_file_number_from_disk disk = some 0 := by
      rw [init_next_file_number_from_disk, show disk.ssts = ∅ from hssts, show disk.wals = ∅ from hwals]
      rfl
    have hstate : disk.files.state = ManifestState.initial.apply_edits disk.log := by
      simp [Disk.files, Disk.recovered, hmanifest]
    simp only [hnext]
    refine .seq (.persist_initial rfl (by simp [Disk.files, hmanifest]) hbefore hafter ?_)
    exact .pure hafter (hpost _ hstate)

/-- The levels that the manifest lists are loaded as they were. -/
theorem Files.Triple.load_sstables {manifest : ManifestManager Nat} {post : Levels → Files → Prop}
    (hholds : files.Holds l0 l1) (hlisted : l0 = [] → l1 = [] → files.ssts = ∅)
    (hsync : files.state = manifest.state) (hcrash : crash files)
    (hpost : post { manifest := manifest, l0 := l0, l1 := l1 } files) :
    files.Triple (load_sstables manifest) post crash := by
  refine .seq (.read hcrash ?_)
  rintro disk rfl
  have hempty := hholds.lists.isEmpty_iff
  rw [hsync] at hempty
  by_cases hlevels : manifest.state.sst_levels.isEmpty = true
  · obtain ⟨rfl, rfl⟩ := hempty.mp hlevels
    have hssts : disk.ssts = ∅ := hlisted rfl rfl
    have hreaders : scanned_readers disk.ssts = [] := by
      simp [scanned_readers, hssts]
    simp only [hlevels, hreaders, List.foldl_nil, Bool.not_true, Bool.false_eq_true, if_false]
    exact .pure hcrash hpost
  · have hl0 : level_readers disk.ssts manifest.state 0 = l0 := by
      rw [← hsync]
      exact level_readers_eq hholds.lists.sorted0 hholds.lists.level0
        fun r hr => hholds.tables r (List.mem_append_left _ hr)
    have hl1 : level_readers disk.ssts manifest.state 1 = l1 := by
      rw [← hsync]
      exact level_readers_eq hholds.lists.sorted1 hholds.lists.level1
        fun r hr => hholds.tables r (List.mem_append_right _ hr)
    simp only [hlevels, Bool.not_false, if_true, hl0, hl1]
    exact .pure hcrash hpost

/-- Registering logs changes nothing but the set of live logs, which then has them all. -/
theorem Files.Triple.add_wals {manifest : ManifestManager Nat} {ids : List Nat}
    {post : ManifestManager Nat → Files → Prop} (hsync : files.state = manifest.state)
    (hsnapshot : files.snapshot = true)
    (hcrash : ∀ live, crash { files with state := { files.state with live_wals := live } })
    (hpost : ∀ next live, { files.state with live_wals := live } = next.state →
      (∀ id, id ∈ ids ∨ id ∈ files.state.live_wals → id ∈ live) →
      post next { files with state := { files.state with live_wals := live } }) :
    files.Triple (add_wals manifest ids) post crash := by
  induction ids generalizing files manifest with
  | nil => exact .pure (hcrash files.state.live_wals) (hpost manifest files.state.live_wals hsync (by simp))
  | cons id ids ih =>
    refine .seq (.add_wal hsync hsnapshot (hcrash files.state.live_wals) (hcrash _) ?_)
    intro manifest' hmanifest'
    refine ih hmanifest' hsnapshot hcrash ?_
    intro next live hnext hlive
    refine hpost next live hnext ?_
    intro other hother
    apply hlive
    rw [List.mem_cons] at hother
    rcases hother with (rfl | hother) | hother
    · exact .inr (by simp [Files.commit, ManifestState.apply_edit])
    · exact .inl hother
    · exact .inr (by simp [Files.commit, ManifestState.apply_edit, hother])

/-- Live logs without a file have no records, so the replay covers the logs of the directory. -/
theorem flatMap_live_wals {wals : ExtTreeMap Nat (List WalRecord)} {live : ExtTreeSet Nat}
    (hlive : ∀ id ∈ wals, id ∈ live) :
    (live.toList.flatMap fun id => wals[id]?.getD []) = records wals.toList := by
  have hkeys : live.toList.filter (· ∈ wals) = wals.toList.map Prod.fst := by
    have hsorted : (live.toList.filter (· ∈ wals)).Pairwise (· < ·) :=
      (ExtTreeSet.ordered_toList.imp fun h => Nat.compare_eq_lt.mp h).filter _
    have hsorted' : (wals.toList.map Prod.fst).Pairwise (· < ·) := by
      rw [List.pairwise_map]
      exact ExtTreeMap.ordered_keys_toList.imp fun h => Nat.compare_eq_lt.mp h
    refine List.Perm.eq_of_pairwise (fun a b _ _ hab hba => absurd hab (Nat.lt_asymm hba)) hsorted hsorted' ?_
    refine (List.perm_ext_iff_of_nodup (hsorted.imp Nat.ne_of_lt) (hsorted'.imp Nat.ne_of_lt)).mpr ?_
    intro id
    rw [ExtTreeMap.map_fst_toList_eq_keys, ExtTreeMap.mem_keys]
    simp only [List.mem_filter, ExtTreeSet.mem_toList, decide_eq_true_eq]
    exact ⟨And.right, fun hid => ⟨hlive id hid, hid⟩⟩
  have hskip : ∀ ids : List Nat, (ids.flatMap fun id => wals[id]?.getD []) =
      (ids.filter (· ∈ wals)).flatMap fun id => wals[id]?.getD [] := by
    intro ids
    induction ids with
    | nil => rfl
    | cons id ids ih =>
      by_cases hid : id ∈ wals
      · simp [hid, ih]
      · simp [hid, ih]
  rw [hskip, hkeys, List.flatMap_map, records]
  apply List.flatMap_congr
  rintro ⟨id, log⟩ hentry
  rw [ExtTreeMap.mem_toList_iff_getElem?_eq_some.mp hentry]
  rfl

/-- Replaying records into a memtable. -/
theorem foldl_apply_without_wal (writes : List WalRecord) (mem : MemTable) :
    (writes.foldl (fun mem record => mem.apply_without_wal record.1 record.2) mem).wal = mem.wal ∧
      ∀ key : Key, (writes.foldl (fun mem record => mem.apply_without_wal record.1 record.2) mem).table[key]? =
        (latest writes key).or mem.table[key]? := by
  have htable : writes.foldl (fun mem record => mem.apply_without_wal record.1 record.2) mem =
      { mem with table := mem.table.insertMany writes } := by
    induction writes generalizing mem with
    | nil => rfl
    | cons write writes ih =>
      rw [List.foldl_cons, ih, ExtTreeMap.insertMany_cons]
      rfl
  rw [htable]
  exact ⟨rfl, fun key => latest_eq_getElem?_insertMany writes mem.table key⟩

/-- `RecoverFromWals` replays every log of the directory in order of their numbers. -/
theorem Files.Triple.recover_from_wals {manifest : ManifestManager Nat} {mem : MemTable}
    {order : IterationOrder Nat} {writes : List WalRecord}
    {post : ManifestManager Nat × MemTable → Files → Prop}
    (hsync : files.state = manifest.state) (hsnapshot : files.snapshot = true)
    (hwrites : files.records = writes)
    (hcrash : ∀ live, crash { files with state := { files.state with live_wals := live } })
    (hpost : ∀ next live mem', { files.state with live_wals := live } = next.state →
      mem'.wal = mem.wal →
      (∀ key : Key, mem'.table[key]? = (latest writes key).or mem.table[key]?) →
      post (next, mem') { files with state := { files.state with live_wals := live } }) :
    files.Triple (recover_from_wals manifest mem order) post crash := by
  refine .seq (.read (hcrash files.state.live_wals) ?_)
  intro disk hdisk
  refine .seq (.add_wals hsync hsnapshot hcrash ?_)
  intro next live hnext hlive
  refine .seq (.read (hcrash live) ?_)
  intro disk' hdisk'
  have hwals : ∀ id ∈ files.wals, id ∈ live := by
    intro id hid
    apply hlive
    left
    rw [order.mem_list, ExtTreeMap.mem_keys, show disk.wals = files.wals from congrArg Files.wals hdisk]
    exact hid
  rw [← hnext, show disk'.wals = files.wals from congrArg Files.wals hdisk', flatMap_live_wals hwals,
    ← Files.records, hwrites]
  obtain ⟨hwal, htable⟩ := foldl_apply_without_wal writes mem
  exact .pure (hcrash live) (hpost next live _ hnext hwal htable)

/-- The constructor on a directory it loads as the levels held there. A crash on
the way leaves the directory as good as it was. -/
theorem Files.Loads.open {order : IterationOrder Nat} (h : files.Loads l0 l1)
    (hbefore : crash files)
    (hcrash : ∀ files', files.Same files' → files'.snapshot = true → crash files') :
    files.Triple (DBImpl.open order)
      (fun result files' => ∃ db, result = some db ∧ db.Opened ∧ files.Same files' ∧
        db.Session files' files.wals.toList false [] [] (files.shows l0 l1)) crash := by
  have hsame : files.Same { files with snapshot := true } :=
    ⟨fun _ => rfl, rfl, Nat.le_refl _, rfl, rfl, h.holds.wals_le, rfl⟩
  have hallocated : files.Same { files with snapshot := true }.allocated :=
    hsame.set_state rfl (Nat.le_succ _)
  have hlast : ∀ id ∈ files.wals, id < files.state.next_file_number + 1 :=
    fun id hid => Nat.lt_succ_of_le (h.holds.wals_le id hid)
  have hcreated := hallocated.create_wal (Nat.le_refl _) hlast
  refine .seq (.load_manifest h.fresh hbefore (hcrash _ hsame rfl) ?_)
  intro manifest hmanifest
  refine .seq (.load_sstables (h.holds.same hsame) h.listed hmanifest (hcrash _ hsame rfl) ?_)
  refine .seq (.allocate hmanifest rfl (hcrash _ hsame rfl) (hcrash _ hallocated rfl) ?_)
  intro manifest1 hmanifest1
  rw [← hmanifest1]
  refine .seq (.seq (.create_wal (hcrash _ hallocated rfl) (hcrash _ hcreated rfl)
    (.pure (hcrash _ hcreated rfl) ?_)))
  refine .seq (.add_wal hmanifest1 rfl (hcrash _ hcreated rfl)
    (hcrash _ (hcreated.set_state rfl (Nat.le_refl _)) rfl) ?_)
  intro manifest2 hmanifest2
  have hregistered : ∀ live, files.Same
      { files with
        snapshot := true
        state :=
          { files.state with
            next_file_number := files.state.next_file_number + 1, live_wals := live }
        wals := files.wals.insertIfNew (files.state.next_file_number + 1) [] } :=
    fun live => hcreated.set_state rfl (Nat.le_refl _)
  refine .seq (.recover_from_wals hmanifest2 rfl hcreated.records (fun live => hcrash _ (hregistered live) rfl) ?_)
  intro manifest3 live mem hmanifest3 hwal htable
  refine .pure (hcrash _ (hregistered live) rfl) ⟨_, rfl, ⟨rfl, rfl, rfl, rfl, rfl, rfl, rfl, rfl⟩,
    hregistered live, ?_, ?_, ?_⟩
  · exact ⟨⟨rfl, hmanifest3, h.holds.same (hregistered live)⟩, trivial, nofun, List.nodup_nil, nofun, nofun, nofun⟩
  · refine ⟨?_, nofun, ?_, nofun, ?_⟩
    · have htoList : (files.wals.insertIfNew (files.state.next_file_number + 1) []).toList =
          files.wals.toList ++ [(files.state.next_file_number + 1, [])] :=
        toList_insertIfNew_of_lt fun id hid => Nat.compare_eq_lt.mpr (hlast id hid)
      refine Eq.trans htoList ?_
      simp [hwal]
    · rintro _ ⟨⟩
      exact hwal
    · rintro _ ⟨⟩ key
      simpa [carried, Files.records] using htable key
  · intro key
    rw [DBImpl.get_eq, Files.shows]
    simp [MemTable.get, htable key, Levels.search]

/-- Opening a directory that is loaded as the levels held there. -/
theorem System.open_of_loads {disk : Disk} (order : IterationOrder Nat) (h : disk.files.Loads l0 l1) :
    ∃ system, System.open order disk = some system ∧ system.db.Opened ∧
      disk.files.Same system.disk.files ∧
      system.db.Session system.disk.files disk.wals.toList false [] [] (disk.files.shows l0 l1) := by
  have hopen : disk.files.Triple (DBImpl.open order) _ fun _ => True :=
    h.open trivial fun _ _ _ => trivial
  obtain ⟨-, db, hresult, hopened, hsame, hsession⟩ := hopen disk rfl
  refine ⟨{ db := db, disk := (DBImpl.open order).final disk }, ?_, hopened, hsame, hsession⟩
  simp [System.open, hresult]

theorem Disk.empty_loads : Disk.empty.files.Loads [] [] where
  holds := ⟨.initial 0, nofun, by simp [Disk.files, Disk.empty], by simp [Disk.files, Disk.empty]⟩
  fresh _ := ⟨rfl, rfl⟩
  listed _ _ := rfl

/-- A database on an empty directory shows nothing. -/
theorem Disk.empty_shows : Disk.empty.files.shows [] [] = fun _ => none := by
  funext key
  have hrecords : Disk.empty.files.records = [] := rfl
  rw [Files.shows, hrecords]
  rfl

end

end NovaKV
