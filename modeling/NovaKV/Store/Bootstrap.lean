import NovaKV.Store.Mismatch

open Std
open NovaKV.Lib

namespace NovaKV

/-- The numbers of the log and table files of a directory. -/
def Disk.file_numbers (disk : Disk) : List Nat := disk.ssts.keys ++ disk.wals.keys

/-- The database that the constructor builds from the files of a directory alone: its
first log takes a number above all of them, level 0 holds the tables that open, in
order of their numbers, and the manifest lists exactly these. -/
structure DBImpl.Bootstrapped (db : DBImpl) (disk : Disk) : Prop where
  above : ∀ id ∈ disk.file_numbers, id < db.active_wal_id
  sorted : db.levels.l0.Pairwise fun a b => a.file_number < b.file_number
  opened : ∀ reader, reader ∈ db.levels.l0 ↔
    ∃ table, disk.ssts[reader.file_number]? = some table ∧
      SSTableReader.open reader.file_number table = some reader
  l1 : db.levels.l1 = []
  listed : ∀ id level, db.levels.manifest.state.sst_levels[id]? = some level ↔
    level = 0 ∧ id ∈ db.levels.l0.map SSTableReader.file_number

section

variable {disk : Disk}

theorem le_foldl_max {ids : List Nat} {start : Nat} :
    start ≤ ids.foldl max start ∧ ∀ id ∈ ids, id ≤ ids.foldl max start := by
  induction ids generalizing start with
  | nil => exact ⟨Nat.le_refl _, nofun⟩
  | cons first ids ih =>
    obtain ⟨hstart, hrest⟩ := @ih (max start first)
    refine ⟨(Nat.le_max_left _ _).trans hstart, ?_⟩
    intro id hid
    rcases List.mem_cons.mp hid with rfl | hid
    · exact (Nat.le_max_right _ _).trans hstart
    · exact hrest id hid

/-- `std::stoi` throws on every number that is no `int`. -/
theorem init_next_file_number_eq_none :
    init_next_file_number_from_disk disk = none ↔ ∃ id ∈ disk.file_numbers, 2 ^ 31 ≤ id := by
  have hany : (disk.ssts.keys ++ disk.wals.keys).any (2 ^ 31 ≤ ·) = true ↔
      ∃ id ∈ disk.file_numbers, 2 ^ 31 ≤ id := by
    simp only [List.any_eq_true, decide_eq_true_eq, Disk.file_numbers]
  rw [init_next_file_number_from_disk, ← hany]
  simp only [ite_eq_left_iff, Bool.not_eq_true, reduceCtorEq, imp_false, Bool.not_eq_false]

theorem init_next_file_number_above {next : Nat} (h : init_next_file_number_from_disk disk = some next) :
    ∀ id ∈ disk.file_numbers, id ≤ next := by
  simp only [init_next_file_number_from_disk, Option.ite_none_left_eq_some, Option.some_inj] at h
  rw [← h.2]
  exact le_foldl_max.2

/-- Numbers that an `int` can hold are sorted as numbers. -/
theorem mergeSort_scan_le {ids : List Nat} (hsorted : ids.Pairwise (· < ·)) (hints : ∀ id ∈ ids, id < 2 ^ 31) :
    ids.mergeSort scan_le = ids := by
  apply List.mergeSort_of_pairwise
  refine hsorted.imp_of_mem ?_
  intro a b ha hb hlt
  simp only [scan_le, to_int_of_lt (hints a ha), to_int_of_lt (hints b hb), Bool.or_eq_true, decide_eq_true_eq]
  exact .inl (Int.ofNat_lt.mpr hlt)

theorem pairwise_filterMap_open {ssts : ExtTreeMap Nat SSTable} {ids : List Nat} (hsorted : ids.Pairwise (· < ·)) :
    (ids.filterMap fun id => ssts[id]?.bind (SSTableReader.open id)).Pairwise
      fun a b => a.file_number < b.file_number := by
  rw [List.pairwise_filterMap]
  refine hsorted.imp ?_
  intro a b hlt first hfirst second hsecond
  obtain ⟨_, -, hopen⟩ := Option.bind_eq_some_iff.mp hfirst
  obtain ⟨_, -, hopen'⟩ := Option.bind_eq_some_iff.mp hsecond
  rw [(SSTableReader.open_eq_some hopen).1, (SSTableReader.open_eq_some hopen').1]
  exact hlt

theorem mem_scanned_readers_iff {ssts : ExtTreeMap Nat SSTable} {reader : SSTableReader} :
    reader ∈ scanned_readers ssts ↔
      ∃ table, ssts[reader.file_number]? = some table ∧
        SSTableReader.open reader.file_number table = some reader := by
  simp only [scanned_readers, List.mem_filterMap, List.mem_mergeSort]
  constructor
  · rintro ⟨id, -, hopened⟩
    obtain ⟨table, htable, hopen⟩ := Option.bind_eq_some_iff.mp hopened
    rw [(SSTableReader.open_eq_some hopen).1]
    exact ⟨table, htable, hopen⟩
  · rintro ⟨table, htable, hopen⟩
    refine ⟨reader.file_number, ?_, Option.bind_eq_some_iff.mpr ⟨table, htable, hopen⟩⟩
    exact ExtTreeMap.mem_keys.mpr (ExtTreeMap.mem_iff_isSome_getElem?.mpr (by simp [htable]))

theorem getElem?_foldl_insert {readers : List SSTableReader} {levels : ExtTreeMap Nat UInt32} {id : Nat}
    {level : UInt32} (hlevels : ∀ other : UInt32, levels[id]? = some other → other = 0) :
    (readers.foldl (fun levels reader =>
        levels.insert (of_int (to_int reader.file_number)) 0) levels)[id]? = some level ↔
      level = 0 ∧ (id ∈ levels ∨ ∃ reader ∈ readers, of_int (to_int reader.file_number) = id) := by
  rw [← mem_foldl_insert]
  have hzero : ∀ other : UInt32, (readers.foldl (fun levels reader =>
      levels.insert (of_int (to_int reader.file_number)) 0) levels)[id]? = some other → other = 0 := by
    induction readers generalizing levels with
    | nil => exact hlevels
    | cons reader readers ih =>
      refine ih ?_
      intro other hother
      simp only [ExtTreeMap.getElem?_insert] at hother
      split at hother
      · exact (Option.some_inj.mp hother).symm
      · exact hlevels other hother
  constructor
  · intro h
    exact ⟨hzero level h, ExtTreeMap.mem_iff_isSome_getElem?.mpr (by simp [h])⟩
  · rintro ⟨rfl, hmem⟩
    obtain ⟨other, hother⟩ := Option.isSome_iff_exists.mp (ExtTreeMap.mem_iff_isSome_getElem?.mp hmem)
    rw [hother, hzero other hother]

/-- A directory without a manifest is opened like the same directory with the snapshot
that the constructor writes first. -/
theorem DBImpl.open_without_manifest (order : IterationOrder Nat) (hmanifest : disk.manifest = none)
    (hlog : disk.log = []) {next : Nat} (hnext : init_next_file_number_from_disk disk = some next) :
    ((DBImpl.open order) disk).1 =
      ((DBImpl.open order) { disk with
        manifest := some { ManifestState.initial with next_file_number := next } }).1 := by
  let state : ManifestState Nat := { ManifestState.initial with next_file_number := next }
  have hload : load_manifest disk =
      (some { state := state, edits_since_checkpoint := 0 }, [.manifest (.rename_snapshot state)]) := by
    simp [load_manifest, Program.bind_def, Program.read, Program.final, hmanifest, hnext, perform,
      ManifestManager.persist, ManifestState.apply_edits, hlog, state]
  have hagain : load_manifest { disk with manifest := some state } =
      (some { state := state, edits_since_checkpoint := 0 }, []) := by
    simp [load_manifest, Program.bind_def, Program.read, Program.final, ManifestState.apply_edits, hlog, state]
  have hdisk : applyAll disk [DiskEffect.manifest (.rename_snapshot state)] =
      applyAll { disk with manifest := some state } ([] : List DiskEffect) := rfl
  rw [DBImpl.open, Program.bind_def, Program.bind_def, Program.final, Program.final, hload, hagain, hdisk]

/-- With numbers that fit in an `int` the database is as it should be. -/
theorem DBImpl.open_bootstrapped (order : IterationOrder Nat) (hmanifest : disk.manifest = none)
    (hlog : disk.log = []) (hints : ∀ id ∈ disk.file_numbers, id < 2 ^ 31) :
    ∃ db, ((DBImpl.open order) disk).1 = some db ∧ db.Bootstrapped disk := by
  cases hnext : init_next_file_number_from_disk disk with
  | none =>
    obtain ⟨id, hid, hlarge⟩ := init_next_file_number_eq_none.mp hnext
    exact absurd (hints id hid) (Nat.not_lt.mpr hlarge)
  | some next =>
    have hsame := DBImpl.open_without_manifest order hmanifest hlog hnext
    generalize hdisk : { disk with
      manifest := some { ManifestState.initial with next_file_number := next } } = snapshot at hsame
    have hssts : snapshot.ssts = disk.ssts := by rw [← hdisk]
    have hrecovered : snapshot.recovered = { ManifestState.initial with next_file_number := next } := by
      rw [← hdisk]
      simp [Disk.recovered, ManifestState.apply_edits, hlog]
    have hloaded : snapshot.loaded =
        { manifest := { state := snapshot.scanned_state, edits_since_checkpoint := 0 }
          l0 := scanned_readers disk.ssts
          l1 := [] } := by
      simp [Disk.loaded, hrecovered, hssts, ManifestState.initial]
    obtain ⟨db, ids, heq, -, hwal, hlevels⟩ := DBImpl.open_eq order
      (show snapshot.manifest.isSome ∨ snapshot = .empty from .inl (by rw [← hdisk]; rfl))
    have hnumber : snapshot.scanned_state.next_file_number = next := by
      simp [Disk.scanned_state, hrecovered]
    have hstate : db.levels.manifest.state.sst_levels = snapshot.scanned_state.sst_levels := by
      simp only [hlevels, hloaded, afterAll_state, sst_levels_stateAll (boot_events_plain _ ids)]
    have hl0 : db.levels.l0 = scanned_readers disk.ssts := by rw [hlevels, hloaded]
    have hfits : ∀ reader ∈ scanned_readers disk.ssts, reader.file_number < 2 ^ 31 := by
      intro reader hreader
      refine hints _ (List.mem_append_left _ (ExtTreeMap.mem_keys.mpr ?_))
      exact scanned_reader_mem hreader
    have hkeys : disk.ssts.keys.Pairwise (· < ·) := by
      refine ExtTreeMap.ordered_keys.imp ?_
      exact fun hlt => Nat.compare_eq_lt.mp hlt
    refine ⟨db, by rw [hsame, heq], ?_, ?_, ?_, ?_, ?_⟩
    · intro id hid
      have hle := init_next_file_number_above hnext id hid
      rw [hwal, hloaded, hnumber]
      omega
    · rw [hl0, scanned_readers, mergeSort_scan_le]
      · exact pairwise_filterMap_open hkeys
      · exact hkeys
      · exact fun id hid => hints id (List.mem_append_left _ hid)
    · rw [hl0]
      exact fun reader => mem_scanned_readers_iff
    · rw [hlevels, hloaded]
    · intro id level
      rw [hstate, hl0, Disk.scanned_state, hrecovered, hssts, getElem?_foldl_insert (by
        intro other hother
        simp [ManifestState.initial] at hother)]
      have hnone : id ∉ (ManifestState.initial : ManifestState Nat).sst_levels := by
        simp [ManifestState.initial]
      simp only [hnone, false_or, List.mem_map]
      refine and_congr_right fun _ => exists_congr fun reader => and_congr_right fun hreader => ?_
      rw [of_int_to_int (hfits reader hreader)]

/-- One number that is no `int` and the constructor throws. -/
theorem DBImpl.open_eq_none (order : IterationOrder Nat) (hmanifest : disk.manifest = none) {id : Nat}
    (hid : id ∈ disk.file_numbers) (hlarge : 2 ^ 31 ≤ id) : ((DBImpl.open order) disk).1 = none := by
  have hnone : init_next_file_number_from_disk disk = none :=
    init_next_file_number_eq_none.mpr ⟨id, hid, hlarge⟩
  have hload : load_manifest disk = (none, []) := by
    simp [load_manifest, Program.bind_def, Program.read, Program.final, hmanifest, hnone]
  rw [DBImpl.open, Program.bind_def, hload]
  rfl

/-- Without a manifest the constructor keeps to the file numbers if and only if every one of
them is an `int`. -/
theorem DBImpl.open_bootstrapped_iff (order : IterationOrder Nat) (hmanifest : disk.manifest = none)
    (hlog : disk.log = []) :
    (∃ db, ((DBImpl.open order) disk).1 = some db ∧ db.Bootstrapped disk) ↔
      ∀ id ∈ disk.file_numbers, id < 2 ^ 31 := by
  constructor
  · rintro ⟨db, hopen, -⟩ id hid
    by_contra hlarge
    rw [DBImpl.open_eq_none order hmanifest hid (Nat.le_of_not_lt hlarge)] at hopen
    cases hopen
  · exact DBImpl.open_bootstrapped order hmanifest hlog

end

/-- A directory with the tables 9 and 10, whose paths sort the other way round, a log
and no manifest. -/
def Disk.two_tables : Disk :=
  { Disk.empty with
    ssts := (ExtTreeMap.insert ∅ 10 ⟨[([1], ⟨.kValue, [4]⟩)], List.pairwise_singleton _ _⟩).insert 9
      ⟨[([1], ⟨.kDeletion, []⟩)], List.pairwise_singleton _ _⟩
    wals := ExtTreeMap.insert ∅ 7 [] }

theorem Disk.mem_two_tables_numbers {id : Nat} : id ∈ Disk.two_tables.file_numbers ↔ id = 9 ∨ id = 10 ∨ id = 7 := by
  simp only [Disk.file_numbers, Disk.two_tables, List.mem_append, ExtTreeMap.mem_keys, ExtTreeMap.mem_insert]
  simp only [Nat.compare_eq_eq, ExtTreeMap.not_mem_empty, or_false]
  omega

theorem open_bootstrapped_two_tables :
    ∃ db, ((DBImpl.open .forward) Disk.two_tables).1 = some db ∧ db.Bootstrapped Disk.two_tables ∧
      db.levels.l0.map SSTableReader.file_number = [9, 10] ∧ 10 < db.active_wal_id := by
  obtain ⟨db, hopen, hdb⟩ := (DBImpl.open_bootstrapped_iff .forward rfl rfl).mpr (fun id hid => by
    rcases Disk.mem_two_tables_numbers.mp hid with rfl | rfl | rfl <;> decide)
  have hlookup : ∀ id, Disk.two_tables.ssts[id]? =
      if 9 = id then some ⟨[([1], ⟨.kDeletion, []⟩)], List.pairwise_singleton _ _⟩
      else if 10 = id then some ⟨[([1], ⟨.kValue, [4]⟩)], List.pairwise_singleton _ _⟩ else none := by
    simp [Disk.two_tables, ExtTreeMap.getElem?_insert]
  refine ⟨db, hopen, hdb, ?_, hdb.above 10 (Disk.mem_two_tables_numbers.mpr (.inr (.inl rfl)))⟩
  have hsorted : (db.levels.l0.map SSTableReader.file_number).Pairwise (· < ·) := List.pairwise_map.mpr hdb.sorted
  refine List.Perm.eq_of_pairwise (fun a b _ _ hab hba => absurd hab (Nat.lt_asymm hba)) hsorted (by decide) ?_
  rw [List.perm_ext_iff_of_nodup (hsorted.imp Nat.ne_of_lt) (by decide)]
  intro id
  rw [List.mem_map]
  constructor
  · rintro ⟨reader, hreader, rfl⟩
    obtain ⟨table, htable, -⟩ := (hdb.opened reader).mp hreader
    rw [hlookup] at htable
    split_ifs at htable with hnine hten
    · simp [← hnine]
    · simp [← hten]
  · intro hid
    have hid : id = 9 ∨ id = 10 := by simpa using hid
    rcases hid with rfl | rfl
    · exact ⟨⟨9, _, List.cons_ne_nil _ _⟩, (hdb.opened _).mpr ⟨_, hlookup 9, rfl⟩, rfl⟩
    · exact ⟨⟨10, _, List.cons_ne_nil _ _⟩, (hdb.opened _).mpr ⟨_, hlookup 10, rfl⟩, rfl⟩

/-- A directory with one log, empty, and no manifest. -/
def Disk.one_wal (id : Nat) : Disk := { Disk.empty with wals := ExtTreeMap.insert ∅ id [] }

theorem Disk.one_wal_numbers (id : Nat) : (Disk.one_wal id).file_numbers = [id] := by
  have hkeys : (ExtTreeMap.insert ∅ id [] : ExtTreeMap Nat (List WalRecord)).keys = [id] := by
    rw [← ExtTreeMap.map_fst_toList_eq_keys, toList_insert_of_split (show _ = [] ++ [] by simp) nofun nofun]
    rfl
  simp [Disk.file_numbers, Disk.one_wal, Disk.empty, hkeys]

/-- A log whose number is no `int` keeps the database from opening. -/
theorem large_wal_not_bootstrapped :
    ¬ ∀ (order : IterationOrder Nat) (disk : Disk), disk.manifest = none → disk.log = [] →
      (∀ id ∈ disk.file_numbers, id < 2 ^ 64 - 1) →
      ∃ db, ((DBImpl.open order) disk).1 = some db ∧ db.Bootstrapped disk := by
  intro hall
  obtain ⟨db, hopen, -⟩ := hall .forward (Disk.one_wal (2 ^ 31)) rfl rfl (by
    simp [Disk.one_wal_numbers])
  have hnone : ((DBImpl.open .forward) (Disk.one_wal (2 ^ 31))).1 = none :=
    @DBImpl.open_eq_none _ .forward rfl (2 ^ 31) (by simp [Disk.one_wal_numbers]) (Nat.le_refl _)
  rw [hnone] at hopen
  cases hopen

end NovaKV
