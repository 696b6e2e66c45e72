import NovaKV.Store.Filling
import NovaKV.Store.InStep

open Std
open NovaKV.Lib

namespace NovaKV

theorem Levels.install_rejected {levels : Levels} {ctx : L0ToL1Ctx} {reader : Option SSTableReader}
    {disk : Disk} (h : (levels.install_l0_to_l1 ctx reader disk).1.2 = false) :
    levels.install_l0_to_l1 ctx reader = Pure.pure (levels, false) := by
  unfold Levels.install_l0_to_l1 at h ⊢
  split
  · rfl
  split
  · simp_all [Program.bind_def]
  split
  · rfl
  · simp_all [Program.bind_def]

/-- What is left of a compaction whose installation is rejected. -/
theorem DBImpl.rejected {db : DBImpl} {disk : Disk} {index : Nat} {owner : Owner} {ctx : L0ToL1Ctx}
    {reader : Option SSTableReader} {program : FileM DBImpl}
    (hcall : db.calls[index]? = some ⟨owner, ctx, some reader⟩)
    (hprogram : db.program (.compact_install index) = some program)
    (h : (db.levels.install_l0_to_l1 ctx reader disk).1.2 = false) :
    (program disk).1.levels = db.levels ∧
      ∀ id, ctx.new_sst_id = some id → id ∉ (program.final disk).ssts := by
  simp only [DBImpl.program, DBImpl.compact_install, hcall, Levels.install_rejected h] at hprogram
  cases hprogram
  cases hid : ctx.new_sst_id with
  | none => exact ⟨rfl, by rintro _ ⟨⟩⟩
  | some number =>
    refine ⟨rfl, ?_⟩
    rintro _ ⟨⟩
    have hremoved : number ∉ disk.ssts.erase number := by simp
    exact hremoved

/-- The readers and the manifest stay in step. Over any number of sessions whose scans
stay within `int`, whenever no block under `state_mu_` is running the tables open at
either level are those that the manifest lists there, in increasing order. So
`PrepareL0ToL1` finds as many numbers as readers, and a compaction that is rejected
changes no level and leaves no output behind. -/
theorem History.readers_in_step {db : DBImpl} {disk : Disk} {trace : List DiskEffect}
    (h : History (fun disk _ => disk.ScansInts) (some db) disk trace) :
    ((∀ id : Nat, db.levels.manifest.state.sst_levels[id]? = some 0 ↔
          id ∈ db.levels.l0.map SSTableReader.file_number) ∧
        (db.levels.l0.map SSTableReader.file_number).Pairwise (· < ·)) ∧
      ((∀ id : Nat, db.levels.manifest.state.sst_levels[id]? = some 1 ↔
          id ∈ db.levels.l1.map SSTableReader.file_number) ∧
        (db.levels.l1.map SSTableReader.file_number).Pairwise (· < ·)) ∧
      (∀ order, (l0_ids order db.levels.manifest.state).length = db.levels.l0.length) ∧
      ∀ index owner ctx reader program, db.calls[index]? = some ⟨owner, ctx, some reader⟩ →
        db.program (.compact_install index) = some program →
        (db.levels.install_l0_to_l1 ctx reader disk).1.2 = false →
        (program disk).1.levels = db.levels ∧
          ∀ id, ctx.new_sst_id = some id → id ∉ (program.final disk).ssts := by
  have hlists := ((DBImpl.InStep.preserved.history h).2 db rfl).holds.2.lists
  refine ⟨⟨hlists.level0, List.pairwise_map.mpr hlists.sorted0⟩,
    ⟨hlists.level1, List.pairwise_map.mpr hlists.sorted1⟩, ?_, ?_⟩
  · intro order
    rw [(hlists.l0_ids_perm order).length_eq, List.length_map]
  · exact fun index owner ctx reader program hcall hprogram => DBImpl.rejected hcall hprogram

/-- A session that starts with one table, with a compaction of it under way. -/
theorem readers_in_step_of_one_table :
    ∃ db disk trace, History (fun disk _ => disk.ScansInts) (some db) disk trace ∧
      db.calls.length = 1 ∧ db.levels.l0.length = 1 ∧
      ∀ id : Nat, db.levels.manifest.state.sst_levels[id]? = some 0 ↔
        id ∈ db.levels.l0.map SSTableReader.file_number := by
  have hrun : (do
      let first ← System.open .forward .empty
      let closed ← first.run deleteActs
      let second ← System.open .forward closed.disk
      let prepared ← second.run [.compact_prepare .caller .forward, .compact_build 0 true]
      if closed.disk.recovered.sst_levels.isEmpty = false ∧ prepared.db.calls.length = 1 ∧
          prepared.db.levels.l0.length = 1 then some () else none) = some () := by
    decide +kernel
  simp only [Option.bind_eq_bind, Option.bind_eq_some_iff] at hrun
  obtain ⟨first, hfirst, closed, hclosed, second, hsecond, prepared, hprepared, hif⟩ := hrun
  simp only [Option.ite_none_right_eq_some, and_true] at hif
  obtain ⟨hlisted, hcalls, hl0⟩ := hif
  have hopened : ∃ trace, History (fun disk _ => disk.ScansInts) (some first.db) first.disk trace :=
    History.opened .empty (fun _ => nofun) hfirst
  obtain ⟨_, hran⟩ := hopened.choose_spec.run hclosed
  obtain ⟨_, hreopened⟩ := hran.quit.opened (fun hnone => by simp [hlisted] at hnone) hsecond
  obtain ⟨trace, h⟩ := hreopened.run hprepared
  exact ⟨prepared.db, prepared.disk, trace, h, hcalls, hl0, (History.readers_in_step h).1.1⟩

theorem next_boot_events (state : ManifestState Nat) (id : Nat) (ids : List Nat) :
    (stateAll state (boot_events id ids)).next_file_number = state.next_file_number + 1 := by
  have hadd : ∀ (state : ManifestState Nat) (other : Nat),
      (Event.state state (.call (.add_wal other))).next_file_number = state.next_file_number := by
    intro state other
    simp only [Event.state, ManifestCall.edit?]
    split <;> rfl
  have hadds : ∀ state : ManifestState Nat, (stateAll state
      (ids.map fun other => .call (.add_wal other))).next_file_number = state.next_file_number := by
    induction ids with
    | nil => exact fun _ => rfl
    | cons other ids ih => exact fun state => (ih _).trans (hadd state other)
  exact (hadds _).trans (hadd _ id)

/-- A session on a directory without a table, up to its start. -/
theorem History.idle_session {disk : Disk} {trace : List DiskEffect}
    (h : History (fun _ _ => True) none disk trace) (hlevels : disk.recovered.sst_levels = ∅)
    (hssts : disk.ssts = ∅) :
    ∃ (system : System) (trace' : List DiskEffect),
      History (fun _ _ => True) (some system.db) system.disk trace' ∧ system.db.Opened ∧
      system.db.levels.manifest.state.next_file_number = disk.recovered.next_file_number + 1 ∧
      system.db.levels.manifest.state.sst_levels = ∅ ∧ system.disk.ssts = ∅ := by
  obtain ⟨db, ids, heq, hopened, -, hloaded⟩ :=
    DBImpl.open_eq .forward (((Numbered.preserved _).history h).1 rfl).opens
  have hboot := History.boot h trivial .forward (congrArg Prod.fst heq)
  have hscanned : disk.scanned_state = disk.recovered := by
    rw [Disk.scanned_state, hssts]
    simp [scanned_readers]
  have hstate : disk.loaded.manifest.state = disk.recovered := by
    simp only [Disk.loaded, hscanned]
    split <;> rfl
  have hfinal : (DBImpl.open .forward).final disk = applyAll (applyAll disk disk.load_effects)
      (effectsAll disk.loaded.manifest
        (boot_events (disk.loaded.manifest.state.next_file_number + 1) ids)) := by
    rw [Program.final, heq, applyAll_append]
  have hfiles : ((DBImpl.open .forward).final disk).ssts = ∅ := by
    have hdata := data_effectsAll (boot_events (disk.loaded.manifest.state.next_file_number + 1) ids)
      disk.loaded.manifest (applyAll disk disk.load_effects)
    rw [disk.load_effects_quiet.1, ← hfinal] at hdata
    refine ExtTreeMap.ext_getElem? fun id => ?_
    have hkept : (dataAll disk.data _).ssts[id]? = disk.data.ssts[id]? := getElem?_dataAll
      (boot_events_untouched (disk.loaded.manifest.state.next_file_number + 1) ids id)
    rw [← hdata] at hkept
    rw [← hssts]
    exact hkept
  refine ⟨⟨db, (DBImpl.open .forward).final disk⟩, _, hboot, hopened, ?_, ?_, hfiles⟩
  · simp only [hloaded, afterAll_state, next_boot_events, hstate]
  · simp only [hloaded, afterAll_state, sst_levels_stateAll (boot_events_plain _ ids), hstate, hlevels]

theorem Disk.Follows.unlisted {disk : Disk} {state : ManifestState Nat} (h : disk.Follows state)
    (hnone : state.sst_levels = ∅) : disk.recovered.sst_levels = ∅ := by
  refine ExtTreeMap.ext_getElem? fun id => ?_
  rw [ExtTreeMap.getElem?_empty, Option.eq_none_iff_forall_ne_some]
  intro level hlevel
  have hlisted := h.listed id level hlevel
  rw [hnone, ExtTreeMap.getElem?_empty] at hlisted
  cases hlisted

/-- Sessions without a write: each takes a number for its log. -/
theorem exists_idle_sessions (n : Nat) :
    ∃ disk trace, History (fun _ _ => True) none disk trace ∧ disk.recovered.next_file_number = n ∧
      disk.recovered.sst_levels = ∅ ∧ disk.ssts = ∅ := by
  induction n with
  | zero => exact ⟨.empty, [], .empty, rfl, rfl, rfl⟩
  | succ n ih =>
    obtain ⟨disk, trace, h, hnext, hlevels, hssts⟩ := ih
    obtain ⟨system, trace', hstarted, -, hnumber, hnone, hfiles⟩ := h.idle_session hlevels hssts
    have hfollows := (((Numbered.preserved _).history hstarted).2 _ rfl).tracked.follows
    refine ⟨system.disk, trace', hstarted.quit, ?_, hfollows.unlisted hnone, hfiles⟩
    rw [hfollows.next, hnumber, hnext]

/-- A database with something to flush: a `Put` unless the memtable is full already. -/
theorem System.run_filled {self : System} (hopened : self.db.Opened) :
    ∃ acts next mem, self.run acts = some next ∧ 0 < mem.count ∧
      next.db = { self.db with mem := some mem } ∧ next.disk.ssts = self.disk.ssts := by
  obtain ⟨mem, hmem⟩ := Option.isSome_iff_exists.mp hopened.mem
  by_cases hroom : mem.count < kMemTableLimit
  · let record : ValueRecord := ⟨.kDeletion, []⟩
    let locked : System := { self with db := { self.db with writer := some ([], record) } }
    have hlock : self.step (.put_lock [] record) = some locked :=
      System.step_put_lock [] record hmem hopened.writer hopened.bg_stopped hroom
    let written : System :=
      { db := { self.db with mem := some { mem with table := mem.table.insert [] record } }
        disk := self.disk.apply (.append_wal mem.wal ([], record)) }
    have hwrite : locked.step .put_write = some written := by
      simp only [System.step, DBImpl.program, DBImpl.put_write, locked, hmem, Option.map_some, written,
        ← hopened.writer]
      rfl
    refine ⟨[.put_lock [] record, .put_write], written, _, ?_, ?_, rfl, rfl⟩
    · rw [System.run_cons hlock, System.run_cons hwrite]
      rfl
    · have hsome : (mem.table.insert [] record).isEmpty = false := by simp
      rw [ExtTreeMap.isEmpty_eq_size_beq_zero] at hsome
      exact Nat.pos_of_ne_zero (ne_of_beq_false hsome)
  · refine ⟨[], self, mem, rfl, ?_, ?_, rfl⟩
    · exact Nat.lt_of_lt_of_le (by decide) (Nat.le_of_not_lt hroom)
    · rw [← hmem]

theorem System.step_of_acts {self : System} {act : Act} {program : FileM DBImpl} {events : List Event}
    {db : DBImpl} (hprogram : self.db.program act = some program)
    (hacts : Acts program self.disk self.db.levels.manifest events db) :
    ∃ next, self.step act = some next ∧ next.db = db ∧ next.disk.data = dataAll self.disk.data events := by
  have hrun : program self.disk = (db, effectsAll self.db.levels.manifest events) := hacts
  refine ⟨⟨(program self.disk).1, program.final self.disk⟩, ?_, ?_, ?_⟩
  · rw [System.step, hprogram]
    rfl
  · rw [hrun]
  · rw [Program.final, hrun]
    exact data_effectsAll _ _ _

theorem Acts.write_fresh {disk : Disk} {manifest : ManifestManager Nat} {id : Nat} {table : SSTable}
    (hfresh : id ∉ disk.ssts) (hrecords : table.records ≠ []) :
    Acts (NovaKV.write_sst id table true) disk manifest [.create_sst id table]
      (some ⟨id, table, hrecords⟩) := by
  refine .read ?_
  simp only [if_neg hfresh, if_true, SSTableReader.open_of_nonempty hrecords]
  exact .step (.create_sst _ _) (.pure _)

/-- The destructor up to the point where its table has been written. -/
theorem System.run_unfinished {self : System} {mem : MemTable} (hmem : self.db.mem = some mem)
    (hcount : 0 < mem.count) (hopened : self.db.Opened) (hssts : self.disk.ssts = ∅) :
    ∃ (next : System) (table : SSTable),
      self.run [.stop, .bg_wake, .last_flush, .minor_prepare, .minor_build true] = some next ∧
      next.db.levels.manifest.state.sst_levels = self.db.levels.manifest.state.sst_levels ∧
      table.records ≠ [] ∧
      next.disk.ssts = (∅ : ExtTreeMap Nat SSTable).insert
        (self.db.levels.manifest.state.next_file_number + 1) table := by
  let called : System :=
    { self with
      db := { self.db with
        bg_stopped := true, bg := .exited, imm := some mem, imm_wal_id := self.db.active_wal_id, mem := none
        flusher := .called } }
  have hcalled : self.run [.stop, .bg_wake, .last_flush] = some called := by
    simp [System.run, System.step, DBImpl.program, DBImpl.stop, DBImpl.bg_wake, DBImpl.last_flush,
      hopened.bg_stopped, hopened.writer, hopened.calls, hopened.bg, hopened.flusher, hmem, hcount,
      called, Program.final]
  let manifest := (self.db.levels.manifest.allocate_file_number {}).1
  let ctx : MinorCtx :=
    { flushing_imm := mem, old_wal_id := self.db.active_wal_id, new_sst_id := manifest.state.next_file_number }
  obtain ⟨prepared, hprepare, hprepared, hdata⟩ := @System.step_of_acts called .minor_prepare _ _
    { called.db with levels := { self.db.levels with manifest := manifest }, flusher := .prepared ctx } rfl
    (.step .allocate (.pure _))
  have hfiles : prepared.disk.ssts = ∅ := (congrArg Data.ssts hdata).trans hssts
  have hrecords : (SSTable.of_map mem.table).records ≠ [] := by
    refine records_of_map_ne_nil ?_
    rw [ExtTreeMap.isEmpty_eq_size_beq_zero]
    exact beq_false_of_ne hcount.ne'
  have hwrite : Acts (build_minor_sst ctx true) prepared.disk prepared.db.levels.manifest
      [.create_sst ctx.new_sst_id (.of_map mem.table)] _ := .write_fresh (by simp [hfiles]) hrecords
  have hprogram : prepared.db.program (.minor_build true) = some (do
      let reader ← build_minor_sst ctx true
      return { prepared.db with flusher := .built ctx reader }) := by
    rw [hprepared]
    rfl
  obtain ⟨built, hbuild, hbuilt, hcreated⟩ := System.step_of_acts hprogram (.last hwrite (.pure _))
  refine ⟨built, .of_map mem.table, ?_, ?_, hrecords, ?_⟩
  · have hrest : called.run [.minor_prepare, .minor_build true] = some built := by
      rw [System.run_cons hprepare, System.run_cons hbuild]
      rfl
    exact (System.run_append hcalled _).trans hrest
  · rw [hbuilt, hprepared]
    simp only [manifest, ManifestManager.allocate_file_number_eq_commit, ManifestManager.commit_state]
    rfl
  · have hnumber : ctx.new_sst_id = self.db.levels.manifest.state.next_file_number + 1 := allocate_next _
    rw [← hnumber, ← hfiles]
    exact congrArg Data.ssts hcreated

/-- A table whose number is no `int` is listed under another one by the scan that
finds it. -/
theorem scan_lists_other_number :
    ¬ ∀ (db : DBImpl) (disk : Disk) (trace : List DiskEffect), History (fun _ _ => True) (some db) disk trace →
      ∀ id : Nat, db.levels.manifest.state.sst_levels[id]? = some 0 ↔
        id ∈ db.levels.l0.map SSTableReader.file_number := by
  intro hall
  obtain ⟨disk, trace, hidle, hnext, hlevels, hssts⟩ := exists_idle_sessions (2 ^ 31 - 2)
  obtain ⟨started, _, hstarted, hopened, hnumber, hnone, hfiles⟩ := hidle.idle_session hlevels hssts
  obtain ⟨acts, filled, mem, hfill, hcount, hfilled, hsame⟩ := System.run_filled hopened
  have hmem : filled.db.mem = some mem := by rw [hfilled]
  have hready : filled.db.Opened := by
    rw [hfilled]
    exact ⟨rfl, hopened.imm, hopened.bg_stopped, hopened.bg_compaction_scheduled, hopened.bg,
      hopened.flusher, hopened.writer, hopened.calls⟩
  obtain ⟨built, table, hbuild, hlisted, hrecords, hcreated⟩ :=
    System.run_unfinished hmem hcount hready (hsame.trans hfiles)
  obtain ⟨_, hwritten⟩ := hstarted.run hfill
  obtain ⟨_, hlast⟩ := hwritten.run hbuild
  have hkept := ((Numbered.preserved _).history hlast).2 _ rfl
  have hempty : built.disk.recovered.sst_levels = ∅ := hkept.tracked.follows.unlisted (by
    rw [hlisted, hfilled]
    exact hnone)
  rw [hfilled, hnumber, hnext] at hcreated
  obtain ⟨db, ids, heq, -, -, hloaded⟩ :=
    DBImpl.open_eq .forward (((Numbered.preserved _).history hlast.quit).1 rfl).opens
  have hreopened := History.boot hlast.quit trivial .forward (congrArg Prod.fst heq)
  have hnumbers : ∀ id, id ∈ built.disk.ssts ↔ id = 2 ^ 31 := by
    intro id
    rw [hcreated, ExtTreeMap.mem_insert, LawfulEqCmp.compare_eq_iff_eq]
    simp [eq_comm]
  have hstate : db.levels.manifest.state.sst_levels = built.disk.scanned_state.sst_levels := by
    simp only [hloaded, afterAll_state, sst_levels_stateAll (boot_events_plain _ ids)]
    simp [Disk.loaded, hempty]
  have hl0 : db.levels.l0 = scanned_readers built.disk.ssts := by
    simp [hloaded, Disk.loaded, hempty]
  have hfound : 2 ^ 31 ∈ db.levels.l0.map SSTableReader.file_number := by
    rw [hl0]
    refine List.mem_map.mpr ⟨⟨2 ^ 31, table, hrecords⟩, List.mem_filterMap.mpr ⟨2 ^ 31, ?_, ?_⟩, rfl⟩
    · rw [List.mem_mergeSort, ExtTreeMap.mem_keys]
      exact (hnumbers _).mpr rfl
    · simp [hcreated, SSTableReader.open_of_nonempty hrecords]
  have hmember := mem_of_getElem?_eq_some ((hall db _ _ hreopened (2 ^ 31)).mpr hfound)
  rw [hstate] at hmember
  rcases mem_foldl_insert.mp hmember with hold | ⟨reader, hreader, hsame⟩
  · simp [hempty] at hold
  · rw [(hnumbers _).mp (scanned_reader_mem hreader)] at hsame
    exact absurd hsame (by decide)

end NovaKV
