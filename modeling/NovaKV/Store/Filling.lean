import NovaKV.Store.Threads
import NovaKV.Store.Tombstones

open Std
open NovaKV.Lib

namespace NovaKV

theorem System.run_append {self mid : System} {first : List Act} (h : self.run first = some mid)
    (second : List Act) : self.run (first ++ second) = mid.run second := by
  induction first generalizing self with
  | nil =>
    cases h
    rfl
  | cons act acts ih =>
    obtain ⟨next, hstep, hrest⟩ := Option.bind_eq_some_iff.mp h
    rw [List.cons_append, System.run, hstep, Option.bind_some]
    exact ih hrest

theorem System.exists_run_append {self last : System} {first second : List Act}
    (h : self.run (first ++ second) = some last) : ∃ mid, self.run first = some mid ∧ mid.run second = some last := by
  induction first generalizing self with
  | nil => exact ⟨self, rfl, h⟩
  | cons act acts ih =>
    obtain ⟨next, hstep, hrest⟩ := Option.bind_eq_some_iff.mp h
    obtain ⟨mid, hfirst, hsecond⟩ := ih hrest
    exact ⟨mid, by rw [System.run, hstep, Option.bind_some, hfirst], hsecond⟩

theorem System.run_cons {self mid : System} {act : Act} (h : self.step act = some mid)
    (acts : List Act) : self.run (act :: acts) = mid.run acts := by
  rw [System.run, h, Option.bind_some]

/-- A database on an empty directory. -/
theorem System.open_empty : ∃ start mem, System.open .forward Disk.empty = some start ∧
    start.db.mem = some mem ∧ mem.table = ∅ ∧ start.db.levels.l0 = [] ∧ start.db.levels.l1 = [] := by
  have hempty : (System.open .forward Disk.empty).any (fun system =>
      system.db.mem.any (·.table.isEmpty) && (system.db.levels.l0.isEmpty && system.db.levels.l1.isEmpty)) = true := by
    decide +kernel
  obtain ⟨start, hopen, hempty⟩ := (Option.any_eq_true _ _).mp hempty
  obtain ⟨hmem, hlevels⟩ := Bool.and_eq_true_iff.mp hempty
  obtain ⟨hl0, hl1⟩ := Bool.and_eq_true_iff.mp hlevels
  obtain ⟨mem, hmem, htable⟩ := (Option.any_eq_true _ _).mp hmem
  exact ⟨start, mem, hopen, hmem, ExtTreeMap.isEmpty_iff.mp htable, List.isEmpty_iff.mp hl0, List.isEmpty_iff.mp hl1⟩

/-- Keys of all lengths, one each. -/
def nthKey (n : Nat) : Key := List.replicate n 0

/-- `count` writes of new keys, the first one of length `first`. -/
def fillActs (record : ValueRecord) (first count : Nat) : List Act :=
  (List.range' first count).flatMap fun n => [.put_lock (nthKey n) record, .put_write]

def fillRecords (record : ValueRecord) (first count : Nat) : List WalRecord :=
  (List.range' first count).map fun n => (nthKey n, record)

theorem fillActs_succ (record : ValueRecord) (first count : Nat) : fillActs record first (count + 1) =
    .put_lock (nthKey first) record :: .put_write :: fillActs record (first + 1) count := by
  rw [fillActs, List.range'_succ, List.flatMap_cons]
  rfl

theorem fillRecords_succ (record : ValueRecord) (first count : Nat) :
    fillRecords record first (count + 1) = (nthKey first, record) :: fillRecords record (first + 1) count := by
  rw [fillRecords, List.range'_succ, List.map_cons]
  rfl

theorem latest_fillRecords (record : ValueRecord) {first count n : Nat} (hfirst : first ≤ n)
    (hcount : n < first + count) : latest (fillRecords record first count) (nthKey n) = some record := by
  have hsome : ((fillRecords record first count).reverse.lookup (nthKey n)).isSome := by
    rw [List.lookup_isSome_iff]
    refine ⟨(nthKey n, record), ?_, by simp⟩
    rw [List.mem_reverse]
    exact List.mem_map.mpr ⟨n, List.mem_range'_1.mpr ⟨hfirst, hcount⟩, rfl⟩
  obtain ⟨found, hfound⟩ := Option.isSome_iff_exists.mp hsome
  obtain ⟨m, -, heq⟩ := List.mem_map.mp (mem_of_latest hfound)
  exact hfound.trans (congrArg some (Prod.mk.inj heq).2.symm)

theorem fillActs_puts {record : ValueRecord} {first count : Nat} {act : Act}
    (h : act ∈ fillActs record first count) : act = .put_write ∨ ∃ key record, act = .put_lock key record := by
  obtain ⟨n, -, hact⟩ := List.mem_flatMap.mp h
  simp only [List.mem_cons, List.not_mem_nil, or_false] at hact
  rcases hact with rfl | rfl
  · exact .inr ⟨_, _, rfl⟩
  · exact .inl rfl

theorem fillActs_ok {record : ValueRecord} {first count : Nat} {act : Act} (h : act ∈ fillActs record first count) :
    act.io_ok = true ∧ act.is_destructor = false := by
  rcases fillActs_puts h with rfl | ⟨key, record, rfl⟩ <;> exact ⟨rfl, rfl⟩

/-- A `Put` that finds room in the memtable. -/
theorem System.step_put_lock {self : System} {mem : MemTable} (key : Key) (record : ValueRecord)
    (hmem : self.db.mem = some mem) (hwriter : self.db.writer = none) (hstopped : self.db.bg_stopped = false)
    (hroom : mem.count < kMemTableLimit) : self.step (.put_lock key record) =
      some { self with db := { self.db with writer := some (key, record) } } := by
  simp [System.step, DBImpl.program, DBImpl.put_lock, hstopped, hwriter, hmem, hroom, Program.final]

/-- Writing new keys fills a memtable that has room for them. -/
theorem System.run_fillActs (record : ValueRecord) {self : System} {mem : MemTable} {first count : Nat}
    (hmem : self.db.mem = some mem) (hwriter : self.db.writer = none)
    (hstopped : self.db.bg_stopped = false) (hkeys : ∀ key ∈ mem.table, key.length < first)
    (hroom : mem.count + count ≤ kMemTableLimit) :
    ∃ next mem', self.run (fillActs record first count) = some next ∧
      next.db = { self.db with mem := some mem' } ∧ mem'.count = mem.count + count ∧
      mem'.table = mem.table.insertMany (fillRecords record first count) := by
  induction count generalizing self mem first with
  | zero =>
    refine ⟨self, mem, rfl, ?_, rfl, rfl⟩
    rw [← hmem]
  | succ count ih =>
    have hfresh : nthKey first ∉ mem.table := by
      intro hmem
      have hlength := hkeys _ hmem
      simp [nthKey] at hlength
    have hspace : mem.count < kMemTableLimit := by omega
    let locked : System := { self with db := { self.db with writer := some (nthKey first, record) } }
    have hlock : self.step (.put_lock (nthKey first) record) = some locked :=
      System.step_put_lock _ record hmem hwriter hstopped hspace
    let written : System :=
      { db := { self.db with mem := some { mem with table := mem.table.insert (nthKey first) record } }
        disk := self.disk.apply (.append_wal mem.wal (nthKey first, record)) }
    have hwrite : locked.step .put_write = some written := by
      simp [System.step, DBImpl.program, DBImpl.put_write, locked, hmem, written, hwriter]
      exact ⟨rfl, rfl⟩
    have hcount : MemTable.count { mem with table := mem.table.insert (nthKey first) record } =
        mem.count + 1 := by
      simp [MemTable.count, ExtTreeMap.size_insert, hfresh]
    have hkeys' : ∀ key ∈ mem.table.insert (nthKey first) record, key.length < first + 1 := by
      intro key hkey
      rw [ExtTreeMap.mem_insert] at hkey
      rcases hkey with heq | hkey
      · rw [← LawfulEqCmp.eq_of_compare heq]
        simp [nthKey]
      · exact (hkeys key hkey).trans (Nat.lt_succ_self _)
    obtain ⟨next, mem', hrun, hdb, hcount', htable⟩ := @ih written _ _ rfl hwriter hstopped hkeys'
      (by rw [hcount]; omega)
    refine ⟨next, mem', ?_, hdb, by omega, ?_⟩
    · rw [fillActs_succ]
      exact (System.run_cons hlock _).trans ((System.run_cons hwrite _).trans hrun)
    · rw [htable, fillRecords_succ, ExtTreeMap.insertMany_cons]

/-- The records of these writes are all that is written. -/
theorem System.puts_fillActs {self next : System} {record : ValueRecord} {first count : Nat}
    (hrun : self.run (fillActs record first count) = some next) :
    self.puts (fillActs record first count) = fillRecords record first count := by
  induction count generalizing self first with
  | zero => rfl
  | succ count ih =>
    rw [fillActs_succ] at hrun ⊢
    obtain ⟨locked, hlock, hrun⟩ := Option.bind_eq_some_iff.mp hrun
    obtain ⟨written, hwrite, hrun⟩ := Option.bind_eq_some_iff.mp hrun
    have hwriter : locked.db.completes .put_write = [(nthKey first, record)] := by
      rw [DBImpl.completes, (System.step_transition hlock).writer_put_lock]
      rfl
    rw [System.puts_cons hlock, System.puts_cons hwrite, hwriter, ih hrun, fillRecords_succ]
    rfl

/-- Nothing is written by other steps. -/
theorem System.puts_of_quiet {self : System} {acts : List Act} (hquiet : ∀ act ∈ acts, act ≠ .put_write) :
    self.puts acts = [] := by
  induction acts generalizing self with
  | nil => rfl
  | cons act acts ih =>
    have hcompletes : self.db.completes act = [] := by
      cases act <;> first | rfl | exact absurd rfl (hquiet _ List.mem_cons_self)
    rw [System.puts, hcompletes, List.nil_append]
    cases self.step act with
    | none => rfl
    | some next => exact ih fun other hother => hquiet other (List.mem_cons_of_mem _ hother)

/-- The state after a `Put` that rotates the memtable. -/
theorem System.step_rotate {self : System} {mem : MemTable} (key : Key) (record : ValueRecord)
    (hmem : self.db.mem = some mem) (himm : self.db.imm = none) (hwriter : self.db.writer = none)
    (hstopped : self.db.bg_stopped = false) (hfull : kMemTableLimit ≤ mem.count) :
    ∃ next manifest wal, self.step (.put_lock key record) = some next ∧
      next.db = { self.db with
        levels := { self.db.levels with manifest := manifest }
        imm_wal_id := self.db.active_wal_id
        imm := some mem
        mem := some { wal := wal, table := ∅ }
        active_wal_id := wal
        bg_compaction_scheduled := true
        writer := some (key, record) } := by
  have hnot : ¬ mem.count < kMemTableLimit := Nat.not_lt.mpr hfull
  simp only [System.step, DBImpl.program, DBImpl.put_lock, hstopped, hwriter, hmem, hnot, himm,
    Option.isSome_none, Bool.or_false, Bool.false_eq_true, if_false, Option.map_some]
  exact ⟨_, _, _, rfl, rfl⟩

/-- Writing new keys until the memtable is full, and the `Put` after them, rotate it. -/
theorem System.run_rotate {self : System} {mem : MemTable} {first count : Nat} (filler : ValueRecord)
    (key : Key) (record : ValueRecord) (hmem : self.db.mem = some mem) (himm : self.db.imm = none)
    (hwriter : self.db.writer = none) (hstopped : self.db.bg_stopped = false)
    (hkeys : ∀ key ∈ mem.table, key.length < first) (hcount : mem.count + count = kMemTableLimit) :
    ∃ next manifest full wal,
      self.run (fillActs filler first count ++ [.put_lock key record]) = some next ∧
      full.count = kMemTableLimit ∧
      full.table = mem.table.insertMany (fillRecords filler first count) ∧
      next.db = { self.db with
        levels := { self.db.levels with manifest := manifest }
        imm_wal_id := self.db.active_wal_id
        imm := some full
        mem := some { wal := wal, table := ∅ }
        active_wal_id := wal
        bg_compaction_scheduled := true
        writer := some (key, record) } := by
  obtain ⟨filled, full, hfill, hfilled, hfull, htable⟩ := System.run_fillActs filler hmem hwriter hstopped
    hkeys hcount.le
  obtain ⟨next, manifest, wal, hrotate, hnext⟩ := @System.step_rotate filled full key record
    (by rw [hfilled]) (by rw [hfilled]; exact himm) (by rw [hfilled]; exact hwriter)
    (by rw [hfilled]; exact hstopped) (by omega)
  refine ⟨next, manifest, full, wal, ?_, hfull.trans hcount, htable, ?_⟩
  · rw [System.run_append hfill, System.run_cons hrotate]
    rfl
  · rw [hnext, hfilled]

/-- The `Put` that rotates has not written yet. -/
theorem System.puts_rotate {self next : System} {filler record : ValueRecord} {key : Key} {first count : Nat}
    (hrun : self.run (fillActs filler first count ++ [.put_lock key record]) = some next) :
    self.puts (fillActs filler first count ++ [.put_lock key record]) = fillRecords filler first count := by
  obtain ⟨filled, hfill, -⟩ := System.exists_run_append hrun
  rw [System.puts_append hfill, System.puts_fillActs hfill, System.puts_of_quiet (by simp), List.append_nil]

/-- The write that follows a rotation. -/
theorem System.step_put_write {self : System} {mem : MemTable} {key : Key} {record : ValueRecord}
    (hmem : self.db.mem = some mem) (hwriter : self.db.writer = some (key, record)) :
    ∃ next, self.step .put_write = some next ∧
      next.db = { self.db with
        mem := some { mem with table := mem.table.insert key record }, writer := none } := by
  simp only [System.step, DBImpl.program, DBImpl.put_write, hwriter, hmem, Option.map_some]
  exact ⟨_, rfl, rfl⟩

/-- A whole call of `MinorCompaction`. -/
def minorActs : List Act := [.minor_prepare, .minor_build true, .minor_install]

/-- The flushed table is built. -/
theorem System.run_minor_build {self : System} {imm : MemTable} (hcalled : self.db.flusher = .called)
    (himm : self.db.imm = some imm) (hcount : 0 < imm.count) :
    ∃ next manifest ctx reader, self.run [.minor_prepare, .minor_build true] = some next ∧
      next.db = { self.db with
        levels := { self.db.levels with manifest := manifest }, flusher := .built ctx (some reader) } := by
  obtain ⟨prepared, manifest, hprepare, hprepared⟩ : ∃ next manifest,
      self.step .minor_prepare = some next ∧ next.db = { self.db with
        levels := { self.db.levels with manifest := manifest }
        flusher := .prepared
          { flushing_imm := imm, old_wal_id := self.db.imm_wal_id
            new_sst_id := manifest.state.next_file_number } } := by
    simp only [System.step, DBImpl.program, DBImpl.minor_prepare, hcalled, himm, Option.map_some]
    exact ⟨_, _, rfl, rfl⟩
  let ctx : MinorCtx :=
    { flushing_imm := imm, old_wal_id := self.db.imm_wal_id
      new_sst_id := manifest.state.next_file_number }
  have hflusher : prepared.db.flusher = .prepared ctx := by rw [hprepared]
  obtain ⟨built, reader, hbuild, hbuilt⟩ : ∃ next reader,
      prepared.step (.minor_build true) = some next ∧
        next.db = { prepared.db with flusher := .built ctx (some reader) } := by
    have hnonempty : imm.table.isEmpty = false := by
      rw [ExtTreeMap.isEmpty_eq_size_beq_zero]
      exact beq_false_of_ne hcount.ne'
    have hsome := @write_sst_returns ctx.new_sst_id (.of_map imm.table)
      (records_of_map_ne_nil hnonempty) prepared.disk
    obtain ⟨reader, hreader⟩ := Option.isSome_iff_exists.mp hsome
    simp only [System.step, DBImpl.program, DBImpl.minor_build, hflusher, Option.map_some]
    refine ⟨_, reader, rfl, ?_⟩
    rw [← hreader]
    rfl
  refine ⟨built, manifest, ctx, reader, ?_, ?_⟩
  · rw [System.run_cons hprepare, System.run_cons hbuild]
    rfl
  · rw [hbuilt, hprepared]

/-- A flush: the table goes on top of level 0, and a second one there calls for a
compaction. -/
theorem System.run_minorActs {self : System} {imm : MemTable} (hcalled : self.db.flusher = .called)
    (himm : self.db.imm = some imm) (hcount : 0 < imm.count) :
    ∃ next manifest reader, self.run minorActs = some next ∧
      next.db = { self.db with
        levels := { self.db.levels with manifest := manifest, l0 := self.db.levels.l0 ++ [reader] }
        imm := none
        imm_wal_id := 0
        flusher := if self.db.levels.l0 = [] then .idle else .compact_called } := by
  obtain ⟨built, manifest, ctx, reader, hbuild, hbuilt⟩ := System.run_minor_build hcalled himm hcount
  obtain ⟨installed, manifest', hinstall, hinstalled⟩ : ∃ next manifest',
      built.step .minor_install = some next ∧ next.db = { built.db with
        levels := { built.db.levels with manifest := manifest', l0 := built.db.levels.l0 ++ [reader] }
        imm := none
        imm_wal_id := 0
        flusher := if (built.db.levels.l0 ++ [reader]).length ≥ 2 then .compact_called else .idle } := by
    have hflusher : built.db.flusher = .built ctx (some reader) := by rw [hbuilt]
    simp only [System.step, DBImpl.program, DBImpl.minor_install, hflusher, Option.map_some]
    exact ⟨_, _, rfl, rfl⟩
  refine ⟨installed, manifest', reader, ?_, ?_⟩
  · have hrun := System.run_append hbuild [.minor_install]
    rw [System.run_cons hinstall] at hrun
    exact hrun
  · rw [hinstalled, hbuilt]
    cases self.db.levels.l0 <;> simp

theorem System.step_bg_wake {self : System} (hbg : self.db.bg = .waiting) (hstopped : self.db.bg_stopped = false)
    (hscheduled : self.db.bg_compaction_scheduled = true) :
    self.step .bg_wake = some { self with db := { self.db with bg := .running, flusher := .called } } := by
  have hrunning : ¬ self.db.bg_stopped = true := by simp [hstopped]
  rw [System.step, DBImpl.program, DBImpl.bg_wake, if_pos hbg, if_neg hrunning, if_pos hscheduled]
  rfl

theorem System.step_bg_reset {self : System} (hbg : self.db.bg = .running) (hidle : self.db.flusher = .idle) :
    self.step .bg_reset = some
      { self with db := { self.db with bg := .waiting, bg_compaction_scheduled := false } } := by
  simp only [System.step, DBImpl.program, DBImpl.bg_reset, hbg, hidle, Option.map_some]
  rfl

/-- A flush by the background thread, up to the reset of the flag. -/
theorem System.run_flush {self : System} {imm : MemTable} (himm : self.db.imm = some imm)
    (hcount : 0 < imm.count) (hbg : self.db.bg = .waiting) (hstopped : self.db.bg_stopped = false)
    (hscheduled : self.db.bg_compaction_scheduled = true) :
    ∃ next manifest reader, self.run (.bg_wake :: minorActs) = some next ∧
      next.db = { self.db with
        levels := { self.db.levels with manifest := manifest, l0 := self.db.levels.l0 ++ [reader] }
        imm := none
        imm_wal_id := 0
        bg := .running
        flusher := if self.db.levels.l0 = [] then .idle else .compact_called } := by
  let woken : System := { self with db := { self.db with bg := .running, flusher := .called } }
  obtain ⟨next, manifest, reader, hrun, hnext⟩ := @System.run_minorActs woken imm rfl himm hcount
  exact ⟨next, manifest, reader, (System.run_cons (System.step_bg_wake hbg hstopped hscheduled) _).trans hrun, hnext⟩

/-- On an empty directory the first memtable is filled, and the `Put` after that
rotates it. -/
def rotationActs (filler : ValueRecord) (key : Key) (record : ValueRecord) : List Act :=
  (fillActs filler 0 10000 ++ [.put_lock key record]) ++ [.put_write]

theorem rotationActs_ok {filler record : ValueRecord} {key : Key} {act : Act}
    (h : act ∈ rotationActs filler key record) : act.io_ok = true ∧ act.is_destructor = false := by
  simp only [rotationActs, List.mem_append, List.mem_singleton] at h
  rcases h with (h | rfl) | rfl
  · exact fillActs_ok h
  · exact ⟨rfl, rfl⟩
  · exact ⟨rfl, rfl⟩

theorem System.run_rotationActs (filler : ValueRecord) (key : Key) (record : ValueRecord) :
    ∃ start written manifest full wal, System.open .forward Disk.empty = some start ∧
      start.run (rotationActs filler key record) = some written ∧ 0 < full.count ∧
      written.db = { start.db with
        levels := { manifest := manifest, l0 := [], l1 := [] }
        imm_wal_id := start.db.active_wal_id
        imm := some full
        mem := some { wal := wal, table := (∅ : ExtTreeMap Key ValueRecord).insert key record }
        active_wal_id := wal
        bg_compaction_scheduled := true
        writer := none } ∧
      start.puts (rotationActs filler key record) = fillRecords filler 0 10000 ++ [(key, record)] := by
  obtain ⟨start, mem, hopen, hmem, htable, hl0, hl1⟩ := System.open_empty
  have hopened := System.open_opened hopen
  have hkeys : ∀ key ∈ mem.table, key.length < 0 := by simp [htable]
  have hroom : mem.count + 10000 = kMemTableLimit := by simp [MemTable.count, htable, kMemTableLimit]
  obtain ⟨rotated, manifest, full, wal, hrotate, hfull, -, hrotated⟩ := System.run_rotate filler key record hmem
    hopened.imm hopened.writer hopened.bg_stopped hkeys hroom
  obtain ⟨written, hwrite, hwritten⟩ := @System.step_put_write rotated ⟨wal, ∅⟩ key record
    (by rw [hrotated]) (by rw [hrotated])
  rw [hrotated] at hwritten
  simp only [hl0, hl1] at hwritten
  refine ⟨start, written, manifest, full, wal, hopen, ?_, by rw [hfull]; decide, hwritten, ?_⟩
  · rw [rotationActs, System.run_append hrotate, System.run_cons hwrite]
    rfl
  · have hcompletes : rotated.db.completes .put_write = [(key, record)] := by
      rw [DBImpl.completes, hrotated]
      rfl
    rw [rotationActs, System.puts_append hrotate, System.puts_rotate hrotate, System.puts_cons hwrite, hcompletes,
      System.puts, List.append_nil]

/-- On an empty directory the first memtable is filled, and the `Put` after that has
it flushed. -/
def firstFlushActs (filler : ValueRecord) (key : Key) (record : ValueRecord) : List Act :=
  (fillActs filler 0 10000 ++ [.put_lock key record]) ++ .put_write :: .bg_wake :: minorActs

theorem firstFlushActs_eq (filler : ValueRecord) (key : Key) (record : ValueRecord) :
    firstFlushActs filler key record = rotationActs filler key record ++ .bg_wake :: minorActs := by
  simp [firstFlushActs, rotationActs]

theorem firstFlushActs_ok {filler record : ValueRecord} {key : Key} {act : Act}
    (h : act ∈ firstFlushActs filler key record) : act.io_ok = true ∧ act.is_destructor = false := by
  rw [firstFlushActs_eq, List.mem_append] at h
  rcases h with h | h
  · exact rotationActs_ok h
  · revert act
    simp [minorActs, Act.io_ok, Act.is_destructor]

theorem System.run_firstFlushActs (filler : ValueRecord) (key : Key) (record : ValueRecord) :
    ∃ start flushed wal manifest reader, System.open .forward Disk.empty = some start ∧
      start.run (firstFlushActs filler key record) = some flushed ∧
      flushed.db = { start.db with
        levels := { manifest := manifest, l0 := [reader], l1 := [] }
        imm := none
        imm_wal_id := 0
        mem := some { wal := wal, table := (∅ : ExtTreeMap Key ValueRecord).insert key record }
        active_wal_id := wal
        bg_compaction_scheduled := true
        writer := none
        bg := .running
        flusher := .idle } ∧
      start.puts (firstFlushActs filler key record) = fillRecords filler 0 10000 ++ [(key, record)] := by
  obtain ⟨start, written, _, full, wal, hopen, hrotate, hcount, hwritten, hputs⟩ :=
    System.run_rotationActs filler key record
  have hopened := System.open_opened hopen
  obtain ⟨flushed, manifest, reader, hflush, hflushed⟩ := @System.run_flush written full (by rw [hwritten])
    hcount (by rw [hwritten]; exact hopened.bg) (by rw [hwritten]; exact hopened.bg_stopped) (by rw [hwritten])
  refine ⟨start, flushed, wal, manifest, reader, hopen, ?_, ?_, ?_⟩
  · rw [firstFlushActs_eq, System.run_append hrotate]
    exact hflush
  · rw [hflushed, hwritten]
    rfl
  · rw [firstFlushActs_eq, System.puts_append hrotate, hputs, System.puts_of_quiet (by simp [minorActs]),
      List.append_nil]

/-- The destructor's last flush, after the background thread has left. -/
theorem System.run_close {self : System} {mem : MemTable} (hmem : self.db.mem = some mem)
    (hcount : 0 < mem.count) (hbg : self.db.bg = .waiting) (hidle : self.db.flusher = .idle)
    (hstopped : self.db.bg_stopped = true) (hl0 : self.db.levels.l0 = []) :
    ∃ next levels, self.run (.bg_wake :: .last_flush :: minorActs) = some next ∧
      next.db = { self.db with
        levels := levels, mem := none, imm := none, imm_wal_id := 0, bg := .exited, flusher := .idle } := by
  let exited : System := { self with db := { self.db with bg := .exited } }
  have hexit : self.step .bg_wake = some exited := by
    rw [System.step, DBImpl.program, DBImpl.bg_wake, if_pos hbg, if_pos hstopped]
    rfl
  let called : System :=
    { self with
      db := { self.db with
        bg := .exited, imm := some mem, imm_wal_id := self.db.active_wal_id, mem := none
        flusher := .called } }
  have hlast : exited.step .last_flush = some called := by
    simp only [System.step, DBImpl.program, DBImpl.last_flush, exited, hidle, hmem, hcount, if_true,
      Option.map_some]
    rfl
  obtain ⟨next, manifest, reader, hrun, hnext⟩ := @System.run_minorActs called mem rfl rfl hcount
  rw [if_pos (show called.db.levels.l0 = [] from hl0)] at hnext
  exact ⟨next, _, (System.run_cons hexit _).trans ((System.run_cons hlast _).trans hrun), hnext⟩

/-- A whole call of `CompactL0ToL1` by a user of the database. -/
def compactActs : List Act := [.compact_prepare .caller .forward, .compact_build 0 true, .compact_install 0]

/-- `CompactL0ToL1` starts in a level 0 that the manifest lists. -/
theorem System.step_compact_prepare {self : System} {owner : Owner} {order : IterationOrder (Nat × UInt32)}
    (hmay : self.db.may_compact owner = true) (hl0 : self.db.levels.l0 ≠ [])
    (hids : (l0_ids order self.db.levels.manifest.state).length = self.db.levels.l0.length) :
    ∃ next manifest ctx, self.step (.compact_prepare owner order) = some next ∧
      next.db = { self.db with
        levels := { self.db.levels with manifest := manifest }
        flusher := match owner with
          | .flusher => .compacting
          | .caller => self.db.flusher
        calls := self.db.calls ++ [⟨owner, ctx, none⟩] } ∧
      ctx.Prepared { self.db.levels with manifest := manifest } := by
  obtain ⟨manifest, ctx, hresult, hprepared⟩ := Levels.prepare_l0_to_l1_prepared hl0 hids self.disk
  simp only [System.step, DBImpl.program, DBImpl.compact_prepare, hmay, Bool.not_true, Bool.false_eq_true, if_false,
    Option.map_some]
  refine ⟨_, manifest, ctx, rfl, ?_, hprepared⟩
  rw [Program.bind_def, hresult]
  rfl

/-- The output of a call is built, if there is one. -/
theorem System.step_compact_build {self : System} {index : Nat} {owner : Owner} {ctx : L0ToL1Ctx} {levels : Levels}
    (hcall : self.db.calls[index]? = some ⟨owner, ctx, none⟩) (hprepared : ctx.Prepared levels) :
    ∃ next reader, self.step (.compact_build index true) = some next ∧
      next.db = { self.db with calls := self.db.calls.set index ⟨owner, ctx, some reader⟩ } ∧
      reader.isSome = ctx.has_output := by
  cases houtput : ctx.has_output with
  | false =>
    simp only [System.step, DBImpl.program, DBImpl.compact_build, hcall, houtput, Option.map_some]
    exact ⟨_, none, rfl, rfl, rfl⟩
  | true =>
    obtain ⟨id, hid⟩ := hprepared.id
    have hnonempty : ctx.output_records.isEmpty = false := by
      have hhas := hprepared.has_output
      rw [houtput] at hhas
      simpa using hhas
    obtain ⟨reader, hreader⟩ := Option.isSome_iff_exists.mp
      (@write_sst_returns id (.of_map ctx.output_records) (records_of_map_ne_nil hnonempty) self.disk)
    simp only [System.step, DBImpl.program, DBImpl.compact_build, hcall, houtput, build_l0_to_l1_sst, hid,
      Option.map_some]
    refine ⟨_, some reader, rfl, ?_, rfl⟩
    simp only [if_true, Program.bind_def, Bool.not_true, Bool.false_eq_true, if_false]
    rw [hreader]
    rfl

theorem System.run_compactActs {self : System} (hstopped : self.db.bg_stopped = false) (hcalls : self.db.calls = [])
    (hl0 : self.db.levels.l0 ≠ [])
    (hids : (l0_ids .forward self.db.levels.manifest.state).length = self.db.levels.l0.length) :
    ∃ next levels, self.run compactActs = some next ∧ next.db = { self.db with levels := levels } := by
  obtain ⟨prepared, _, ctx, hprepare, hprepared, hctx⟩ := @System.step_compact_prepare self .caller .forward
    (by simp [DBImpl.may_compact, hstopped]) hl0 hids
  obtain ⟨built, reader, hbuild, hbuilt, -⟩ := @System.step_compact_build prepared 0 .caller ctx _
    (by simp [hprepared, hcalls]) hctx
  obtain ⟨installed, levels, hinstall, hinstalled⟩ : ∃ next levels, built.step (.compact_install 0) = some next ∧
      next.db = { built.db with levels := levels, calls := [] } := by
    have hcall : built.db.calls = [⟨.caller, ctx, some reader⟩] := by simp [hbuilt, hprepared, hcalls]
    simp only [System.step, DBImpl.program, DBImpl.compact_install, hcall, List.getElem?_cons_zero, Option.map_some]
    refine ⟨_, (built.db.levels.install_l0_to_l1 ctx reader built.disk).1.1, rfl, ?_⟩
    simp only [Program.bind_def]
    cases ctx.new_sst_id with
    | none => split <;> rfl
    | some id => split <;> rfl
  refine ⟨installed, levels, ?_, ?_⟩
  · rw [compactActs, System.run_cons hprepare, System.run_cons hbuild, System.run_cons hinstall]
    rfl
  · rw [hinstalled, hbuilt, hprepared, ← hcalls]

end NovaKV
