import NovaKV.Store.Tidy

open Std
open NovaKV.Lib

namespace NovaKV

/-- The logs that the destructor removes by flushing their memtables: the one of
the memtable and, while the background thread is flushing it, the one of the
immutable memtable. -/
def DBImpl.closing_wals (self : DBImpl) : List Nat :=
  self.mem.toList.map MemTable.wal ++
    if self.flusher.past_install then [] else self.imm.toList.map MemTable.wal

/-- The records of the logs that the destructor leaves. -/
def DBImpl.pending (self : DBImpl) (wals : ExtTreeMap Nat (List WalRecord)) : List WalRecord :=
  records (wals.toList.filter fun entry => entry.1 ∉ self.closing_wals)

theorem DBImpl.pending_congr {db db' : DBImpl} {wals : ExtTreeMap Nat (List WalRecord)}
    (h : db'.closing_wals = db.closing_wals) : db'.pending wals = db.pending wals := by
  rw [DBImpl.pending, DBImpl.pending, h]

section

variable {db db' : DBImpl} {data data' : Data} {files : Files} {old : List (Nat × List WalRecord)}
  {flushed : Bool} {immLog memLog : List WalRecord} {contents : Key → Option Bytes}

/-- The logs left are those of earlier sessions and, if no flush of it is under
way, that of the immutable memtable. -/
theorem DBImpl.Logged.pending_eq (h : db.Logged files old flushed immLog memLog) :
    db.pending files.wals = records old ++
      if db.imm.isSome && db.flusher.past_install then immLog else [] := by
  have hsorted : (files.wals.toList.map Prod.fst).Pairwise (· < ·) :=
    List.pairwise_map.mpr (ExtTreeMap.ordered_keys_toList.imp fun hlt => Nat.compare_eq_lt.mp hlt)
  rw [h.entries, List.map_append, List.map_append, List.pairwise_append, List.pairwise_append] at hsorted
  obtain ⟨-, ⟨-, -, himm⟩, hold⟩ := hsorted
  have hkept : ∀ entry ∈ old, entry.1 ∉ db.closing_wals := by
    intro entry hentry hclosing
    have hlt : ∀ id ∈ db.closing_wals, entry.1 < id := by
      intro id hid
      apply hold _ (List.mem_map_of_mem hentry)
      rw [DBImpl.closing_wals, List.mem_append] at hid
      rcases hid with hid | hid
      · exact List.mem_append_right _ (by simpa using hid)
      · split at hid
        · cases hid
        · exact List.mem_append_left _ (by simpa using hid)
    exact Nat.lt_irrefl _ (hlt _ hclosing)
  rw [DBImpl.pending, h.entries, List.filter_append, List.filter_append, records_append, records_append,
    List.filter_eq_self.mpr (by simpa using hkept)]
  congr 1
  have hmem : (db.mem.toList.map fun m => (m.wal, memLog)).filter (fun entry => entry.1 ∉ db.closing_wals) = [] := by
    rw [List.filter_eq_nil_iff]
    intro entry hentry
    obtain ⟨mem, hmem, rfl⟩ := List.mem_map.mp hentry
    have hclosing : mem.wal ∈ db.closing_wals := List.mem_append_left _ (List.mem_map_of_mem hmem)
    simpa using hclosing
  rw [hmem, records_nil, List.append_nil]
  cases himmEq : db.imm with
  | none => rfl
  | some imm =>
    have hclosing : imm.wal ∈ db.closing_wals ↔ db.flusher.past_install = false := by
      have hne : imm.wal ∉ db.mem.toList.map MemTable.wal := by
        intro hid
        have hlt := himm imm.wal (by simp [himmEq]) imm.wal (by simpa using hid)
        exact Nat.lt_irrefl _ hlt
      cases hpast : db.flusher.past_install <;> simp [DBImpl.closing_wals, himmEq, hpast, hne]
    cases hpast : db.flusher.past_install <;> simp [hclosing, hpast]

theorem latest_carried_eq_none {key : Key} (h : latest (records old) key = none) :
    latest (carried old flushed) key = none := by
  cases flushed with
  | true => rfl
  | false => exact h

/-- An immutable memtable that is not being flushed has its keys in the logs left. -/
theorem DBImpl.Logged.imm_eq_none (h : db.Logged files old flushed immLog memLog)
    (hpast : db.flusher.past_install = true) {key : Key}
    (hnone : latest (db.pending files.wals) key = none) : db.imm.bind (·.get key) = none := by
  cases himm : db.imm with
  | none => rfl
  | some imm =>
    obtain ⟨hold, hlog⟩ : latest (records old) key = none ∧ latest immLog key = none := by
      simpa [h.pending_eq, himm, hpast, latest_append, and_comm] using hnone
    rw [Option.bind_some, MemTable.get, h.imm_table imm himm key, latest_append, hlog, Option.none_or]
    exact latest_carried_eq_none hold

/-- An empty memtable has an empty log. -/
theorem DBImpl.Logged.mem_eq_none (h : db.Logged files old flushed immLog memLog)
    (hempty : ∀ mem, db.mem = some mem → mem.count = 0) (key : Key) :
    db.mem.bind (·.get key) = none ∧
      latest (records (db.mem.toList.map fun m => (m.wal, memLog))) key = none := by
  cases hmem : db.mem with
  | none => exact ⟨rfl, rfl⟩
  | some mem =>
    have htable : mem.table = ∅ := ExtTreeMap.eq_empty_iff_size_eq_zero.mpr (hempty mem hmem)
    have hlog := h.mem_table mem hmem key
    simp only [htable, ExtTreeMap.getElem?_empty, latest_append] at hlog
    refine ⟨by simp [MemTable.get, htable], ?_⟩
    simpa using (Option.or_eq_none_iff.mp hlog.symm).1

/-- With an empty memtable and no flush under way, the logs left are all there are. -/
theorem DBImpl.Logged.latest_pending (h : db.Logged files old flushed immLog memLog)
    (hpast : db.flusher.past_install = true) (hempty : ∀ mem, db.mem = some mem → mem.count = 0)
    (key : Key) : latest files.records key = latest (db.pending files.wals) key := by
  rw [Files.records, h.entries, records_append, records_append, ← List.append_assoc, latest_append,
    (h.mem_eq_none hempty key).2, Option.none_or, h.pending_eq]
  cases himm : db.imm with
  | none => simp
  | some imm => simp [hpast]

/-- The destructor hands the memtable to its last flush. An immutable memtable that
was still waiting is forgotten, and its log joins those of earlier sessions. -/
theorem DBImpl.Session.last_flush {mem : MemTable} (h : db.Session files old flushed immLog memLog contents)
    (hidle : db.flusher = .idle) (hmem : db.mem = some mem) (hcount : 0 < mem.count) :
    ∃ old' flushed' contents',
      { db with
        imm := some mem, imm_wal_id := db.active_wal_id, mem := none, flusher := .called }.Session files
        old' flushed' memLog [] contents' ∧
      ∀ key, latest (db.pending files.wals) key = none → contents' key = contents key := by
  have hforget : ∀ key, latest (db.pending files.wals) key = none → db.imm.bind (·.get key) = none :=
    fun key => h.logged.imm_eq_none (by rw [hidle]; rfl)
  obtain ⟨levels, _, imm, active_wal_id, imm_wal_id, stopped, scheduled, bg, _, writer, calls⟩ := db
  cases hidle
  cases hmem
  have hforgotten : NovaKV.Working levels none imm_wal_id .idle calls files :=
    { h.working with flush := trivial, imm_nonempty := by rintro _ ⟨⟩ }
  have hworking : NovaKV.Working levels (some mem) active_wal_id .called calls files :=
    (hforgotten.set_imm hcount).set_flusher trivial rfl
  have hlogged := h.logged
  cases imm with
  | none =>
    refine ⟨old, flushed, contents, ⟨hworking, ?_, ?_⟩, fun _ _ => rfl⟩
    · refine ⟨by simpa using hlogged.entries, ?_, by rintro _ ⟨⟩, ?_, by rintro _ ⟨⟩⟩
      · rintro _ ⟨⟩
        exact hlogged.mem_wal mem rfl
      · rintro _ ⟨⟩ key
        simpa using hlogged.mem_table mem rfl key
    · intro key
      rw [← h.view key, DBImpl.get_eq, DBImpl.get_eq]
      simp [Levels.search]
  | some imm =>
    refine ⟨old ++ [(imm.wal, immLog)], true, _, ⟨hworking, ?_, fun _ => rfl⟩, ?_⟩
    · refine ⟨by simpa using hlogged.entries, ?_, by rintro _ ⟨⟩, ?_, by rintro _ ⟨⟩⟩
      · rintro _ ⟨⟩
        exact hlogged.mem_wal mem rfl
      · rintro _ ⟨⟩ key
        simpa [carried] using hlogged.mem_table mem rfl key
    · intro key hnone
      have himm : imm.get key = none := hforget key hnone
      rw [← h.view key, DBImpl.get_eq, DBImpl.get_eq]
      simp [himm, Levels.search]

/-- No step of a closing database changes what its destructor will leave. -/
theorem Transition.pending_eq {act : Act} (hstep : Transition db data act db' data')
    (hstopped : db.bg_stopped = true) (hthreads : db.Threads)
    (h : db.Session files old flushed immLog memLog contents) :
    db'.pending data'.wals = db.pending data.wals := by
  have hsame : ∀ {flusher : Flusher} {levels : Levels} {calls : List CompactCall},
      flusher.past_install = db.flusher.past_install →
      DBImpl.pending { db with levels := levels, flusher := flusher, calls := calls } data.wals =
        db.pending data.wals := by
    intro flusher levels calls hpast
    apply DBImpl.pending_congr
    simp only [DBImpl.closing_wals, hpast]
  have hafter : ∀ {call : CompactCall} {index : Nat}, db.calls[index]? = some call →
      (db.flusher.after call.owner).past_install = db.flusher.past_install := by
    intro call index hcall
    cases howner : call.owner with
    | flusher =>
      rw [hthreads.compacting_of_owner (List.mem_of_getElem? hcall) howner]
      rfl
    | caller => rfl
  cases hstep with
  | put_room hrunning => simp [hstopped] at hrunning
  | rotate hrunning => simp [hstopped] at hrunning
  | put_write hwriting =>
    rw [hthreads.writer hstopped] at hwriting
    cases hwriting
  | bg_exit => rfl
  | bg_wake _ hrunning => simp [hstopped] at hrunning
  | bg_reset => rfl
  | minor_skip _ himm => exact DBImpl.pending_congr (by simp [DBImpl.closing_wals, himm])
  | minor_prepare hcalled => exact hsame (by rw [hcalled]; rfl)
  | minor_build hprepared => exact hsame (by rw [hprepared]; rfl)
  | minor_build_fail hprepared => exact hsame (by rw [hprepared]; rfl)
  | minor_fail hbuilt =>
    have hflush := h.working.flush
    rw [hbuilt] at hflush
    obtain ⟨-, _, hreader, -⟩ := hflush
    cases hreader
  | @minor_install ctx reader manifest hbuilt =>
    have hflush := h.working.flush
    rw [hbuilt] at hflush
    have himm : db.imm = some ctx.flushing_imm := hflush.1.imm
    have hwal : ctx.flushing_imm.wal = ctx.old_wal_id := by
      rw [hflush.1.old_wal_id]
      exact h.logged.imm_wal _ himm
    have hbefore : db.closing_wals = db.mem.toList.map MemTable.wal ++ [ctx.old_wal_id] := by
      simp [DBImpl.closing_wals, hbuilt, himm, hwal, Flusher.past_install]
    rw [DBImpl.pending, DBImpl.pending, hbefore, toList_erase, List.filter_filter]
    congr 1
    apply List.filter_congr
    intro entry _
    simp [DBImpl.closing_wals]
  | @compact_decline owner _ hmay =>
    cases owner with
    | flusher => exact hsame (by rw [DBImpl.may_compact_flusher hmay]; rfl)
    | caller => rfl
  | @compact_prepare owner _ _ _ hmay =>
    cases owner with
    | flusher => exact hsame (by rw [DBImpl.may_compact_flusher hmay]; rfl)
    | caller => rfl
  | compact_skip => rfl
  | compact_build => rfl
  | compact_fail hcall => exact hsame (hafter hcall)
  | compact_install hcall => exact hsame (hafter hcall)
  | compact_consume hcall => exact hsame (hafter hcall)
  | compact_reject hcall => exact hsame (hafter hcall)
  | stop hrunning => simp [hstopped] at hrunning
  | last_flush _ hidle hmem =>
    exact DBImpl.pending_congr (by simp [DBImpl.closing_wals, hidle, hmem, Flusher.past_install])

end

theorem Transition.stopped {db db' : DBImpl} {data data' : Data} {act : Act}
    (h : Transition db data act db' data') (hstopped : db.bg_stopped = true) : db'.bg_stopped = true := by
  cases h <;> first | exact hstopped | rfl

/-- A directory in which the manifest lists every table file, and the levels it lists. -/
structure Files.Clean (files : Files) (l0 l1 : List SSTableReader) : Prop where
  holds : files.Holds l0 l1
  fresh : files.snapshot = false → files.ssts = ∅ ∧ files.wals = ∅
  listed : ∀ id ∈ files.ssts, id ∈ files.state.sst_levels

theorem Files.Clean.loads {files : Files} {l0 l1 : List SSTableReader} (h : files.Clean l0 l1) :
    files.Loads l0 l1 where
  holds := h.holds
  fresh := h.fresh
  listed hl0 hl1 := by
    rw [ExtTreeMap.eq_empty_iff_forall_not_mem]
    intro id hid
    have hlisted := (h.holds.lists.mem_iff id).mp (h.listed id hid)
    simp [hl0, hl1] at hlisted

/-- A state of a session that found the logs `old`. -/
structure System.Sound (system : System) (old : List (Nat × List WalRecord))
    (contents : Key → Option Bytes) : Prop where
  threads : system.db.Threads
  tidy : system.db.Tidy system.disk.ssts
  session : ∃ flushed immLog memLog,
    system.db.Session system.disk.files old flushed immLog memLog contents

/-- A state of the destructor: whatever it still does, it leaves the records
`pending` in logs, and the other keys as they were. -/
structure System.Closing (system : System) (contents : Key → Option Bytes) (pending : List WalRecord) :
    Prop where
  stopped : system.db.bg_stopped = true
  threads : system.db.Threads
  tidy : system.db.Tidy system.disk.ssts
  pending_eq : system.db.pending system.disk.wals = pending
  session : ∃ old flushed immLog memLog contents',
    system.db.Session system.disk.files old flushed immLog memLog contents' ∧
      ∀ key, latest pending key = none → contents' key = contents key

section

variable {self next : System} {act : Act} {acts : List Act} {old : List (Nat × List WalRecord)}
  {contents : Key → Option Bytes} {pending : List WalRecord}

/-- Opening a clean directory. -/
theorem System.open_clean {disk : Disk} {l0 l1 : List SSTableReader} (order : IterationOrder Nat)
    (h : disk.files.Clean l0 l1) :
    ∃ system, System.open order disk = some system ∧ system.db.Opened ∧
      system.Sound disk.wals.toList (disk.files.shows l0 l1) := by
  obtain ⟨system, hopen, hopened, hsame, hsession⟩ := System.open_of_loads order h.loads
  refine ⟨system, hopen, hopened, hopened.threads, ?_, _, _, _, hsession⟩
  intro id hid
  have hlisted : id ∈ disk.files.state.sst_levels := h.listed id (hsame.ssts ▸ hid)
  rw [← hsame.levels, hsession.working.stored.holds.lists.mem_iff] at hlisted
  exact hlisted.imp_right .inl

theorem System.Sound.get_eq (h : self.Sound old contents) : self.db.get = contents := by
  obtain ⟨_, _, _, hsession⟩ := h.session
  exact funext hsession.view

theorem System.Sound.step (h : self.Sound old contents) (hstep : self.step act = some next)
    (hio : act.io_ok = true) (hlast : act ≠ .last_flush) :
    next.Sound old (overwrite contents (self.db.completes act)) := by
  obtain ⟨flushed, immLog, memLog, hsession⟩ := h.session
  have htransition := System.step_transition hstep
  obtain ⟨program, hprogram, hdb, hdisk⟩ := System.step_eq_some hstep
  obtain ⟨flushed', ⟨⟨immLog', memLog', hnext⟩, -⟩, -⟩ := (hsession.step hprogram hio hlast self.disk rfl).2
  refine ⟨h.threads.step htransition, h.tidy.step h.threads hsession.working htransition, ?_⟩
  rw [hdb, hdisk]
  exact ⟨flushed', immLog', memLog', hnext⟩

theorem System.Sound.run (h : self.Sound old contents) (hrun : self.run acts = some next)
    (hacts : ∀ act ∈ acts, act.io_ok = true ∧ act ≠ .last_flush) :
    next.Sound old (overwrite contents (self.puts acts)) := by
  induction acts generalizing self contents with
  | nil =>
    cases hrun
    exact h
  | cons act acts ih =>
    obtain ⟨mid, hstep, hrest⟩ := Option.bind_eq_some_iff.mp hrun
    obtain ⟨hio, hlast⟩ := hacts act List.mem_cons_self
    rw [System.puts_cons hstep, overwrite_append]
    exact ih (h.step hstep hio hlast) hrest fun act hact => hacts act (List.mem_cons_of_mem _ hact)

theorem Transition.stop_eq {db db' : DBImpl} {data data' : Data} (h : Transition db data .stop db' data') :
    db' = { db with bg_stopped := true } ∧ data' = data := by
  cases h
  exact ⟨rfl, rfl⟩

/-- The destructor starts. -/
theorem System.Sound.stop (h : self.Sound old contents) (hstep : self.step .stop = some next) :
    next.Closing contents (self.db.pending self.disk.wals) := by
  obtain ⟨hthreads, htidy, flushed, immLog, memLog, hsession⟩ := h.step hstep rfl (by simp)
  obtain ⟨hdb, hdata⟩ := (System.step_transition hstep).stop_eq
  have hwals : next.disk.wals = self.disk.wals := congrArg Data.wals hdata
  refine ⟨by rw [hdb], hthreads, htidy, ?_, _, _, _, _, _, hsession, fun _ _ => rfl⟩
  rw [hwals]
  exact DBImpl.pending_congr (by rw [hdb]; rfl)

theorem System.Closing.step (h : self.Closing contents pending) (hstep : self.step act = some next)
    (hio : act.io_ok = true) : next.Closing contents pending := by
  obtain ⟨old, flushed, immLog, memLog, contents', hsession, hcontents⟩ := h.session
  have htransition := System.step_transition hstep
  obtain ⟨program, hprogram, hdb, hdisk⟩ := System.step_eq_some hstep
  have hpending := (htransition.pending_eq h.stopped h.threads hsession).trans h.pending_eq
  refine ⟨htransition.stopped h.stopped, h.threads.step htransition,
    h.tidy.step h.threads hsession.working htransition, hpending, ?_⟩
  by_cases hlast : act = .last_flush
  · subst hlast
    simp only [DBImpl.program, DBImpl.last_flush] at hprogram
    split at hprogram
    · split at hprogram
      · rename_i hidle hmem hcount
        cases hprogram
        obtain ⟨old', flushed', contents'', hnext, hview⟩ := hsession.last_flush hidle hmem hcount
        rw [hdb, hdisk]
        refine ⟨old', flushed', memLog, [], contents'', hnext, ?_⟩
        intro key hnone
        rw [hview key (h.pending_eq ▸ hnone), hcontents key hnone]
      · cases hprogram
    · cases hprogram
  · have hputs : self.db.completes act = [] := by
      cases act with
      | put_write => simp [DBImpl.completes, h.threads.writer h.stopped]
      | _ => rfl
    obtain ⟨flushed', ⟨⟨immLog', memLog', hnext⟩, -⟩, -⟩ := (hsession.step hprogram hio hlast self.disk rfl).2
    rw [hputs, overwrite_nil, ← hdb, ← hdisk] at hnext
    exact ⟨old, flushed', immLog', memLog', contents', hnext, hcontents⟩

theorem System.Closing.run (h : self.Closing contents pending) (hrun : self.run acts = some next)
    (hio : ∀ act ∈ acts, act.io_ok = true) : next.Closing contents pending := by
  refine @System.run_induction (fun system => system.Closing contents pending) _ _ _ ?_ h hrun
  intro system system' act hact hclosing hstep
  exact hclosing.step hstep (hio act hact)

/-- The destructor has returned. -/
structure DBImpl.Destroyed (db : DBImpl) : Prop where
  exited : db.bg = .exited
  idle : db.flusher = .idle
  flushed : ∀ mem, db.mem = some mem → mem.count = 0

/-- What the destructor leaves: a clean directory that shows the records of the
logs left in it over what the database showed. -/
theorem System.Closing.destroyed (h : self.Closing contents pending) (hdone : self.db.Destroyed) :
    ∃ l0 l1, self.disk.files.Clean l0 l1 ∧ self.disk.files.shows l0 l1 = overwrite contents pending := by
  obtain ⟨old, flushed, immLog, memLog, contents', hsession, hcontents⟩ := h.session
  have hstored := hsession.working.stored
  refine ⟨_, _, ⟨hstored.holds, ?_, ?_⟩, ?_⟩
  · intro hsnapshot
    rw [hstored.snapshot] at hsnapshot
    cases hsnapshot
  · intro id hid
    rw [hstored.holds.lists.mem_iff]
    rcases h.tidy id hid with hl0 | hl1 | ⟨ctx, reader, hbuilt, -⟩ | ⟨call, hcall, -⟩
    · exact .inl hl0
    · exact .inr hl1
    · rw [hdone.idle] at hbuilt
      cases hbuilt
    · rw [h.threads.calls_eq_nil h.stopped hdone.idle] at hcall
      cases hcall
  · funext key
    have hpast : self.db.flusher.past_install = true := by
      rw [hdone.idle]
      rfl
    have hpending : self.db.pending self.disk.files.wals = pending := h.pending_eq
    rw [Files.shows, hsession.logged.latest_pending hpast hdone.flushed, hpending, overwrite]
    cases hlatest : latest pending key with
    | some record => rfl
    | none =>
      rw [← hcontents key hlatest, ← hsession.view key, DBImpl.get_eq,
        (hsession.logged.mem_eq_none hdone.flushed key).1,
        hsession.logged.imm_eq_none hpast (hpending ▸ hlatest)]
      rfl

end

end NovaKV
