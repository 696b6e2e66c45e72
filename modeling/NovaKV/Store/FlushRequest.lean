import NovaKV.Store.Filling

open Std
open NovaKV.Lib

namespace NovaKV

/-- A condition on the state before each action of a run. -/
def System.along (condition : DBImpl → Act → Bool) (self : System) : List Act → Bool
  | [] => true
  | act :: acts => condition self.db act && (self.step act).all (·.along condition acts)

/-- Whether a `Put` finds the memtable full and makes it the immutable one. -/
def DBImpl.rotates (self : DBImpl) : Act → Bool
  | .put_lock _ _ =>
    match self.mem with
    | some mem => decide (kMemTableLimit ≤ mem.count) && self.imm.isNone
    | none => false
  | _ => false

/-- The actions that leave no flush request to be forgotten: no memtable is rotated
while the background thread is past the installation of its flush and before the
reset of the flag, and no flush fails to build its table. -/
def DBImpl.keeps_request (self : DBImpl) : Act → Bool
  | .put_lock key record =>
    !(self.rotates (.put_lock key record) && self.bg = .running && self.flusher.past_install)
  | .minor_build ok => ok
  | _ => true

/-- An unflushed memtable is a pending request, and the background thread leaves
none behind when it is done with a flush. -/
structure DBImpl.Requested (db : DBImpl) : Prop where
  scheduled : db.bg_stopped = false → db.imm.isSome = true → db.bg_compaction_scheduled = true
  installed : db.bg_stopped = false → db.bg = .running → db.flusher.past_install = true → db.imm = none
  nonempty : ∀ imm, db.imm = some imm → 0 < imm.count
  prepared : ∀ ctx, db.flusher = .prepared ctx → 0 < ctx.flushing_imm.count
  built : ∀ ctx reader, db.flusher = .built ctx reader → reader.isSome = true

section

variable {db db' : DBImpl} {data data' : Data}

theorem DBImpl.Opened.requested (h : db.Opened) : db.Requested where
  scheduled := by simp [h.imm]
  installed := by simp [h.imm]
  nonempty := by simp [h.imm]
  prepared := by simp [h.flusher]
  built := by simp [h.flusher]

/-- A flusher that is done, in a database without an immutable memtable. -/
theorem DBImpl.Requested.finish (h : db.Requested) {levels : Levels} {flusher : Flusher}
    {calls : List CompactCall} (hpast : db.flusher.past_install = true)
    (hprepared : ∀ ctx, flusher ≠ .prepared ctx) (hbuilt : ∀ ctx reader, flusher ≠ .built ctx reader) :
    { db with levels := levels, flusher := flusher, calls := calls }.Requested where
  scheduled := h.scheduled
  installed hrunning hbg _ := h.installed hrunning hbg hpast
  nonempty := h.nonempty
  prepared ctx heq := absurd heq (hprepared ctx)
  built ctx reader heq := absurd heq (hbuilt ctx reader)

/-- The end of a call of either owner. -/
theorem DBImpl.Requested.remove_call (h : db.Requested) (hthreads : db.Threads) {call : CompactCall}
    (hcall : call ∈ db.calls) {levels : Levels} {calls : List CompactCall} :
    { db with levels := levels, calls := calls, flusher := db.flusher.after call.owner }.Requested := by
  cases howner : call.owner with
  | flusher =>
    have hcompacting := hthreads.compacting_of_owner hcall howner
    exact h.finish (by rw [hcompacting]; rfl) nofun nofun
  | caller => exact ⟨h.scheduled, h.installed, h.nonempty, h.prepared, h.built⟩

theorem DBImpl.Requested.step {act : Act} (h : db.Requested) (hthreads : db.Threads)
    (hstep : Transition db data act db' data') (hkeeps : db.keeps_request act = true) : db'.Requested := by
  cases hstep with
  | put_room => exact ⟨h.scheduled, h.installed, h.nonempty, h.prepared, h.built⟩
  | rotate _ _ hmem hfull himm =>
    refine ⟨fun _ _ => rfl, ?_, ?_, h.prepared, h.built⟩
    · intro _ hbg hpast
      have hbg' : db.bg = .running := hbg
      have hpast' : db.flusher.past_install = true := hpast
      simp [DBImpl.keeps_request, DBImpl.rotates, hmem, hfull, himm, hbg', hpast'] at hkeeps
    · rintro _ ⟨⟩
      exact Nat.lt_of_lt_of_le (by decide) hfull
  | put_write => exact ⟨h.scheduled, h.installed, h.nonempty, h.prepared, h.built⟩
  | bg_exit => exact ⟨h.scheduled, nofun, h.nonempty, h.prepared, h.built⟩
  | bg_wake => exact ⟨h.scheduled, nofun, h.nonempty, nofun, nofun⟩
  | bg_reset hrunning hidle =>
    refine ⟨?_, nofun, h.nonempty, h.prepared, h.built⟩
    intro hstopped himm
    have hnone := h.installed hstopped hrunning (by rw [hidle]; rfl)
    simp [hnone] at himm
  | minor_skip _ himm => exact ⟨h.scheduled, fun _ _ _ => himm, h.nonempty, nofun, nofun⟩
  | minor_prepare _ himm =>
    refine ⟨h.scheduled, nofun, h.nonempty, ?_, nofun⟩
    rintro _ ⟨⟩
    exact h.nonempty _ himm
  | minor_build =>
    refine ⟨h.scheduled, nofun, h.nonempty, nofun, ?_⟩
    rintro _ _ ⟨⟩
    rfl
  | @minor_build_fail ctx ok hprepared hfailed =>
    have hempty := hfailed hkeeps
    rw [ExtTreeMap.isEmpty_eq_size_beq_zero, beq_iff_eq] at hempty
    exact absurd hempty (h.prepared ctx hprepared).ne'
  | minor_fail hbuilt =>
    have hsome := h.built _ _ hbuilt
    cases hsome
  | minor_install =>
    refine ⟨nofun, fun _ _ _ => rfl, nofun, ?_, ?_⟩
    · intro ctx heq
      simp only at heq
      split at heq <;> cases heq
    · intro ctx reader heq
      simp only at heq
      split at heq <;> cases heq
  | @compact_decline owner _ hmay =>
    cases owner with
    | flusher => exact h.finish (by rw [DBImpl.may_compact_flusher hmay]; rfl) nofun nofun
    | caller => exact ⟨h.scheduled, h.installed, h.nonempty, h.prepared, h.built⟩
  | @compact_prepare owner _ _ _ hmay =>
    cases owner with
    | flusher => exact h.finish (by rw [DBImpl.may_compact_flusher hmay]; rfl) nofun nofun
    | caller => exact ⟨h.scheduled, h.installed, h.nonempty, h.prepared, h.built⟩
  | compact_skip => exact ⟨h.scheduled, h.installed, h.nonempty, h.prepared, h.built⟩
  | compact_build => exact ⟨h.scheduled, h.installed, h.nonempty, h.prepared, h.built⟩
  | compact_fail hcall => exact h.remove_call hthreads (List.mem_of_getElem? hcall)
  | compact_install hcall => exact h.remove_call hthreads (List.mem_of_getElem? hcall)
  | compact_consume hcall => exact h.remove_call hthreads (List.mem_of_getElem? hcall)
  | compact_reject hcall => exact h.remove_call hthreads (List.mem_of_getElem? hcall)
  | stop => exact ⟨nofun, nofun, h.nonempty, h.prepared, h.built⟩
  | last_flush hexited _ _ hcount =>
    have hstopped := hthreads.stopped hexited
    refine ⟨by simp [hstopped], by simp [hstopped], ?_, nofun, nofun⟩
    rintro _ ⟨⟩
    exact hcount

end

/-- In every state of a run whose actions all keep the request, a waiting background
thread has been asked to flush whatever immutable memtable there is. -/
theorem System.flush_request_not_lost {order : IterationOrder Nat} {disk : Disk} {start now : System}
    {acts : List Act} (hopen : System.open order disk = some start) (hrun : start.run acts = some now)
    (hkeeps : start.along DBImpl.keeps_request acts = true) :
    now.db.bg = .waiting → now.db.bg_stopped = false → now.db.imm.isSome = true →
      now.db.bg_compaction_scheduled = true := by
  have hinvariant : ∀ (acts : List Act) (system : System), system.db.Threads → system.db.Requested →
      system.along DBImpl.keeps_request acts = true → system.run acts = some now → now.db.Requested := by
    intro acts
    induction acts with
    | nil =>
      rintro system - hrequested - ⟨⟩
      exact hrequested
    | cons act acts ih =>
      intro system hthreads hrequested halong hrun
      obtain ⟨mid, hstep, hrest⟩ := Option.bind_eq_some_iff.mp hrun
      obtain ⟨hcondition, halong⟩ := Bool.and_eq_true_iff.mp halong
      rw [hstep, Option.all_some] at halong
      have htransition := System.step_transition hstep
      exact ih mid (hthreads.step htransition) (hrequested.step hthreads htransition hcondition) halong hrest
  have hopened := System.open_opened hopen
  have hrequested := hinvariant acts start hopened.threads hopened.requested hkeeps hrun
  exact fun _ => hrequested.scheduled

theorem Transition.put_bg {db db' : DBImpl} {data data' : Data} {act : Act}
    (h : Transition db data act db' data')
    (hput : act = .put_write ∨ ∃ key record, act = .put_lock key record) : db'.bg = db.bg := by
  rcases hput with rfl | ⟨key, record, rfl⟩ <;> cases h <;> rfl

/-- Writes keep the request while the background thread waits. -/
theorem System.along_puts {self : System} {acts : List Act} (hbg : self.db.bg = .waiting)
    (hputs : ∀ act ∈ acts, act = .put_write ∨ ∃ key record, act = .put_lock key record) :
    self.along DBImpl.keeps_request acts = true := by
  induction acts generalizing self with
  | nil => rfl
  | cons act acts ih =>
    have hact := hputs act List.mem_cons_self
    refine Bool.and_eq_true_iff.mpr ⟨?_, (Option.all_eq_true _ _).mpr fun next hstep => ?_⟩
    · rcases hact with rfl | ⟨key, record, rfl⟩
      · rfl
      · simp [DBImpl.keeps_request, hbg]
    · refine ih ?_ fun act hact => hputs act (List.mem_cons_of_mem _ hact)
      rw [(System.step_transition hstep).put_bg hact, hbg]

/-- A memtable is filled and rotated while the background thread waits. -/
theorem flush_request_raised :
    ∃ start now, System.open .forward Disk.empty = some start ∧
      start.run (fillActs ⟨.kValue, []⟩ 0 10000 ++ [.put_lock [1] ⟨.kValue, []⟩]) = some now ∧
      now.db.bg = .waiting ∧ now.db.imm.isSome = true ∧ now.db.bg_compaction_scheduled = true := by
  obtain ⟨start, mem, hopen, hmem, htable, -⟩ := System.open_empty
  have hopened := System.open_opened hopen
  obtain ⟨now, manifest, full, wal, hrun, -, -, hnow⟩ := System.run_rotate ⟨.kValue, []⟩ [1] ⟨.kValue, []⟩
    hmem hopened.imm hopened.writer hopened.bg_stopped
    (by simp [htable] : ∀ key ∈ mem.table, key.length < 0)
    (by simp [MemTable.count, htable, kMemTableLimit] : mem.count + 10000 = kMemTableLimit)
  have hputs : ∀ act ∈ fillActs ⟨.kValue, []⟩ 0 10000 ++ [.put_lock [1] ⟨.kValue, []⟩],
      act = .put_write ∨ ∃ key record, act = .put_lock key record := by
    intro act hact
    rcases List.mem_append.mp hact with hact | hact
    · exact fillActs_puts hact
    · exact .inr ⟨_, _, List.mem_singleton.mp hact⟩
  have hbg : now.db.bg = .waiting := by
    rw [hnow]
    exact hopened.bg
  have hstopped : now.db.bg_stopped = false := by
    rw [hnow]
    exact hopened.bg_stopped
  have himm : now.db.imm.isSome = true := by
    rw [hnow]
    rfl
  exact ⟨start, now, hopen, hrun, hbg, himm,
    System.flush_request_not_lost hopen hrun (System.along_puts hopened.bg hputs) hbg hstopped himm⟩

/-- A first memtable is filled, rotated and flushed; before the background thread
resets its flag, a second one is filled and rotated. -/
def lostRequestActs : List Act :=
  (fillActs ⟨.kValue, []⟩ 0 10000 ++ [.put_lock [1] ⟨.kValue, []⟩]) ++ .put_write :: ((.bg_wake :: minorActs) ++
    ((fillActs ⟨.kValue, []⟩ 2 9999 ++ [.put_lock [1] ⟨.kValue, []⟩]) ++ [.bg_reset]))

theorem flush_request_lost :
    ∃ start now, System.open .forward Disk.empty = some start ∧ start.run lostRequestActs = some now ∧
      ¬ (now.db.bg = .waiting → now.db.bg_stopped = false → now.db.imm.isSome = true →
        now.db.bg_compaction_scheduled = true) := by
  obtain ⟨start, flushed, wal, _, _, hopen, hflush, hflushed, -⟩ :=
    System.run_firstFlushActs ⟨.kValue, []⟩ [1] ⟨.kValue, []⟩
  have hopened := System.open_opened hopen
  let second : MemTable := { wal := wal, table := (∅ : ExtTreeMap Key ValueRecord).insert [1] ⟨.kValue, []⟩ }
  have hkeys : ∀ key ∈ second.table, key.length < 2 := by
    intro key hkey
    rw [← LawfulEqCmp.eq_of_compare (ExtTreeMap.mem_insert.mp hkey |>.resolve_right ExtTreeMap.not_mem_empty)]
    decide
  have hroom : second.count + 9999 = kMemTableLimit := by
    simp [second, MemTable.count, ExtTreeMap.size_insert, kMemTableLimit]
  obtain ⟨rotated', manifest', full', wal', hrotate', -, -, hrotated'⟩ := @System.run_rotate flushed second 2
    9999 ⟨.kValue, []⟩ [1] ⟨.kValue, []⟩ (by rw [hflushed]) (by rw [hflushed]) (by rw [hflushed])
    (by rw [hflushed]; exact hopened.bg_stopped) hkeys hroom
  rw [hflushed] at hrotated'
  let reset : System :=
    { rotated' with db := { rotated'.db with bg := .waiting, bg_compaction_scheduled := false } }
  have hreset : rotated'.step .bg_reset = some reset :=
    System.step_bg_reset (by rw [hrotated']) (by rw [hrotated'])
  refine ⟨start, reset, hopen, ?_, ?_⟩
  · have hacts : lostRequestActs = firstFlushActs ⟨.kValue, []⟩ [1] ⟨.kValue, []⟩ ++
        ((fillActs ⟨.kValue, []⟩ 2 9999 ++ [.put_lock [1] ⟨.kValue, []⟩]) ++ [.bg_reset]) := by
      simp [lostRequestActs, firstFlushActs]
    rw [hacts, System.run_append hflush, System.run_append hrotate', System.run_cons hreset]
    rfl
  · intro hclaim
    have hstopped : reset.db.bg_stopped = false := by
      simp only [reset, hrotated']
      exact hopened.bg_stopped
    have himm : reset.db.imm.isSome = true := by simp only [reset, hrotated', Option.isSome_some]
    cases hclaim rfl hstopped himm

end NovaKV
