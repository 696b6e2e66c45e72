import NovaKV.Store.Closing
import NovaKV.Store.Filling

open Std
open NovaKV.Lib

namespace NovaKV

/-- A session from its constructor to its destructor, without I/O failure: it opens
`disk`, runs to the state `last`, in which the destructor starts, and is destroyed
in the state `closed`. -/
structure CleanSession (disk : Disk) (last closed : System) : Prop where
  opens : ∃ order start acts, System.open order disk = some start ∧ start.run acts = some last ∧
    ∀ act ∈ acts, act.io_ok = true ∧ act.is_destructor = false
  closes : ∃ stopped acts, last.step .stop = some stopped ∧ stopped.run acts = some closed ∧
    ∀ act ∈ acts, act.io_ok = true
  destroyed : closed.db.Destroyed

/-- The directories that are empty or left by clean closes. -/
inductive CleanDisk : Disk → Prop
  | empty : CleanDisk Disk.empty
  | closed {disk : Disk} {last closed : System} (clean : CleanDisk disk)
      (session : CleanSession disk last closed) : CleanDisk closed.disk

/-- Every record of a log that the destructor leaves shows what `Get` shows. -/
def System.LogsAgree (system : System) : Prop :=
  ∀ key record, latest (system.db.pending system.disk.wals) key = some record →
    visible (some record) = system.db.get key

section

variable {disk : Disk} {last closed : System} {l0 l1 : List SSTableReader}

/-- What a clean session on a clean directory leaves. -/
theorem CleanSession.clean (h : CleanSession disk last closed) (hclean : disk.files.Clean l0 l1) :
    ∃ l0' l1', closed.disk.files.Clean l0' l1' ∧
      closed.disk.files.shows l0' l1' = overwrite last.db.get (last.db.pending last.disk.wals) := by
  obtain ⟨⟨order, start, acts, hopen, hrun, hacts⟩, ⟨stopped, closing, hstop, hclose, hio⟩, hdestroyed⟩ := h
  obtain ⟨system, hsystem, -, hsound⟩ := System.open_clean order hclean
  rw [hopen] at hsystem
  cases hsystem
  have hlast := hsound.run hrun fun act hact => ⟨(hacts act hact).1, by
    rintro rfl
    cases (hacts _ hact).2⟩
  obtain ⟨l0', l1', hclosed, hshows⟩ := ((hlast.stop hstop).run hclose hio).destroyed hdestroyed
  refine ⟨l0', l1', hclosed, ?_⟩
  rw [hshows, hlast.get_eq]

theorem Disk.empty_clean : Disk.empty.files.Clean [] [] :=
  ⟨Disk.empty_loads.holds, Disk.empty_loads.fresh, by simp [Disk.files, Disk.empty]⟩

theorem CleanDisk.clean (h : CleanDisk disk) : ∃ l0 l1, disk.files.Clean l0 l1 := by
  induction h with
  | empty => exact ⟨[], [], Disk.empty_clean⟩
  | closed _ hsession ih =>
    obtain ⟨l0, l1, hclean⟩ := ih
    obtain ⟨l0', l1', hclosed, -⟩ := hsession.clean hclean
    exact ⟨l0', l1', hclosed⟩

/-- What a database shows that opens the directory left by a clean session. -/
theorem CleanSession.reopen (h : CleanSession disk last closed) (hdisk : CleanDisk disk)
    (order : IterationOrder Nat) :
    ∃ reopened, System.open order closed.disk = some reopened ∧
      ∀ key, reopened.db.get key = overwrite last.db.get (last.db.pending last.disk.wals) key := by
  obtain ⟨l0, l1, hclean⟩ := hdisk.clean
  obtain ⟨l0', l1', hclosed, hshows⟩ := h.clean hclean
  obtain ⟨reopened, hreopen, -, hsound⟩ := System.open_clean order hclosed
  refine ⟨reopened, hreopen, ?_⟩
  intro key
  rw [hsound.get_eq, hshows]

theorem System.LogsAgree.overwrite_eq_iff {system : System} :
    (∀ key, overwrite system.db.get (system.db.pending system.disk.wals) key = system.db.get key) ↔
      system.LogsAgree := by
  constructor
  · intro hsame key record hlatest
    rw [← hsame key, overwrite, hlatest]
  · intro hagree key
    rw [overwrite]
    cases hlatest : latest (system.db.pending system.disk.wals) key with
    | none => rfl
    | some record => exact hagree key record hlatest

/-- Whatever the threads were doing when the destructor started, reopening the
directory shows for every key what `Get` showed then, if and only if this is what
the records show in the logs that the destructor does not remove. -/
theorem System.clean_close_exact_iff (hdisk : CleanDisk disk) (hsession : CleanSession disk last closed)
    (order : IterationOrder Nat) :
    (∃ reopened, System.open order closed.disk = some reopened ∧
      ∀ key, reopened.db.get key = last.db.get key) ↔ last.LogsAgree := by
  obtain ⟨reopened, hreopen, hview⟩ := hsession.reopen hdisk order
  rw [← System.LogsAgree.overwrite_eq_iff]
  constructor
  · rintro ⟨found, hfound, hsame⟩ key
    rw [hreopen, Option.some.injEq] at hfound
    subst hfound
    rw [← hview key, hsame key]
  · intro hsame
    exact ⟨reopened, hreopen, fun key => (hview key).trans (hsame key)⟩

end

/-- A quiet database with an empty level 0 and something to flush can be closed. -/
theorem System.exists_cleanSession {order : IterationOrder Nat} {disk : Disk} {start last : System}
    {acts : List Act} {mem : MemTable} (hopen : System.open order disk = some start)
    (hrun : start.run acts = some last)
    (hacts : ∀ act ∈ acts, act.io_ok = true ∧ act.is_destructor = false)
    (hstopped : last.db.bg_stopped = false) (hwriter : last.db.writer = none) (hcalls : last.db.calls = [])
    (hbg : last.db.bg = .waiting) (hidle : last.db.flusher = .idle) (hl0 : last.db.levels.l0 = [])
    (hmem : last.db.mem = some mem) (hcount : 0 < mem.count) :
    ∃ closed, CleanSession disk last closed := by
  let stopped : System := { last with db := { last.db with bg_stopped := true } }
  have hstop : last.step .stop = some stopped := by
    have hguard : ¬ (last.db.bg_stopped || last.db.writer.isSome ||
        last.db.calls.any (·.owner = .caller)) = true := by
      simp [hstopped, hwriter, hcalls]
    rw [System.step, DBImpl.program, DBImpl.stop, if_neg hguard]
    rfl
  obtain ⟨closed, levels, hclose, hclosed⟩ := @System.run_close stopped mem hmem hcount hbg hidle rfl hl0
  have hio : ∀ act ∈ .bg_wake :: .last_flush :: minorActs, act.io_ok = true := by
    simp [minorActs, Act.io_ok]
  refine ⟨closed, ⟨order, start, acts, hopen, hrun, hacts⟩, ⟨stopped, _, hstop, hclose, hio⟩, ?_⟩
  rw [hclosed]
  exact ⟨rfl, rfl, by rintro _ ⟨⟩⟩

/-- On a directory that was empty, the logs that the destructor leaves are at most
the one of an immutable memtable. -/
theorem System.pending_of_empty {order : IterationOrder Nat} {start last : System} {acts : List Act}
    (hopen : System.open order Disk.empty = some start) (hrun : start.run acts = some last)
    (hacts : ∀ act ∈ acts, act.io_ok = true ∧ act.is_destructor = false)
    (hidle : last.db.flusher = .idle) (key : Key) :
    latest (last.db.pending last.disk.wals) key = last.db.imm.bind (·.get key) := by
  obtain ⟨l0, l1, hclean⟩ := CleanDisk.empty.clean
  obtain ⟨system, hsystem, -, hsound⟩ := System.open_clean order hclean
  rw [hopen] at hsystem
  cases hsystem
  have hsteps : ∀ act ∈ acts, act.io_ok = true ∧ act ≠ .last_flush :=
    fun act hact => ⟨(hacts act hact).1, Act.ne_last_flush (hacts act hact).2⟩
  obtain ⟨flushed, immLog, memLog, hsession⟩ := (hsound.run hrun hsteps).session
  have hold : Disk.empty.wals.toList = [] := rfl
  rw [hold] at hsession
  have hpast : last.db.flusher.past_install = true := by
    rw [hidle]
    rfl
  rw [show last.db.pending last.disk.wals = _ from hsession.logged.pending_eq, hpast]
  cases himm : last.db.imm with
  | none => simp
  | some imm =>
    have htable := hsession.logged.imm_table imm himm key
    have hcarried : carried [] flushed = [] := by cases flushed <;> rfl
    rw [hcarried, List.nil_append] at htable
    simpa [MemTable.get] using htable.symm

/-- A memtable is filled and rotated, its first key is written again, and the
database is closed before the background thread wakes up. -/
def forgottenFlushActs (value : Bytes) : List Act :=
  (fillActs ⟨.kValue, [1]⟩ 0 10000 ++ [.put_lock [] ⟨.kValue, value⟩]) ++ [.put_write]

/-- What is in the log that then is left, and what is shown over it. -/
theorem System.exists_forgottenFlush (value : Bytes) :
    ∃ last closed, CleanSession Disk.empty last closed ∧
      (∀ key, latest (last.db.pending last.disk.wals) key = latest (fillRecords ⟨.kValue, [1]⟩ 0 10000) key) ∧
      last.db.get [] = some value ∧
      ∀ key ≠ [], ∀ record, latest (fillRecords ⟨.kValue, [1]⟩ 0 10000) key = some record →
        last.db.get key = visible (some record) := by
  obtain ⟨start, mem, hopen, hmem, htable, hl0, -⟩ := System.open_empty
  have hopened := System.open_opened hopen
  obtain ⟨rotated, manifest, full, wal, hrotate, -, hrecords, hrotated⟩ := System.run_rotate
    ⟨.kValue, [1]⟩ [] ⟨.kValue, value⟩ hmem hopened.imm hopened.writer hopened.bg_stopped
    (by simp [htable] : ∀ key ∈ mem.table, key.length < 0)
    (by simp [MemTable.count, htable, kMemTableLimit] : mem.count + 10000 = kMemTableLimit)
  obtain ⟨last, hwrite, hlast⟩ := @System.step_put_write rotated ⟨wal, ∅⟩ [] ⟨.kValue, value⟩
    (by rw [hrotated]) (by rw [hrotated])
  rw [hrotated] at hlast
  have hrun : start.run (forgottenFlushActs value) = some last := by
    rw [forgottenFlushActs, System.run_append hrotate, System.run_cons hwrite]
    rfl
  have hacts : ∀ act ∈ forgottenFlushActs value, act.io_ok = true ∧ act.is_destructor = false := by
    intro act hact
    simp only [forgottenFlushActs, List.mem_append, List.mem_singleton] at hact
    rcases hact with (hact | rfl) | rfl
    · exact fillActs_ok hact
    · exact ⟨rfl, rfl⟩
    · exact ⟨rfl, rfl⟩
  have hidle : last.db.flusher = .idle := by
    rw [hlast]
    exact hopened.flusher
  have hfull : ∀ key, full.table[key]? = latest (fillRecords ⟨.kValue, [1]⟩ 0 10000) key := by
    intro key
    rw [hrecords, latest_eq_getElem?_insertMany, htable, ExtTreeMap.getElem?_empty, Option.or_none]
  obtain ⟨closed, hsession⟩ := @System.exists_cleanSession _ _ _ _ _
    ⟨wal, (∅ : ExtTreeMap Key ValueRecord).insert [] ⟨.kValue, value⟩⟩ hopen hrun hacts
    (by rw [hlast]; exact hopened.bg_stopped) (by rw [hlast]) (by rw [hlast]; exact hopened.calls)
    (by rw [hlast]; exact hopened.bg) hidle (by rw [hlast]; exact hl0) (by rw [hlast])
    (by simp [MemTable.count, ExtTreeMap.size_insert])
  refine ⟨last, closed, hsession, ?_, ?_, ?_⟩
  · intro key
    rw [System.pending_of_empty hopen hrun hacts hidle, hlast, Option.bind_some, MemTable.get, hfull]
  · simp [DBImpl.get, hlast, MemTable.get]
  · intro key hkey record hrecord
    have hnone : ((∅ : ExtTreeMap Key ValueRecord).insert [] ⟨.kValue, value⟩)[key]? = none := by
      simp [hkey.symm]
    simp only [DBImpl.get, hlast, Option.bind_some, MemTable.get, hnone, hfull, hrecord]

/-- The log that is left holds what the memtable over it holds. -/
theorem clean_close_exact_of_same_value :
    ∃ last closed, CleanSession Disk.empty last closed ∧
      latest (last.db.pending last.disk.wals) [] = some ⟨.kValue, [1]⟩ ∧ last.db.get [] = some [1] ∧
      ∃ reopened, System.open .forward closed.disk = some reopened ∧
        ∀ key, reopened.db.get key = last.db.get key := by
  obtain ⟨last, closed, hsession, hpending, hfirst, hother⟩ := System.exists_forgottenFlush [1]
  have hlog : latest (fillRecords ⟨.kValue, [1]⟩ 0 10000) [] = some ⟨.kValue, [1]⟩ :=
    @latest_fillRecords ⟨.kValue, [1]⟩ 0 10000 0 (Nat.le_refl _) (by decide)
  refine ⟨last, closed, hsession, (hpending []).trans hlog, hfirst,
    (System.clean_close_exact_iff .empty hsession .forward).mpr ?_⟩
  intro key record hlatest
  rw [hpending] at hlatest
  by_cases hkey : key = []
  · subst hkey
    rw [hlog] at hlatest
    cases hlatest
    exact hfirst.symm
  · exact (hother key hkey record hlatest).symm

theorem clean_close_shows_old_version :
    ∃ last closed, CleanSession Disk.empty last closed ∧ ∃ reopened,
      System.open .forward closed.disk = some reopened ∧
      last.db.get [] = some [2] ∧ reopened.db.get [] = some [1] := by
  obtain ⟨last, closed, hsession, hpending, hfirst, -⟩ := System.exists_forgottenFlush [2]
  obtain ⟨reopened, hreopen, hview⟩ := hsession.reopen .empty .forward
  refine ⟨last, closed, hsession, reopened, hreopen, hfirst, ?_⟩
  rw [hview, overwrite, hpending, show ([] : Key) = nthKey 0 from rfl,
    latest_fillRecords _ (Nat.le_refl _) (by decide)]
  rfl

end NovaKV
