import NovaKV.Store.CleanClose

open Std
open NovaKV.Lib

namespace NovaKV

/-- No flush is pending and neither a flush nor a compaction is under way. -/
structure DBImpl.Quiescent (db : DBImpl) : Prop where
  imm : db.imm = none
  scheduled : db.bg_compaction_scheduled = false
  flusher : db.flusher = .idle
  calls : db.calls = []

def Flusher.is_idle : Flusher → Bool
  | .idle => true
  | _ => false

theorem Flusher.is_idle_iff {flusher : Flusher} : flusher.is_idle = true ↔ flusher = .idle := by
  cases flusher <;> simp [is_idle]

/-- A directory that a crash leaves between two steps, or among the file effects of
the block of `Put` that makes a new log. -/
def System.Crashes (self : System) (disk : Disk) : Prop :=
  disk = self.disk ∨ ∃ key record program done, self.db.put_lock key record = some program ∧
    done <+: (program self.disk).2 ∧ disk = applyAll self.disk done

/-- The records of the logs that a session made itself and that are still there. -/
def System.own_records (self : System) (found : Disk) : List WalRecord :=
  records (self.disk.wals.toList.filter fun entry => entry.1 ∉ found.wals)

/-- How a session on the directory `found` may end: by a crash while nothing is
under way, or by a clean close without an immutable memtable. The directory it
leaves comes with the records of its own logs that are left. -/
inductive SessionEnd (found : Disk) (last : System) : Disk → List WalRecord → Prop
  | crash {disk} (quiescent : last.db.Quiescent) (crashes : last.Crashes disk) :
      SessionEnd found last disk (last.own_records found)
  | close {stopped closed acts} (imm : last.db.imm = none) (stop : last.step .stop = some stopped)
      (run : stopped.run acts = some closed) (io : ∀ act ∈ acts, act.io_ok = true)
      (destroyed : closed.db.Destroyed) : SessionEnd found last closed.disk []

section

variable {db : DBImpl} {files files' : Files} {l0 l1 : List SSTableReader} {self : System}
  {old : List (Nat × List WalRecord)} {contents : Key → Option Bytes}

/-- Making a new log changes nothing that recovery reads. -/
theorem Levels.Stored.put_lock_same (h : db.levels.Stored files) {key : Key} {record : ValueRecord}
    {program : FileM DBImpl} (hprogram : db.put_lock key record = some program) :
    files.Triple program (fun _ _ => True) fun files' => files.Same files' := by
  have hrefl : files.Same files := .refl h.holds.wals_le
  unfold DBImpl.put_lock at hprogram
  split at hprogram
  · cases hprogram
  split at hprogram
  · cases hprogram
  split at hprogram
  · cases hprogram
    exact .pure hrefl trivial
  split at hprogram
  · cases hprogram
  cases hprogram
  have hallocated : files.Same files.allocated := hrefl.set_state rfl (Nat.le_succ _)
  have hcreated := hallocated.create_wal (Nat.le_refl _)
    fun id hid => Nat.lt_succ_of_le (h.holds.wals_le id hid)
  refine .seq (.allocate h.synced h.snapshot hrefl hallocated ?_)
  intro manifest hmanifest
  rw [← hmanifest]
  refine .seq (.seq (.create_wal hallocated hcreated (.pure hcreated ?_)))
  refine .seq (.add_wal hmanifest h.snapshot hcreated (hcreated.set_state rfl (Nat.le_refl _)) ?_)
  exact fun _ _ => .pure (hcreated.set_state rfl (Nat.le_refl _)) trivial

theorem System.Crashes.same {disk : Disk} (h : self.Crashes disk) (hstored : self.db.levels.Stored self.disk.files) :
    self.disk.files.Same disk.files := by
  rcases h with rfl | ⟨key, record, program, done, hprogram, hdone, rfl⟩
  · exact .refl hstored.holds.wals_le
  · exact (hstored.put_lock_same hprogram self.disk rfl).1 done hdone

theorem Files.Clean.same (h : files.Clean l0 l1) (hsnapshot : files.snapshot = true)
    (hsame : files.Same files') : files'.Clean l0 l1 where
  holds := h.holds.same hsame
  fresh hfresh := by
    rw [hsame.snapshot hsnapshot] at hfresh
    cases hfresh
  listed := by
    rw [hsame.ssts, hsame.levels]
    exact h.listed

/-- The directory of a quiescent session. -/
theorem System.Sound.clean (h : self.Sound old contents) (hquiet : self.db.Quiescent) :
    self.disk.files.Clean self.db.levels.l0 self.db.levels.l1 := by
  obtain ⟨_, _, _, hsession⟩ := h.session
  have hstored := hsession.working.stored
  refine ⟨hstored.holds, ?_, ?_⟩
  · intro hsnapshot
    rw [hstored.snapshot] at hsnapshot
    cases hsnapshot
  · intro id hid
    rw [hstored.holds.lists.mem_iff]
    rcases h.tidy id hid with hl0 | hl1 | ⟨ctx, reader, hbuilt, -⟩ | ⟨call, hcall, -⟩
    · exact .inl hl0
    · exact .inr hl1
    · rw [hquiet.flusher] at hbuilt
      cases hbuilt
    · rw [hquiet.calls] at hcall
      cases hcall

/-- What a session keeps in logs of its own when no flush is pending. -/
theorem DBImpl.Logged.own_records {found : Disk} {flushed : Bool} {immLog memLog : List WalRecord}
    (h : self.db.Logged self.disk.files found.wals.toList flushed immLog memLog)
    (himm : self.db.imm = none) (hmem : self.db.mem.isSome) : self.own_records found = memLog := by
  obtain ⟨mem, hmem⟩ := Option.isSome_iff_exists.mp hmem
  have hentries : self.disk.wals.toList = found.wals.toList ++ [(mem.wal, memLog)] := by
    have hwals := h.entries
    simp only [himm, hmem, Option.toList_none, Option.toList_some, List.map_nil, List.map_cons,
      List.nil_append] at hwals
    exact hwals
  have hsorted : (self.disk.wals.toList.map Prod.fst).Pairwise (· < ·) :=
    List.pairwise_map.mpr (ExtTreeMap.ordered_keys_toList.imp fun hlt => Nat.compare_eq_lt.mp hlt)
  rw [hentries, List.map_append, List.pairwise_append] at hsorted
  have hfound : ∀ entry ∈ found.wals.toList, entry.1 ∈ found.wals := by
    rintro ⟨id, log⟩ hentry
    rw [ExtTreeMap.mem_toList_iff_getElem?_eq_some] at hentry
    exact ExtTreeMap.mem_iff_isSome_getElem?.mpr (by simp [hentry])
  have hnew : mem.wal ∉ found.wals := by
    intro hwal
    have hkey : mem.wal ∈ found.wals.toList.map Prod.fst := by
      rw [ExtTreeMap.map_fst_toList_eq_keys]
      exact ExtTreeMap.mem_keys.mpr hwal
    exact Nat.lt_irrefl _ (hsorted.2.2 _ hkey mem.wal (by simp))
  rw [System.own_records, hentries, List.filter_append, records_append,
    List.filter_eq_nil_iff.mpr (by simpa using hfound)]
  simp [hnew]

/-- The directory of a quiescent session shows what its database shows, but for the
keys of a log that it found and whose newer records it has flushed. -/
theorem System.Sound.shows {found : Disk} (h : self.Sound found.wals.toList contents)
    (hquiet : self.db.Quiescent) (hmem : self.db.mem.isSome) (key : Key) :
    self.disk.files.shows self.db.levels.l0 self.db.levels.l1 key =
      if latest (self.own_records found) key = none then overwrite contents found.files.records key
      else contents key := by
  obtain ⟨flushed, immLog, memLog, hsession⟩ := h.session
  rw [hsession.logged.own_records hquiet.imm hmem]
  obtain ⟨mem, hmem⟩ := Option.isSome_iff_exists.mp hmem
  have hrecords : self.disk.files.records = found.files.records ++ memLog := by
    rw [Files.records, hsession.logged.entries, hquiet.imm, hmem]
    simp [records_append, Files.records, Disk.files]
  have htable : mem.table[key]? = latest (carried found.wals.toList flushed ++ memLog) key := by
    simpa [hquiet.imm] using hsession.logged.mem_table mem hmem key
  have hview := hsession.view key
  rw [DBImpl.get_eq, hmem, hquiet.imm] at hview
  simp only [Option.bind_some, Option.bind_none, Option.or_none, MemTable.get, htable, latest_append] at hview
  rw [Files.shows, hrecords, latest_append, overwrite, ← hview]
  cases latest memLog key with
  | some record => simp
  | none =>
    simp only [Option.none_or, if_true]
    cases hfound : latest found.files.records key with
    | some record => rfl
    | none =>
      have hcarried : latest (carried found.wals.toList flushed) key = none :=
        latest_carried_eq_none hfound
      rw [hcarried]
      rfl

end

theorem Transition.mem_isSome {db db' : DBImpl} {data data' : Data} {act : Act}
    (h : Transition db data act db' data') (hlast : act ≠ .last_flush) (hmem : db.mem.isSome) :
    db'.mem.isSome := by
  cases h with
  | rotate => rfl
  | put_write => rfl
  | last_flush => exact absurd rfl hlast
  | _ => exact hmem

/-- A session on `disk` without I/O failure, before its destructor starts, and the
`Put`s it has completed. -/
structure OpenSession (disk : Disk) (last : System) (puts : List WalRecord) : Prop where
  run : ∃ order start acts, System.open order disk = some start ∧ start.run acts = some last ∧
    (∀ act ∈ acts, act.io_ok = true ∧ act.is_destructor = false) ∧ puts = start.puts acts

section

variable {found disk disk1 disk2 : Disk} {last last1 last2 : System} {puts puts1 puts2 kept : List WalRecord}
  {l0 l1 : List SSTableReader}

theorem OpenSession.sound (h : OpenSession found last puts) (hclean : found.files.Clean l0 l1) :
    last.Sound found.wals.toList (overwrite (found.files.shows l0 l1) puts) ∧ last.db.mem.isSome := by
  obtain ⟨order, start, acts, hopen, hrun, hacts, rfl⟩ := h.run
  obtain ⟨system, hsystem, hopened, hsound⟩ := System.open_clean order hclean
  rw [hopen] at hsystem
  cases hsystem
  have hsteps : ∀ act ∈ acts, act.io_ok = true ∧ act ≠ .last_flush :=
    fun act hact => ⟨(hacts act hact).1, Act.ne_last_flush (hacts act hact).2⟩
  refine ⟨hsound.run hrun hsteps, ?_⟩
  refine @System.run_induction (fun system => system.db.mem.isSome) _ _ _ ?_ hopened.mem hrun
  intro system system' act hact hmem hstep
  exact (System.step_transition hstep).mem_isSome (hsteps act hact).2 hmem

/-- The directory that a crash of a quiescent session leaves. -/
theorem OpenSession.crash (h : OpenSession found last puts) (hclean : found.files.Clean l0 l1)
    (hquiet : last.db.Quiescent) (hcrash : last.Crashes disk) :
    ∃ l0' l1', disk.files.Clean l0' l1' ∧ ∀ key, disk.files.shows l0' l1' key =
      if latest (last.own_records found) key = none then
        overwrite (overwrite (found.files.shows l0 l1) puts) found.files.records key
      else overwrite (found.files.shows l0 l1) puts key := by
  obtain ⟨hsound, hmem⟩ := h.sound hclean
  obtain ⟨_, _, _, hsession⟩ := hsound.session
  have hsame := hcrash.same hsession.working.stored
  refine ⟨_, _, (hsound.clean hquiet).same hsession.working.stored.snapshot hsame, ?_⟩
  intro key
  rw [hsame.shows, hsound.shows hquiet hmem]

/-- The directory that a session leaves, whichever way it ends. -/
theorem OpenSession.ends (h : OpenSession found last puts) (hclean : found.files.Clean l0 l1)
    (hend : SessionEnd found last disk kept) :
    ∃ l0' l1', disk.files.Clean l0' l1' ∧ ∀ key, disk.files.shows l0' l1' key =
      if latest kept key = none then
        overwrite (overwrite (found.files.shows l0 l1) puts) found.files.records key
      else overwrite (found.files.shows l0 l1) puts key := by
  cases hend with
  | crash hquiet hcrash => exact h.crash hclean hquiet hcrash
  | close himm hstop hrun hio hdestroyed =>
    obtain ⟨hsound, -⟩ := h.sound hclean
    obtain ⟨l0', l1', hclosed, hshows⟩ := ((hsound.stop hstop).run hrun hio).destroyed hdestroyed
    obtain ⟨flushed, immLog, memLog, hsession⟩ := hsound.session
    have hpending : last.db.pending last.disk.wals = found.files.records := by
      refine Eq.trans hsession.logged.pending_eq ?_
      simp [himm, Files.records, Disk.files]
    refine ⟨l0', l1', hclosed, ?_⟩
    intro key
    rw [hshows, hpending]
    simp

/-- A first session crashes with no flush pending, a second one ends by a crash
while nothing is under way or by a clean close without an immutable memtable. The
third one shows the latest `Put` of the two on every key, if and only if no key of
a log that the first one left has had a different result written by the second one
whose log has been removed since. -/
theorem System.third_session_exact_iff (hfirst : OpenSession Disk.empty last1 puts1)
    (hquiet : last1.db.Quiescent) (hcrash : last1.Crashes disk1) (hsecond : OpenSession disk1 last2 puts2)
    (hend : SessionEnd disk1 last2 disk2 kept) (order : IterationOrder Nat) :
    (∃ third, System.open order disk2 = some third ∧
      ∀ key, third.db.get key = visible (latest (puts1 ++ puts2) key)) ↔
    ∀ key older newer, latest (records disk1.wals.toList) key = some older →
      latest puts2 key = some newer → latest kept key = none →
      visible (some older) = visible (some newer) := by
  obtain ⟨l0, l1, hclean1, hshows1⟩ := hfirst.crash Disk.empty_clean hquiet hcrash
  obtain ⟨l0', l1', hclean2, hshows2⟩ := hsecond.ends hclean1 hend
  obtain ⟨third, hopen, -, hsound⟩ := System.open_clean order hclean2
  have hview1 : disk1.files.shows l0 l1 = overwrite (fun _ => none) puts1 := by
    funext key
    rw [hshows1 key, Disk.empty_shows]
    exact ite_self _
  have hview : ∀ key, third.db.get key =
      if latest kept key = none then
        overwrite (fun key => visible (latest (puts1 ++ puts2) key)) (records disk1.wals.toList) key
      else visible (latest (puts1 ++ puts2) key) := by
    intro key
    have hputs : overwrite (disk1.files.shows l0 l1) puts2 = fun key => visible (latest (puts1 ++ puts2) key) := by
      funext key
      rw [hview1, ← overwrite_append, overwrite_none]
    rw [hsound.get_eq, hshows2 key, hputs]
    rfl
  constructor
  · rintro ⟨system, hsystem, hexact⟩ key older newer holder hnewer hkept
    rw [hopen, Option.some.injEq] at hsystem
    subst hsystem
    have hget := hexact key
    rw [hview key, if_pos hkept, overwrite, holder, latest_append, hnewer] at hget
    exact hget
  · intro hagree
    refine ⟨third, hopen, ?_⟩
    intro key
    rw [hview key]
    split
    · rename_i hkept
      rw [overwrite]
      cases holder : latest (records disk1.wals.toList) key with
      | none => rfl
      | some older =>
        cases hnewer : latest puts2 key with
        | some newer =>
          rw [latest_append, hnewer]
          exact hagree key older newer holder hnewer hkept
        | none =>
          have hshown : disk1.files.shows l0 l1 key = visible (some older) := by
            rw [Files.shows, show latest disk1.files.records key = some older from holder]
            rfl
          rw [latest_append, hnewer, Option.none_or]
          change visible (some older) = visible (latest puts1 key)
          rw [← hshown, hview1, overwrite_none]
    · rfl

end

instance (db : DBImpl) : Decidable db.Quiescent :=
  decidable_of_iff (db.imm.isNone ∧ db.bg_compaction_scheduled = false ∧ db.flusher.is_idle ∧ db.calls.isEmpty)
    ⟨fun ⟨himm, hscheduled, hflusher, hcalls⟩ => ⟨Option.isNone_iff_eq_none.mp himm, hscheduled,
      Flusher.is_idle_iff.mp hflusher, List.isEmpty_iff.mp hcalls⟩,
    fun ⟨himm, hscheduled, hflusher, hcalls⟩ => ⟨Option.isNone_iff_eq_none.mpr himm, hscheduled,
      Flusher.is_idle_iff.mpr hflusher, List.isEmpty_iff.mpr hcalls⟩⟩

instance (db : DBImpl) : Decidable db.Destroyed :=
  decidable_of_iff (db.bg = .exited ∧ db.flusher.is_idle ∧ db.mem.all (·.count = 0))
    ⟨fun ⟨hexited, hidle, hflushed⟩ => ⟨hexited, Flusher.is_idle_iff.mp hidle, by
      simpa [Option.all_eq_true] using hflushed⟩,
    fun ⟨hexited, hidle, hflushed⟩ => ⟨hexited, Flusher.is_idle_iff.mpr hidle, by
      simpa [Option.all_eq_true] using hflushed⟩⟩

/-- One `Put` on the empty key. -/
def onePutActs (value : Bytes) : List Act := [.put_lock [] ⟨.kValue, value⟩, .put_write]

theorem onePutActs_ok (value : Bytes) :
    ∀ act ∈ onePutActs value, act.io_ok = true ∧ act.is_destructor = false := by
  simp [onePutActs, Act.io_ok, Act.is_destructor]

/-- Two sessions write the same key and crash. -/
theorem third_session_exact_of_two_crashes :
    ∃ last1 last2 puts1 puts2, OpenSession Disk.empty last1 puts1 ∧ OpenSession last1.disk last2 puts2 ∧
      latest (puts1 ++ puts2) [] = some ⟨.kValue, [2]⟩ ∧ ∃ third, System.open .forward last2.disk = some third ∧
        ∀ key, third.db.get key = visible (latest (puts1 ++ puts2) key) := by
  have hruns : ((System.open .forward Disk.empty).bind fun start1 =>
      (start1.run (onePutActs [1])).bind fun last1 =>
      (System.open .forward last1.disk).bind fun start2 =>
      (start2.run (onePutActs [2])).bind fun last2 =>
        if last1.db.Quiescent ∧ last2.db.Quiescent ∧ start1.puts (onePutActs [1]) = [([], ⟨.kValue, [1]⟩)] ∧
          start2.puts (onePutActs [2]) = [([], ⟨.kValue, [2]⟩)] ∧
          last2.own_records last1.disk = [([], ⟨.kValue, [2]⟩)] then some () else none) = some () := by
    decide +kernel
  obtain ⟨start1, hopen1, hruns⟩ := Option.bind_eq_some_iff.mp hruns
  obtain ⟨last1, hrun1, hruns⟩ := Option.bind_eq_some_iff.mp hruns
  obtain ⟨start2, hopen2, hruns⟩ := Option.bind_eq_some_iff.mp hruns
  obtain ⟨last2, hrun2, hruns⟩ := Option.bind_eq_some_iff.mp hruns
  rw [Option.ite_none_right_eq_some] at hruns
  obtain ⟨⟨hquiet1, hquiet2, hputs1, hputs2, hkept⟩, -⟩ := hruns
  have hfirst : OpenSession Disk.empty last1 _ := ⟨_, _, _, hopen1, hrun1, onePutActs_ok _, rfl⟩
  have hsecond : OpenSession last1.disk last2 _ := ⟨_, _, _, hopen2, hrun2, onePutActs_ok _, rfl⟩
  refine ⟨last1, last2, _, _, hfirst, hsecond, by rw [hputs1, hputs2]; decide, ?_⟩
  refine (System.third_session_exact_iff hfirst hquiet1 (.inl rfl) hsecond
    (.crash hquiet2 (.inl rfl)) .forward).mpr ?_
  intro key older newer _ hnewer hnone
  rw [hkept, ← hputs2, hnewer] at hnone
  cases hnone

/-- The first session writes a key and crashes; the second one writes it again and
is closed, which flushes the new version and leaves the log of the old one. -/
theorem third_session_shows_old_version :
    ∃ last1 last2 puts1 puts2 disk2 kept third, OpenSession Disk.empty last1 puts1 ∧ last1.db.Quiescent ∧
      OpenSession last1.disk last2 puts2 ∧ SessionEnd last1.disk last2 disk2 kept ∧
      System.open .forward disk2 = some third ∧
      latest (puts1 ++ puts2) [] = some ⟨.kValue, [2]⟩ ∧ third.db.get [] = some [1] := by
  have hruns : ((System.open .forward Disk.empty).bind fun start1 =>
      (start1.run (onePutActs [1])).bind fun last1 =>
      (System.open .forward last1.disk).bind fun start2 =>
      (start2.run (onePutActs [2])).bind fun last2 =>
      (last2.step .stop).bind fun stopped =>
      (stopped.run (.bg_wake :: .last_flush :: minorActs)).bind fun closed =>
      (System.open .forward closed.disk).bind fun third =>
        if last1.db.Quiescent ∧ last2.db.Quiescent ∧ closed.db.Destroyed ∧
          start1.puts (onePutActs [1]) = [([], ⟨.kValue, [1]⟩)] ∧
          start2.puts (onePutActs [2]) = [([], ⟨.kValue, [2]⟩)] ∧
          third.db.get [] = some [1] then some () else none) = some () := by
    decide +kernel
  obtain ⟨start1, hopen1, hruns⟩ := Option.bind_eq_some_iff.mp hruns
  obtain ⟨last1, hrun1, hruns⟩ := Option.bind_eq_some_iff.mp hruns
  obtain ⟨start2, hopen2, hruns⟩ := Option.bind_eq_some_iff.mp hruns
  obtain ⟨last2, hrun2, hruns⟩ := Option.bind_eq_some_iff.mp hruns
  obtain ⟨stopped, hstop, hruns⟩ := Option.bind_eq_some_iff.mp hruns
  obtain ⟨closed, hclose, hruns⟩ := Option.bind_eq_some_iff.mp hruns
  obtain ⟨third, hopen3, hruns⟩ := Option.bind_eq_some_iff.mp hruns
  rw [Option.ite_none_right_eq_some] at hruns
  obtain ⟨⟨hquiet1, hquiet2, hdestroyed, hputs1, hputs2, hget⟩, -⟩ := hruns
  refine ⟨last1, last2, _, _, closed.disk, [], third, ⟨_, _, _, hopen1, hrun1, onePutActs_ok _, rfl⟩, hquiet1,
    ⟨_, _, _, hopen2, hrun2, onePutActs_ok _, rfl⟩, ?_, hopen3, by rw [hputs1, hputs2]; decide, hget⟩
  exact .close hquiet2.imm hstop hclose (by simp [minorActs, Act.io_ok]) hdestroyed

end NovaKV
