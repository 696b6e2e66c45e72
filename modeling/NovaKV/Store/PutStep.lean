import NovaKV.Store.Session

open Std
open NovaKV.Lib

namespace NovaKV

section

variable {db : DBImpl} {files : Files} {old : List (Nat × List WalRecord)} {flushed : Bool}
  {immLog memLog : List WalRecord} {contents : Key → Option Bytes} {program : FileM DBImpl}

/-- A step that writes nothing keeps the session and what `Get` shows. -/
def Kept (old : List (Nat × List WalRecord)) (flushed : Bool) (contents : Key → Option Bytes)
    (files : Files) (db' : DBImpl) (files' : Files) : Prop :=
  (∃ immLog memLog, db'.Session files' old flushed immLog memLog contents) ∧
    files'.written = files.written

/-- What a crash inside a step that writes nothing leaves, as far as the step is
`safe` to interrupt. -/
def Safe (safe : Prop) (contents : Key → Option Bytes) (files files' : Files) : Prop :=
  safe → files'.Recovers contents ∧ files'.written = files.written

/-- A step that writes some records keeps the session, and `Get` shows them. -/
def Advanced (old : List (Nat × List WalRecord)) (flushed : Bool) (contents : Key → Option Bytes)
    (files : Files) (writes : List WalRecord) (db' : DBImpl) (files' : Files) : Prop :=
  (∃ immLog memLog, db'.Session files' old flushed immLog memLog (overwrite contents writes)) ∧
    files'.written = files.written ++ writes

/-- What a crash inside a step leaves: the records written so far are kept. -/
def Survives (safe : Prop) (contents : Key → Option Bytes) (files files' : Files) : Prop :=
  safe → ∃ writes, files'.Recovers (overwrite contents writes) ∧ files'.written = files.written ++ writes

/-- A crash is harmless while the memtables hold all logs. -/
abbrev DBImpl.Covered (self : DBImpl) (old : List (Nat × List WalRecord)) (flushed : Bool) : Prop :=
  Exact old flushed ∧ self.mem.isSome

theorem Kept.advanced {db' : DBImpl} {files' : Files} (h : Kept old flushed contents files db' files') :
    Advanced old flushed contents files [] db' files' :=
  ⟨h.1, by simpa using h.2⟩

theorem Safe.survives {safe : Prop} {files' : Files} (h : Safe safe contents files files') :
    Survives safe contents files files' :=
  fun hsafe => ⟨[], (h hsafe).1, by simpa using (h hsafe).2⟩

theorem DBImpl.Session.safe (h : db.Session files old flushed immLog memLog contents) :
    Safe (db.Covered old flushed) contents files files :=
  fun hsafe => ⟨h.recovers hsafe.1 hsafe.2, rfl⟩

section

variable {safe : Prop} {files' : Files}

theorem Safe.allocated (h : Safe safe contents files files') :
    Safe safe contents files files'.allocated :=
  fun hsafe => ⟨(h hsafe).1.allocated, (h hsafe).2⟩

theorem Safe.create_wal {id : Nat} (h : Safe safe contents files files')
    (hid : id ≤ files'.state.next_file_number) (hlast : ∀ other ∈ files'.wals, other < id) :
    Safe safe contents files { files' with wals := files'.wals.insertIfNew id [] } :=
  fun hsafe => ⟨(h hsafe).1.create_wal hid hlast, (h hsafe).2⟩

theorem Safe.add_wal (h : Safe safe contents files files') (id : Nat) :
    Safe safe contents files (files'.commit (.AddWAL id)) :=
  fun hsafe => ⟨(h hsafe).1.add_wal id, (h hsafe).2⟩

theorem Safe.insert_sst {id : Nat} (h : Safe safe contents files files') (table : SSTable)
    (hunlisted : id ∉ files'.state.sst_levels) (hid : id ≤ files'.state.next_file_number) :
    Safe safe contents files { files' with ssts := files'.ssts.insert id table } :=
  fun hsafe => ⟨(h hsafe).1.insert_sst hunlisted hid, (h hsafe).2⟩

theorem Safe.erase_sst {id : Nat} (h : Safe safe contents files files')
    (hunlisted : id ∉ files'.state.sst_levels) :
    Safe safe contents files { files' with ssts := files'.ssts.erase id } :=
  fun hsafe => ⟨(h hsafe).1.erase_sst hunlisted, (h hsafe).2⟩

end

/-- A rotated memtable with its log, under a new memtable whose log is empty. -/
theorem Logged.rotate {mem : MemTable} {active_wal_id imm_wal_id new_wal_id : Nat}
    {wals : ExtTreeMap Nat (List WalRecord)}
    (h : Logged (some mem) none active_wal_id imm_wal_id wals old flushed immLog memLog)
    (hlast : ∀ id ∈ wals, id < new_wal_id) :
    Logged (some { wal := new_wal_id, table := ∅ }) (some mem) new_wal_id active_wal_id
      (wals.insertIfNew new_wal_id []) old flushed memLog [] where
  entries := by
    rw [toList_insertIfNew_of_lt fun id hid => Nat.compare_eq_lt.mpr (hlast id hid), h.entries]
    simp
  imm_wal := by
    rintro _ ⟨⟩
    exact h.mem_wal mem rfl
  mem_wal := by
    rintro _ ⟨⟩
    rfl
  imm_table := by
    rintro _ ⟨⟩ key
    simpa using h.mem_table mem rfl key
  mem_table := by
    rintro _ ⟨⟩ key
    simp

theorem DBImpl.Session.put_lock {key : Key} {record : ValueRecord}
    (h : db.Session files old flushed immLog memLog contents)
    (hprogram : db.put_lock key record = some program) :
    files.Triple program (Kept old flushed contents files) (Safe (db.Covered old flushed) contents files) := by
  unfold DBImpl.put_lock at hprogram
  split at hprogram
  · cases hprogram
  obtain ⟨levels, mem, imm, active_wal_id, imm_wal_id, stopped, scheduled, bg, flusher, writer, calls⟩ := db
  cases mem with
  | none => cases hprogram
  | some mem =>
    simp only at hprogram
    split at hprogram
    · cases hprogram
      exact .pure h.safe ⟨⟨immLog, memLog, h.working, h.logged, h.view⟩, rfl⟩
    rename_i hfull
    cases imm with
    | some imm => cases hprogram
    | none =>
    cases hprogram
    have hstored := h.working.stored
    have hfresh : ∀ id ∈ files.wals, id < files.state.next_file_number + 1 :=
      fun id hid => Nat.lt_succ_of_le (hstored.holds.wals_le id hid)
    have hallocated := h.safe.allocated
    have hcreated := hallocated.create_wal (Nat.le_refl _) hfresh
    refine .seq (.allocate hstored.synced hstored.snapshot h.safe hallocated ?_)
    intro manifest hmanifest
    rw [← hmanifest]
    refine .seq (.seq (.create_wal hallocated hcreated (.pure hcreated ?_)))
    refine .seq (.add_wal hmanifest hstored.snapshot hcreated (hcreated.add_wal _) ?_)
    intro manifest' hmanifest'
    have hwals : ∀ id ∈ files.wals.insertIfNew (files.state.next_file_number + 1) [],
        id ≤ files.allocated.state.next_file_number := by
      intro id hid
      rw [ExtTreeMap.mem_insertIfNew] at hid
      rcases hid with heq | hmem
      · rw [← LawfulEqCmp.eq_of_compare heq]
        rfl
      · exact Nat.le_of_lt (hfresh id hmem)
    have hworking := ((h.working.allocated hmanifest).set_wals _ files.written hwals).set_manifest
      hmanifest' rfl (Nat.le_refl _)
    have hcount : 0 < mem.count := Nat.lt_of_lt_of_le (by decide) (Nat.le_of_not_lt hfull)
    refine .pure (hcreated.add_wal _)
      ⟨⟨memLog, [], hworking.set_imm hcount, h.logged.rotate hfresh, ?_⟩, rfl⟩
    intro other
    rw [← h.view other, DBImpl.get_eq, DBImpl.get_eq]
    simp [MemTable.get, Levels.search]

/-- A record appended to the active log and put into its memtable. -/
theorem Logged.append {mem : MemTable} {imm : Option MemTable} {active_wal_id imm_wal_id : Nat}
    {wals : ExtTreeMap Nat (List WalRecord)}
    (h : Logged (some mem) imm active_wal_id imm_wal_id wals old flushed immLog memLog)
    (key : Key) (record : ValueRecord) :
    Logged (some { mem with table := mem.table.insert key record }) imm active_wal_id imm_wal_id
      (wals.insert mem.wal (wals[mem.wal]?.getD [] ++ [(key, record)])) old flushed immLog
      (memLog ++ [(key, record)]) where
  entries := by
    have hentries := h.entries
    rw [Option.toList_some, List.map_singleton, ← List.append_assoc] at hentries
    rw [getElem?_of_toList hentries, toList_insert_of_mem hentries]
    simp
  imm_wal := h.imm_wal
  mem_wal := by
    rintro _ ⟨⟩
    exact h.mem_wal mem rfl
  imm_table := h.imm_table
  mem_table := by
    rintro _ ⟨⟩ other
    rw [ExtTreeMap.getElem?_insert, h.mem_table mem rfl other, ← List.append_assoc]
    by_cases hkey : key = other
    · subst hkey
      rw [latest_concat_self]
      simp
    · rw [latest_concat_of_ne _ _ (Ne.symm hkey), if_neg (by simpa using hkey)]

theorem DBImpl.Session.put_write (h : db.Session files old flushed immLog memLog contents)
    (hprogram : db.put_write = some program) :
    files.Triple program (Advanced old flushed contents files (db.completes .put_write))
      (Survives (db.Covered old flushed) contents files) := by
  obtain ⟨levels, mem, imm, active_wal_id, imm_wal_id, stopped, scheduled, bg, flusher, writer, calls⟩ := db
  cases writer with
  | none => cases hprogram
  | some write =>
  cases mem with
  | none => cases hprogram
  | some mem =>
  obtain ⟨key, record⟩ := write
  cases hprogram
  have hlogged := h.logged.append key record
  have hlive : mem.wal ∈ files.wals := by
    have hentries := h.logged.entries
    rw [Option.toList_some, List.map_singleton, ← List.append_assoc] at hentries
    simp [ExtTreeMap.mem_iff_isSome_getElem?, getElem?_of_toList hentries]
  have hwals : ∀ id ∈ files.wals.insert mem.wal (files.wals[mem.wal]?.getD [] ++ [(key, record)]),
      id ≤ files.state.next_file_number := by
    intro id hid
    rw [ExtTreeMap.mem_insert] at hid
    rcases hid with heq | hid
    · rw [← LawfulEqCmp.eq_of_compare heq]
      exact h.working.stored.holds.wals_le _ hlive
    · exact h.working.stored.holds.wals_le id hid
  have hsession : DBImpl.Session
      { levels := levels, mem := some { mem with table := mem.table.insert key record }, imm := imm
        active_wal_id := active_wal_id, imm_wal_id := imm_wal_id, bg_stopped := stopped
        bg_compaction_scheduled := scheduled, bg := bg, flusher := flusher, writer := none, calls := calls }
      { files with
        wals := files.wals.insert mem.wal (files.wals[mem.wal]?.getD [] ++ [(key, record)])
        written := files.written ++ [(key, record)] }
      old flushed immLog (memLog ++ [(key, record)]) (overwrite contents [(key, record)]) := by
    refine ⟨h.working.set_wals _ _ hwals, hlogged, ?_⟩
    intro other
    rw [overwrite_singleton, ← h.view other, DBImpl.get_eq, DBImpl.get_eq]
    simp only [Option.bind_some, MemTable.get, ExtTreeMap.getElem?_insert]
    by_cases hkey : other = key
    · simp [hkey]
    · simp [hkey, Ne.symm hkey]
  have hafter : Survives (Exact old flushed ∧ (some mem).isSome) contents files _ :=
    fun hsafe => ⟨[(key, record)], hsession.recovers hsafe.1 hsafe.2, rfl⟩
  exact .seq (.seq (.append_wal h.safe.survives hafter
    (.pure hafter (.pure hafter ⟨⟨_, _, hsession⟩, rfl⟩))))

end

end NovaKV
