import NovaKV.Store.Invariant

open Std
open NovaKV.Lib

namespace NovaKV

/-- `Get` reads the newest record of the memtables and the levels. -/
theorem DBImpl.get_eq (self : DBImpl) (key : Key) :
    self.get key = visible (((self.mem.bind (·.get key)).or (self.imm.bind (·.get key))).or
      (self.levels.search key)) := by
  unfold DBImpl.get Levels.search search_levels
  cases self.mem.bind (·.get key) with
  | some record => rfl
  | none =>
    cases self.imm.bind (·.get key) with
    | some record => rfl
    | none => cases search_level self.levels.l0 key <;> rfl

/-- The records of a list of logs, in the order in which they are replayed. -/
def records (entries : List (Nat × List WalRecord)) : List WalRecord := entries.flatMap Prod.snd

def Files.records (self : Files) : List WalRecord := NovaKV.records self.wals.toList

/-- The records of earlier sessions that the first memtable of a session got by
replay and has not passed on to a table yet. -/
def carried (old : List (Nat × List WalRecord)) (flushed : Bool) : List WalRecord :=
  if flushed then [] else records old

/-- How memtables and logs correspond in a session that found the logs `old`. The
memtables hold the records of their own logs; until the first flush, the oldest
of them also holds the replayed ones. -/
structure Logged (mem imm : Option MemTable) (active_wal_id imm_wal_id : Nat)
    (wals : ExtTreeMap Nat (List WalRecord)) (old : List (Nat × List WalRecord)) (flushed : Bool)
    (immLog memLog : List WalRecord) : Prop where
  entries : wals.toList = old ++
    (imm.toList.map (fun m => (m.wal, immLog)) ++ mem.toList.map (fun m => (m.wal, memLog)))
  imm_wal : ∀ m, imm = some m → m.wal = imm_wal_id
  mem_wal : ∀ m, mem = some m → m.wal = active_wal_id
  imm_table : ∀ m, imm = some m →
    ∀ key : Key, m.table[key]? = latest (carried old flushed ++ immLog) key
  mem_table : ∀ m, mem = some m →
    ∀ key : Key, m.table[key]? = latest ((if imm.isSome then [] else carried old flushed) ++ memLog) key

abbrev DBImpl.Logged (self : DBImpl) (files : Files) : List (Nat × List WalRecord) → Bool →
    List WalRecord → List WalRecord → Prop :=
  NovaKV.Logged self.mem self.imm self.active_wal_id self.imm_wal_id files.wals

/-- A session in which `Get` shows `contents`. -/
structure DBImpl.Session (db : DBImpl) (files : Files) (old : List (Nat × List WalRecord))
    (flushed : Bool) (immLog memLog : List WalRecord) (contents : Key → Option Bytes) : Prop where
  working : db.Working files
  logged : db.Logged files old flushed immLog memLog
  view : ∀ key, db.get key = contents key

/-- A directory from which recovery rebuilds `contents`: all its logs over the two
levels that it holds. -/
structure Files.Recovers (files : Files) (contents : Key → Option Bytes) : Prop where
  snapshot : files.snapshot = true
  holds : ∃ l0 l1, files.Holds l0 l1 ∧
    ∀ key, visible ((latest files.records key).or (search_levels l0 l1 key)) = contents key

/-- `contents` after further writes. -/
def overwrite (contents : Key → Option Bytes) (writes : List WalRecord) (key : Key) : Option Bytes :=
  match latest writes key with
  | some record => visible (some record)
  | none => contents key

@[simp] theorem overwrite_nil (contents : Key → Option Bytes) : overwrite contents [] = contents := rfl

theorem overwrite_append (contents : Key → Option Bytes) (first second : List WalRecord) :
    overwrite contents (first ++ second) = overwrite (overwrite contents first) second := by
  funext key
  simp only [overwrite, latest_append]
  cases latest second key <;> rfl

theorem overwrite_none (writes : List WalRecord) (key : Key) :
    overwrite (fun _ => none) writes key = visible (latest writes key) := by
  simp only [overwrite]
  cases latest writes key <;> rfl

theorem overwrite_singleton (contents : Key → Option Bytes) (key : Key) (record : ValueRecord) (other : Key) :
    overwrite contents [(key, record)] other =
      if other = key then visible (some record) else contents other := by
  by_cases hkey : other = key
  · subst hkey
    simp [overwrite, latest]
  · simp [overwrite, latest, lookup_cons_of_ne hkey, hkey]

/-- The whole of the logs is in the memtables: nothing older was flushed over. -/
def Exact (old : List (Nat × List WalRecord)) (flushed : Bool) : Prop := old = [] ∨ flushed = false

theorem Exact.carried_eq {old : List (Nat × List WalRecord)} {flushed : Bool} (h : Exact old flushed) :
    carried old flushed = records old := by
  rcases h with rfl | rfl
  · cases flushed <;> rfl
  · rfl

section

variable {db : DBImpl} {files : Files} {old : List (Nat × List WalRecord)} {flushed : Bool}
  {immLog memLog : List WalRecord} {contents : Key → Option Bytes}

@[simp] theorem records_nil : records [] = [] := rfl

theorem records_append (first second : List (Nat × List WalRecord)) :
    records (first ++ second) = records first ++ records second := by
  simp [records]

@[simp] theorem records_singleton (id : Nat) (log : List WalRecord) : records [(id, log)] = log := by
  simp [records]

/-- The replay of all logs gives what the two memtables hold. -/
theorem Logged.latest_records {mem imm : Option MemTable} {active_wal_id imm_wal_id : Nat}
    {wals : ExtTreeMap Nat (List WalRecord)}
    (h : NovaKV.Logged mem imm active_wal_id imm_wal_id wals old flushed immLog memLog)
    (hexact : Exact old flushed) (hmem : mem.isSome) (key : Key) :
    latest (records wals.toList) key = (mem.bind (·.get key)).or (imm.bind (·.get key)) := by
  obtain ⟨mem, rfl⟩ := Option.isSome_iff_exists.mp hmem
  have hmemTable := h.mem_table mem rfl key
  rw [h.entries, records_append, records_append]
  cases imm with
  | none =>
    simp only [Option.isSome_none, Bool.false_eq_true, if_false, hexact.carried_eq] at hmemTable
    simp [MemTable.get, hmemTable]
  | some imm =>
    have himmTable := h.imm_table imm rfl key
    simp only [Option.isSome_some, if_true, List.nil_append] at hmemTable
    rw [hexact.carried_eq] at himmTable
    simp only [Option.toList_some, List.map_cons, List.map_nil, records_singleton,
      Option.bind_some, MemTable.get, hmemTable, himmTable, latest_append]
    cases latest memLog key <;> simp

theorem DBImpl.Logged.latest_records (h : db.Logged files old flushed immLog memLog)
    (hexact : Exact old flushed) (hmem : db.mem.isSome) (key : Key) :
    latest files.records key = (db.mem.bind (·.get key)).or (db.imm.bind (·.get key)) :=
  NovaKV.Logged.latest_records h hexact hmem key

/-- A crash between two steps of a session whose logs are all in its memtables. -/
theorem DBImpl.Session.recovers (h : db.Session files old flushed immLog memLog contents)
    (hexact : Exact old flushed) (hmem : db.mem.isSome) : files.Recovers contents where
  snapshot := h.working.stored.snapshot
  holds := by
    refine ⟨_, _, h.working.stored.holds, ?_⟩
    intro key
    rw [h.logged.latest_records hexact hmem, ← h.view key, DBImpl.get_eq]
    rfl

theorem Files.Recovers.set_state {state : ManifestState Nat} (h : files.Recovers contents)
    (hlevels : state.sst_levels = files.state.sst_levels)
    (hnext : files.state.next_file_number ≤ state.next_file_number) :
    { files with state := state }.Recovers contents := by
  obtain ⟨hsnapshot, l0, l1, hholds, hcovered⟩ := h
  exact ⟨hsnapshot, l0, l1, hholds.set_state hlevels hnext, hcovered⟩

theorem Files.Recovers.allocated (h : files.Recovers contents) : files.allocated.Recovers contents :=
  h.set_state rfl (Nat.le_succ _)

theorem Files.Recovers.add_wal (h : files.Recovers contents) (id : Nat) :
    (files.commit (.AddWAL id)).Recovers contents :=
  h.set_state rfl (Nat.le_refl _)

theorem Files.Recovers.insert_sst {id : Nat} {table : SSTable} (h : files.Recovers contents)
    (hunlisted : id ∉ files.state.sst_levels) (hid : id ≤ files.state.next_file_number) :
    { files with ssts := files.ssts.insert id table }.Recovers contents := by
  obtain ⟨hsnapshot, l0, l1, hholds, hcovered⟩ := h
  exact ⟨hsnapshot, l0, l1, hholds.insert_sst hunlisted hid, hcovered⟩

theorem Files.Recovers.erase_sst {id : Nat} (h : files.Recovers contents)
    (hunlisted : id ∉ files.state.sst_levels) :
    { files with ssts := files.ssts.erase id }.Recovers contents := by
  obtain ⟨hsnapshot, l0, l1, hholds, hcovered⟩ := h
  exact ⟨hsnapshot, l0, l1, hholds.erase_sst hunlisted, hcovered⟩

/-- A new empty log adds nothing. -/
theorem Files.Recovers.create_wal {id : Nat} (h : files.Recovers contents)
    (hid : id ≤ files.state.next_file_number) (hlast : ∀ other ∈ files.wals, other < id) :
    { files with wals := files.wals.insertIfNew id [] }.Recovers contents := by
  obtain ⟨hsnapshot, l0, l1, hholds, hcovered⟩ := h
  refine ⟨hsnapshot, l0, l1, hholds.set_wals ?_, ?_⟩
  · intro other hother
    rw [ExtTreeMap.mem_insertIfNew] at hother
    rcases hother with heq | hmem
    · rwa [← LawfulEqCmp.eq_of_compare heq]
    · exact hholds.wals_le other hmem
  · intro key
    have htoList : (files.wals.insertIfNew id []).toList = files.wals.toList ++ [(id, [])] :=
      toList_insertIfNew_of_lt fun other hother => Nat.compare_eq_lt.mpr (hlast other hother)
    simp only [Files.records, htoList, records_append, records_singleton, List.append_nil]
    exact hcovered key

end

end NovaKV
