import NovaKV.Memory.OrderedMap
import NovaKV.Memory.WalHandler
import NovaKV.Store.Compaction

open Std
open NovaKV.Lib

namespace NovaKV.Memory

/-- A memtable. Its log is a file that others may append to as well, so it is passed
along. -/
structure MemTable where
  table : SkipList Key StoredRecord

/-- A new memtable. Without a level there would be no pointer to the first node. -/
def MemTable.new (max_level : ℕ+) : MemTable := ⟨SkipList.new max_level⟩

/-- `Put`: the log first, then the table. -/
def MemTable.put (self : MemTable) (file : Bytes) (key : Key) (value : StoredRecord) (draws : List Bool) :
    Option (MemTable × Bytes) := do
  let file := file ++ add_log key value.value value.type
  let table ← self.table.insert_element key value draws
  return ({ self with table := table }, file)

def MemTable.get (self : MemTable) (key : Key) : Option (Option StoredRecord) := self.table.search_element key

/-- `Remove` logs and inserts a deletion. -/
def MemTable.remove (self : MemTable) (file : Bytes) (key : Key) (draws : List Bool) :
    Option (MemTable × Bytes) := do
  let file := file ++ add_log key [] ValueType.kDeletion.to_u8
  let table ← self.table.insert_element key ⟨ValueType.kDeletion.to_u8, []⟩ draws
  return ({ self with table := table }, file)

def MemTable.count (self : MemTable) : Int32 := self.table.size

def MemTable.snapshot (self : MemTable) : Option (List (Key × StoredRecord)) := self.table.iterate

def MemTable.apply_without_wal (self : MemTable) (key : Key) (value : StoredRecord) (draws : List Bool) :
    Option MemTable := do
  let table ← self.table.insert_element key value draws
  return { self with table := table }

/-- A call that changes a memtable. -/
inductive Call where
  | put (key : Key) (value : StoredRecord)
  | remove (key : Key)

/-- What a call writes: type, key and value. -/
def Call.record : Call → UInt8 × Key × Bytes
  | .put key value => (value.type, key, value.value)
  | .remove key => (ValueType.kDeletion.to_u8, key, [])

/-- Key and value fit the length fields of the log. -/
def Call.Fits (call : Call) : Prop := call.record.2.1.length < 2 ^ 32 ∧ call.record.2.2.length < 2 ^ 32

def MemTable.call (self : MemTable) (file : Bytes) (draws : List Bool) : Call → Option (MemTable × Bytes)
  | .put key value => self.put file key value draws
  | .remove key => self.remove file key draws

/-- The calls on one memtable, in order, each with what its skip list draws. -/
def MemTable.run (self : MemTable) (file : Bytes) : List (Call × List Bool) → Option (MemTable × Bytes)
  | [] => some (self, file)
  | (call, draws) :: calls => do
    let (next, file) ← self.call file draws call
    next.run file calls

/-- Memtables whose handlers append to one file. -/
structure SharedLog (n : Nat) where
  file : Bytes
  tables : Fin n → MemTable

/-- The calls on all of them, in order. -/
def SharedLog.run {n : Nat} (self : SharedLog n) : List (Fin n × Call × List Bool) → Option (SharedLog n)
  | [] => some self
  | (i, call, draws) :: calls => do
    let (next, file) ← (self.tables i).call self.file draws call
    SharedLog.run ⟨file, Function.update self.tables i next⟩ calls

/-- The callback of `RecoverFromWals`, with the draws of each insertion. -/
def replay (draws : Nat → List Bool) (state : Option MemTable × Nat) (type : UInt8) (key value : Bytes) :
    Option MemTable × Nat :=
  (state.1.bind fun mem => mem.apply_without_wal key ⟨type, value⟩ (draws state.2), state.2 + 1)

/-- The memtable that `LoadLog` fills from a file. -/
def recover (locals : Uninitialized) (draws : Nat → List Bool) (max_level : ℕ+) (file : Bytes) :
    Option MemTable :=
  (load_log locals (replay draws) ⟨file, true⟩ (some (MemTable.new max_level), 0)).1

/-- The log of some calls. -/
def logOf (calls : List Call) : Bytes := calls.flatMap fun call =>
  add_log call.record.2.1 call.record.2.2 call.record.1

theorem logOf_cons (call : Call) (calls : List Call) : logOf (call :: calls) = logOf [call] ++ logOf calls := by
  simp [logOf]

/-- The entries after some calls, the last one for a key counting. -/
def entriesOf (calls : List Call) (entries : ExtTreeMap Key StoredRecord) : ExtTreeMap Key StoredRecord :=
  calls.foldl (fun entries call => entries.insert call.record.2.1 ⟨call.record.1, call.record.2.2⟩) entries

section

variable {self : MemTable} {entries : ExtTreeMap Key StoredRecord}

theorem MemTable.new_represents (max_level : ℕ+) : (MemTable.new max_level).table.Represents ∅ :=
  SkipList.new_represents max_level.pos

/-- A call appends its record to the file and inserts it into the table. -/
theorem MemTable.call_represents (h : self.table.Represents entries) (file : Bytes) (draws : List Bool)
    (call : Call) : ∃ next, self.call file draws call = some (next, file ++ logOf [call]) ∧
      next.table.Represents (entriesOf [call] entries) := by
  cases call with
  | put key value =>
    obtain ⟨table, hinsert, htable⟩ := h.insert_element key value draws
    exact ⟨⟨table⟩, by simp [MemTable.call, MemTable.put, hinsert, logOf, Call.record], htable⟩
  | remove key =>
    obtain ⟨table, hinsert, htable⟩ := h.insert_element key ⟨ValueType.kDeletion.to_u8, []⟩ draws
    exact ⟨⟨table⟩, by simp [MemTable.call, MemTable.remove, hinsert, logOf, Call.record], htable⟩

theorem MemTable.run_represents (h : self.table.Represents entries) (file : Bytes)
    (calls : List (Call × List Bool)) :
    ∃ next, self.run file calls = some (next, file ++ logOf (calls.map Prod.fst)) ∧
      next.table.Represents (entriesOf (calls.map Prod.fst) entries) := by
  induction calls generalizing self file entries with
  | nil => exact ⟨self, by simp [MemTable.run, logOf], h⟩
  | cons first calls ih =>
    obtain ⟨call, draws⟩ := first
    obtain ⟨mid, hcall, hmid⟩ := MemTable.call_represents h file draws call
    obtain ⟨next, hrun, hnext⟩ := ih hmid (file ++ logOf [call])
    refine ⟨next, ?_, hnext⟩
    rw [List.map_cons, logOf_cons, ← List.append_assoc, ← hrun]
    simp [MemTable.run, hcall]

/-- Whatever memtables the calls go to, the file is the log of all of them. -/
theorem SharedLog.run_file {n : Nat} {shared : SharedLog n} (calls : List (Fin n × Call × List Bool))
    (htables : ∀ i, ∃ entries, (shared.tables i).table.Represents entries) :
    ∃ next, shared.run calls = some next ∧ next.file = shared.file ++ logOf (calls.map fun call => call.2.1) := by
  induction calls generalizing shared with
  | nil => exact ⟨shared, rfl, by simp [logOf]⟩
  | cons first calls ih =>
    obtain ⟨i, call, draws⟩ := first
    obtain ⟨entries, hentries⟩ := htables i
    obtain ⟨table, hcall, htable⟩ := MemTable.call_represents hentries shared.file draws call
    obtain ⟨next, hrun, hfile⟩ := @ih ⟨shared.file ++ logOf [call], Function.update shared.tables i table⟩ (by
      intro j
      by_cases hj : j = i
      · subst hj
        exact ⟨_, by simpa using htable⟩
      · simpa [Function.update_of_ne hj] using htables j)
    refine ⟨next, ?_, ?_⟩
    · simp [SharedLog.run, hcall, hrun]
    · rw [hfile, List.append_assoc, ← logOf_cons]
      rfl

/-- Replaying calls into a table. -/
theorem foldl_replay (draws : Nat → List Bool) (h : self.table.Represents entries) (calls : List Call) (n : Nat) :
    ∃ next m, calls.foldl (fun state call => replay draws state call.record.1 call.record.2.1 call.record.2.2)
        (some self, n) = (some next, m) ∧ next.table.Represents (entriesOf calls entries) := by
  induction calls generalizing self entries n with
  | nil => exact ⟨self, n, rfl, h⟩
  | cons call calls ih =>
    obtain ⟨table, hinsert, htable⟩ :=
      h.insert_element call.record.2.1 ⟨call.record.1, call.record.2.2⟩ (draws n)
    obtain ⟨next, m, hfold, hnext⟩ := @ih ⟨table⟩ _ htable (n + 1)
    refine ⟨next, m, ?_, hnext⟩
    rw [List.foldl_cons, ← hfold]
    simp [replay, MemTable.apply_without_wal, hinsert]

theorem load_log_logOf {σ : Type} (locals : Uninitialized) (callback : σ → UInt8 → Bytes → Bytes → σ) (state : σ)
    {calls : List Call} (hfits : ∀ call ∈ calls, call.Fits) :
    load_log locals callback ⟨logOf calls, true⟩ state =
      calls.foldl (fun state call => callback state call.record.1 call.record.2.1 call.record.2.2) state := by
  have hlengths : ∀ record ∈ calls.map Call.record, record.2.1.length < 2 ^ 32 ∧ record.2.2.length < 2 ^ 32 := by
    intro record hrecord
    obtain ⟨call, hcall, rfl⟩ := List.mem_map.mp hrecord
    exact hfits call hcall
  have hrecords := load_log_records locals callback state hlengths
  rw [List.flatMap_map, List.foldl_map] at hrecords
  exact hrecords

/-- The log reproduces the memtable. However the calls are spread over memtables that
log to one file, `LoadLog` calls back with exactly these calls in order; and a
memtable that applies them without a log agrees with one that took all the calls
itself, whatever the two skip lists draw. -/
theorem MemTable.replay_reproduces {n : Nat} (levels : Fin n → ℕ+) (calls : List (Fin n × Call × List Bool))
    (hfits : ∀ call ∈ calls, call.2.1.Fits) :
    ∃ shared, SharedLog.run ⟨[], fun i => MemTable.new (levels i)⟩ calls = some shared ∧
      (∀ (σ : Type) (locals : Uninitialized) (callback : σ → UInt8 → Bytes → Bytes → σ) (state : σ),
        load_log locals callback ⟨shared.file, true⟩ state =
          (calls.map fun call => call.2.1.record).foldl (fun state record =>
            callback state record.1 record.2.1 record.2.2) state) ∧
      ∀ (max_level max_level' : ℕ+) (single : List (Call × List Bool)) (locals : Uninitialized)
        (draws : Nat → List Bool), single.map Prod.fst = calls.map (fun call => call.2.1) →
        ∃ whole file recovered, (MemTable.new max_level).run [] single = some (whole, file) ∧
          recover locals draws max_level' shared.file = some recovered ∧
          (∀ key, ∃ found, whole.get key = some found ∧ recovered.get key = some found) ∧
          recovered.count = whole.count ∧
          ∃ rows, whole.snapshot = some rows ∧ recovered.snapshot = some rows := by
  obtain ⟨shared, hrun, hfile⟩ := @SharedLog.run_file n ⟨[], fun i => MemTable.new (levels i)⟩ calls
    fun i => ⟨∅, MemTable.new_represents (levels i)⟩
  have hall : ∀ call ∈ calls.map fun call => call.2.1, call.Fits := by
    intro call hcall
    obtain ⟨first, hfirst, rfl⟩ := List.mem_map.mp hcall
    exact hfits first hfirst
  rw [List.nil_append] at hfile
  refine ⟨shared, hrun, ?_, ?_⟩
  · intro σ locals callback state
    rw [hfile, load_log_logOf locals callback state hall, List.foldl_map, List.foldl_map]
  · intro max_level max_level' single locals draws hsame
    obtain ⟨whole, hwhole, hentries⟩ := MemTable.run_represents (MemTable.new_represents max_level) [] single
    obtain ⟨recovered, _, hfold, hreplayed⟩ := foldl_replay draws (MemTable.new_represents max_level')
      (calls.map fun call => call.2.1) 0
    rw [hsame] at hentries
    refine ⟨whole, _, recovered, hwhole, ?_, ?_, ?_, ?_⟩
    · rw [recover, hfile, load_log_logOf locals (replay draws) _ hall, hfold]
    · exact fun key => ⟨_, hentries.search_element_eq key, hreplayed.search_element_eq key⟩
    · exact hreplayed.size_eq.trans hentries.size_eq.symm
    · exact ⟨_, hentries.iterate_eq, hreplayed.iterate_eq⟩

/-- A value and a deletion of the same key, through two handlers. -/
theorem replay_reproduces_two_handlers :
    ∃ shared, SharedLog.run ⟨[], fun _ : Fin 2 => MemTable.new 16⟩
        [(0, .put [1] ⟨1, [7]⟩, [true]), (1, .remove [1], [])] = some shared ∧
      load_log ⟨0, 0, 0⟩ (fun calls type key value => calls ++ [(type, key, value)]) ⟨shared.file, true⟩ [] =
        [(1, [1], [7]), (2, [1], [])] := by
  obtain ⟨shared, hrun, hload, -⟩ := MemTable.replay_reproduces (fun _ : Fin 2 => 16)
    [(0, .put [1] ⟨1, [7]⟩, [true]), (1, .remove [1], [])] (by
      intro call hcall
      simp only [List.mem_cons, List.not_mem_nil, or_false] at hcall
      rcases hcall with rfl | rfl <;> simp [Call.Fits, Call.record])
  exact ⟨shared, hrun, hload _ _ _ _⟩

/-- A memtable with the contents of one of the store. -/
def MemTable.Refines (self : MemTable) (mem : NovaKV.MemTable) : Prop :=
  self.table.Represents (mem.table.map fun _ record => record.stored)

/-- `Put` does to the table what it does in the store. -/
theorem MemTable.Refines.put {mem : NovaKV.MemTable} (h : self.Refines mem) (file : Bytes) (key : Key)
    (record : ValueRecord) (draws : List Bool) :
    ∃ next, self.put file key record.stored draws =
        some (next, file ++ add_log key record.value record.type.to_u8) ∧
      next.Refines (mem.apply_without_wal key record) := by
  obtain ⟨table, hinsert, htable⟩ := h.insert_element key record.stored draws
  refine ⟨⟨table⟩, ?_, ?_⟩
  · rw [MemTable.put, hinsert]
    rfl
  have hmap : (mem.table.insert key record).map (fun _ record => record.stored) =
      (mem.table.map fun _ record => record.stored).insert key record.stored := by
    refine ExtTreeMap.ext_getElem? fun other => ?_
    simp only [ExtTreeMap.getElem?_map, ExtTreeMap.getElem?_insert]
    split <;> simp
  rw [MemTable.Refines, NovaKV.MemTable.apply_without_wal, hmap]
  exact htable

/-- `Get` and `Count` answer as they do in the store, the latter with an `int`. -/
theorem MemTable.Refines.get_eq {mem : NovaKV.MemTable} (h : self.Refines mem) (key : Key) :
    self.get key = some ((mem.get key).map ValueRecord.stored) ∧ self.count = Int32.ofNat mem.count := by
  refine ⟨?_, ?_⟩
  · rw [MemTable.get, h.search_element_eq, ExtTreeMap.getElem?_map]
    rfl
  · rw [MemTable.count, h.size_eq, ExtTreeMap.size_map]
    rfl

end

end NovaKV.Memory
