import NovaKV.Lib.LowerBound
import NovaKV.Store.LastWriteWins

open Std
open NovaKV.Lib

namespace NovaKV

/-- A cursor over rows collected in advance. -/
structure DBIterator where
  rows : List (Key × Bytes)
  pos : Nat

namespace DBIterator

def valid (self : DBIterator) : Bool := self.pos < self.rows.length

/-- The key and the value at a valid cursor. -/
def row (self : DBIterator) : Option (Key × Bytes) := self.rows[self.pos]?

def seek (self : DBIterator) (start_key : Key) : DBIterator :=
  { self with pos := lowerBound self.rows fun row => compare row.1 start_key = .lt }

def next (self : DBIterator) : DBIterator :=
  if self.valid then { self with pos := self.pos + 1 } else self

/-- The rows that `Next` visits until the cursor is invalid, at most `fuel` of them. -/
def visit_loop : Nat → DBIterator → List (Key × Bytes)
  | 0, _ => []
  | fuel + 1, self => if self.valid then self.row.toList ++ visit_loop fuel self.next else []

/-- Every step moves the cursor on, so that the rows bound the steps. -/
def visit (self : DBIterator) : List (Key × Bytes) := visit_loop (self.rows.length + 1) self

end DBIterator

def MemTable.snapshot (self : MemTable) : List (Key × ValueRecord) := self.table.toList

/-- Keep the records of keys that have not been seen yet. -/
def see (seen : ExtTreeMap Key ValueRecord) (records : List (Key × ValueRecord)) : ExtTreeMap Key ValueRecord :=
  records.foldl (fun seen entry => seen.insertIfNew entry.1 entry.2) seen

/-- `NewIterator`: the newest record of every key that is no deletion. -/
def DBImpl.new_iterator (self : DBImpl) : DBIterator :=
  let seen := see ∅ (self.mem.toList.flatMap MemTable.snapshot)
  let seen := see seen (self.imm.toList.flatMap MemTable.snapshot)
  let seen := self.levels.l0.reverse.foldl (fun seen reader => see seen reader.table.records) seen
  let seen := self.levels.l1.reverse.foldl (fun seen reader => see seen reader.table.records) seen
  { rows := seen.toList.filterMap fun entry =>
      if entry.2.type = .kValue then some (entry.1, entry.2.value) else none
    pos := 0 }

section

variable {self : DBImpl} {rows : List (Key × Bytes)}

theorem getElem?_see (seen : ExtTreeMap Key ValueRecord) (records : List (Key × ValueRecord)) (key : Key) :
    (see seen records)[key]? = seen[key]?.or (records.lookup key) :=
  getElem?_foldl_insertIfNew records seen key

theorem getElem?_foldl_see (readers : List SSTableReader) (seen : ExtTreeMap Key ValueRecord) (key : Key) :
    (readers.foldl (fun seen reader => see seen reader.table.records) seen)[key]? =
      seen[key]?.or (readers.findSome? fun reader => reader.table.lookup key) := by
  induction readers generalizing seen with
  | nil => simp
  | cons reader readers ih =>
    rw [List.foldl_cons, ih, getElem?_see, Option.or_assoc, List.findSome?_cons]
    congr 1
    rw [SSTable.lookup]
    cases reader.table.records.lookup key <;> rfl

theorem lookup_snapshot (memtable : Option MemTable) (key : Key) :
    (memtable.toList.flatMap MemTable.snapshot).lookup key = memtable.bind (·.get key) := by
  cases memtable with
  | none => rfl
  | some memtable => simp [MemTable.snapshot, MemTable.get, toList_lookup]

/-- Every step of the cursor visits one more row. -/
theorem DBIterator.visit_loop_eq {fuel : Nat} {iter : DBIterator} (hfuel : iter.rows.length < iter.pos + fuel) :
    visit_loop fuel iter = iter.rows.drop iter.pos := by
  induction fuel generalizing iter with
  | zero => rw [visit_loop, List.drop_eq_nil_of_le (by omega)]
  | succ fuel ih =>
    rw [visit_loop]
    split
    · rename_i hvalid
      have hlt : iter.pos < iter.rows.length := by simpa [valid] using hvalid
      rw [next, if_pos hvalid, ih (by dsimp only; omega), row, List.getElem?_eq_getElem hlt,
        List.drop_eq_getElem_cons hlt]
      rfl
    · rename_i hvalid
      have hle : ¬ iter.pos < iter.rows.length := by simpa [valid] using hvalid
      rw [List.drop_eq_nil_of_le (by omega)]

theorem partitioned_of_sorted (hsorted : rows.Pairwise fun a b => compare a.1 b.1 = .lt) (start_key : Key) :
    Partitioned rows fun row => compare row.1 start_key = .lt := by
  refine hsorted.imp ?_
  intro a b hlt hbelow
  simp only [decide_eq_true_eq] at hbelow ⊢
  exact TransCmp.lt_trans hlt hbelow

/-- The newest record of a key, over all memtables and levels. -/
def DBImpl.newest (self : DBImpl) (key : Key) : Option ValueRecord :=
  ((self.mem.bind (·.get key)).or (self.imm.bind (·.get key))).or
    ((merge_records self.levels.l0)[key]?.or (merge_records self.levels.l1)[key]?)

theorem DBImpl.get_eq_newest (self : DBImpl) (key : Key) : self.get key = visible (self.newest key) := by
  have hlevels : ∀ newer : Option ValueRecord, visible (newer.or (self.levels.search key)) =
      visible (newer.or ((merge_records self.levels.l0)[key]?.or (merge_records self.levels.l1)[key]?)) := by
    intro newer
    apply visible_or_congr
    intro _
    rw [Levels.search, search_levels, search_level_eq_merge_records, search_level_eq_merge_records,
      ← Option.map_or, visible_map_cleared]
  rw [DBImpl.get_eq, hlevels, DBImpl.newest]

/-- The rows of an iterator: strictly increasing keys, and exactly what `Get` shows. -/
theorem DBImpl.new_iterator_rows (self : DBImpl) :
    (self.new_iterator.rows.Pairwise fun a b => compare a.1 b.1 = .lt) ∧
      ∀ key value, (key, value) ∈ self.new_iterator.rows ↔ self.get key = some value := by
  obtain ⟨seen, hseen, hrows⟩ : ∃ seen : ExtTreeMap Key ValueRecord, (∀ key, seen[key]? = self.newest key) ∧
      self.new_iterator.rows = seen.toList.filterMap fun entry =>
        if entry.2.type = .kValue then some (entry.1, entry.2.value) else none := by
    refine ⟨_, ?_, rfl⟩
    intro key
    rw [getElem?_foldl_see, getElem?_foldl_see, getElem?_see, getElem?_see, lookup_snapshot, lookup_snapshot,
      ← getElem?_merge_records, ← getElem?_merge_records, DBImpl.newest]
    simp [Option.or_assoc]
  rw [hrows]
  refine ⟨?_, ?_⟩
  · rw [List.pairwise_filterMap]
    refine (ExtTreeMap.ordered_keys_toList (t := seen)).imp ?_
    intro a b hlt a' ha' b' hb'
    split_ifs at ha' hb'
    cases ha'
    cases hb'
    exact hlt
  · intro key value
    rw [DBImpl.get_eq_newest, visible_eq_some_iff, ← hseen, List.mem_filterMap]
    constructor
    · rintro ⟨⟨key', type, value'⟩, hmem, hrow⟩
      dsimp only at hrow
      split_ifs at hrow with htype
      cases hrow
      subst htype
      exact ExtTreeMap.mem_toList_iff_getElem?_eq_some.mp hmem
    · intro hget
      exact ⟨(key, ⟨.kValue, value⟩), ExtTreeMap.mem_toList_iff_getElem?_eq_some.mpr hget, rfl⟩

/-- In every state of a database, the rows of an iterator have strictly increasing
keys and are exactly what `Get` shows, and a scan from a key visits the rows from
that key on, in order and each once. -/
theorem DBImpl.scan_agrees_with_get (self : DBImpl) :
    (self.new_iterator.rows.Pairwise fun a b => compare a.1 b.1 = .lt) ∧
    (∀ key value, (key, value) ∈ self.new_iterator.rows ↔ self.get key = some value) ∧
    ∀ start_key, (self.new_iterator.seek start_key).visit =
      self.new_iterator.rows.filter fun row => compare row.1 start_key ≠ .lt := by
  obtain ⟨hsorted, hmem⟩ := self.new_iterator_rows
  refine ⟨hsorted, hmem, ?_⟩
  intro start_key
  have hvisit : (self.new_iterator.seek start_key).visit =
      self.new_iterator.rows.drop (lowerBound self.new_iterator.rows fun row => compare row.1 start_key = .lt) :=
    DBIterator.visit_loop_eq (by
      change self.new_iterator.rows.length < _ + (self.new_iterator.rows.length + 1)
      omega)
  rw [hvisit, drop_lowerBound (partitioned_of_sorted hsorted start_key)]
  congr 1
  funext row
  simp

end

end NovaKV
