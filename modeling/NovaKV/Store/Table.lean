import NovaKV.Lib.Lookup
import NovaKV.ValueRecord

open Std
open NovaKV.Lib

namespace NovaKV

/-- The records of a sorted table file, in key order. -/
structure SSTable where
  records : List (Key × ValueRecord)
  sorted : records.Pairwise fun a b => compare a.1 b.1 = .lt

/-- An open table: the number in its path and the mapped records. A file without
records has an empty index and is not opened. -/
@[ext]
structure SSTableReader where
  file_number : Nat
  table : SSTable
  nonempty : table.records ≠ []

/-- The table built from the entries of an ordered map. -/
def SSTable.of_map (entries : ExtTreeMap Key ValueRecord) : SSTable :=
  ⟨entries.toList, ExtTreeMap.ordered_keys_toList⟩

def SSTable.lookup (self : SSTable) (key : Key) : Option ValueRecord := self.records.lookup key

/-- `GetRecord`. -/
def SSTable.get_record (self : SSTable) (key : Key) : Option ValueRecord :=
  (self.lookup key).map ValueRecord.cleared

def SSTableReader.open (file_number : Nat) (table : SSTable) : Option SSTableReader :=
  if h : table.records ≠ [] then some ⟨file_number, table, h⟩ else none

@[simp] theorem SSTable.lookup_of_map (entries : ExtTreeMap Key ValueRecord) (key : Key) :
    (SSTable.of_map entries).lookup key = entries[key]? :=
  toList_lookup entries key

theorem SSTableReader.open_of_nonempty {file_number : Nat} {table : SSTable}
    (h : table.records ≠ []) : SSTableReader.open file_number table = some ⟨file_number, table, h⟩ := by
  simp [SSTableReader.open, h]

theorem SSTableReader.open_eq_some {file_number : Nat} {table : SSTable} {reader : SSTableReader}
    (h : SSTableReader.open file_number table = some reader) :
    reader.file_number = file_number ∧ reader.table = table := by
  unfold SSTableReader.open at h
  split at h
  · cases h
    exact ⟨rfl, rfl⟩
  · cases h

theorem SSTableReader.open_self (reader : SSTableReader) :
    SSTableReader.open reader.file_number reader.table = some reader :=
  SSTableReader.open_of_nonempty reader.nonempty

/-- The newest table of a level that holds the key answers a lookup. Tables are
listed oldest first. -/
def search_level (level : List SSTableReader) (key : Key) : Option ValueRecord :=
  level.reverse.findSome? fun reader => reader.table.get_record key

@[simp] theorem search_level_nil (key : Key) : search_level [] key = none := rfl

theorem search_level_append (older newer : List SSTableReader) (key : Key) :
    search_level (older ++ newer) key = (search_level newer key).or (search_level older key) := by
  simp [search_level, List.findSome?_append]

theorem search_level_concat (level : List SSTableReader) (reader : SSTableReader) (key : Key) :
    search_level (level ++ [reader]) key =
      (reader.table.get_record key).or (search_level level key) := by
  rw [search_level_append]
  simp [search_level]

/-- Level 0 is searched before level 1. -/
def search_levels (l0 l1 : List SSTableReader) (key : Key) : Option ValueRecord :=
  (search_level l0 key).or (search_level l1 key)

/-- Keep the first record seen for each key, from the newest table to the oldest. -/
def merge_records (level : List SSTableReader) : ExtTreeMap Key ValueRecord :=
  level.reverse.foldl (fun merged reader =>
    reader.table.records.foldl (fun merged entry => merged.insertIfNew entry.1 entry.2) merged) ∅

theorem getElem?_foldl_insertIfNew (entries : List (Key × ValueRecord))
    (merged : ExtTreeMap Key ValueRecord) (key : Key) :
    (entries.foldl (fun m entry => m.insertIfNew entry.1 entry.2) merged)[key]? =
      merged[key]?.or (entries.lookup key) := by
  induction entries generalizing merged with
  | nil => simp
  | cons entry entries ih =>
    obtain ⟨k, v⟩ := entry
    rw [List.foldl_cons, ih, ExtTreeMap.getElem?_insertIfNew]
    by_cases hkey : k = key
    · subst hkey
      by_cases hmem : k ∈ merged <;> simp [hmem]
    · simp [hkey, lookup_cons_of_ne (Ne.symm hkey)]

/-- Merging keeps, for every key, the record of the newest table that holds it. -/
theorem getElem?_merge_records (level : List SSTableReader) (key : Key) :
    (merge_records level)[key]? = level.reverse.findSome? fun reader => reader.table.lookup key := by
  have hfold : ∀ (readers : List SSTableReader) (merged : ExtTreeMap Key ValueRecord),
      (readers.foldl (fun merged reader => reader.table.records.foldl
        (fun merged entry => merged.insertIfNew entry.1 entry.2) merged) merged)[key]? =
      merged[key]?.or (readers.findSome? fun reader => reader.table.lookup key) := by
    intro readers
    induction readers with
    | nil => simp
    | cons reader readers ih =>
      intro merged
      rw [List.foldl_cons, ih, getElem?_foldl_insertIfNew, Option.or_assoc]
      congr 1
      rw [List.findSome?_cons]
      cases hlookup : reader.table.lookup key with
      | none => simp [show reader.table.records.lookup key = none from hlookup]
      | some record => simp [show reader.table.records.lookup key = some record from hlookup]
  simpa [merge_records] using hfold level.reverse ∅

/-- A level lookup reports the merged record with the value of a deletion cleared. -/
theorem search_level_eq_merge_records (level : List SSTableReader) (key : Key) :
    search_level level key = (merge_records level)[key]?.map ValueRecord.cleared := by
  rw [getElem?_merge_records, search_level]
  induction level.reverse with
  | nil => rfl
  | cons reader readers ih =>
    rw [List.findSome?_cons, List.findSome?_cons, SSTable.get_record]
    cases reader.table.lookup key with
    | none => simpa using ih
    | some record => rfl

theorem records_of_map_ne_nil {entries : ExtTreeMap Key ValueRecord} (h : entries.isEmpty = false) :
    (SSTable.of_map entries).records ≠ [] := by
  rw [← ExtTreeMap.isEmpty_toList] at h
  exact List.isEmpty_eq_false_iff.mp h

end NovaKV
