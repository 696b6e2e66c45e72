import NovaKV.Store.Remnant

open Std
open NovaKV.Lib

namespace NovaKV

/-- Every value found is of a key that these writes have a record of. -/
def Covers (writes : List WalRecord) (find : Key → Option ValueRecord) : Prop :=
  ∀ key, latest writes key = none → visible (find key) = none

/-- A directory whose logs have every record of which something shows: the tables
show nothing besides, whichever of them are loaded. -/
structure Remnant.Replays (remnant : Remnant) : Prop where
  snapshot : remnant.snapshot = true
  wals_le : ∀ id ∈ remnant.wals, id ≤ remnant.next
  exact : ∀ key, visible (latest remnant.records key) = visible (latest remnant.written key)
  covered : ∀ (id : Nat) (table : SSTable), remnant.ssts[id]? = some table →
    Covers remnant.records table.get_record

/-- A session on such a directory that has flushed nothing: its memtables hold the
records of all logs, and its tables show nothing besides. -/
structure DBImpl.Replaying (db : DBImpl) (remnant : Remnant) : Prop where
  replays : remnant.Replays
  next : remnant.next = db.levels.manifest.state.next_file_number
  logged : ∃ old immLog memLog, NovaKV.Logged db.mem db.imm db.active_wal_id db.imm_wal_id remnant.wals old false
    immLog memLog
  mem : db.mem.isSome
  levels : ∀ reader ∈ db.levels.l0 ++ db.levels.l1, Covers remnant.records reader.table.get_record
  flush : ∀ ctx, db.flusher = .prepared ctx → db.imm = some ctx.flushing_imm
  outputs : ∀ call ∈ db.calls, Covers remnant.records fun key => call.ctx.output_records[key]?
  built : ∀ call ∈ db.calls, ∀ reader, call.reader = some (some reader) →
    Covers remnant.records reader.table.get_record

section

variable {writes : List WalRecord} {l0 l1 : List SSTableReader}

theorem Covers.mono {find : Key → Option ValueRecord} (h : Covers writes find) (more : List WalRecord) :
    Covers (writes ++ more) find := by
  intro key hnone
  rw [latest_append, Option.or_eq_none_iff] at hnone
  exact h key hnone.2

theorem Covers.of_map {entries : ExtTreeMap Key ValueRecord} (h : Covers writes fun key => entries[key]?) :
    Covers writes (SSTable.of_map entries).get_record := by
  intro key hnone
  have hentry : visible entries[key]? = none := h key hnone
  rw [SSTable.get_record, SSTable.lookup_of_map]
  cases hrecord : entries[key]? with
  | none => rfl
  | some record =>
    rw [hrecord] at hentry
    rwa [Option.map_some, visible_cleared]

theorem Covers.search_level {level : List SSTableReader}
    (h : ∀ reader ∈ level, Covers writes reader.table.get_record) : Covers writes (search_level level) := by
  intro key hnone
  cases hfound : NovaKV.search_level level key with
  | none => rfl
  | some record =>
    obtain ⟨reader, hreader, hrecord⟩ := List.exists_of_findSome?_eq_some hfound
    rw [← hrecord]
    exact h reader (List.mem_reverse.mp hreader) key hnone

theorem Covers.search_levels (h : ∀ reader ∈ l0 ++ l1, Covers writes reader.table.get_record) :
    Covers writes (search_levels l0 l1) := by
  intro key hnone
  have h0 := Covers.search_level (fun reader hreader => h reader (List.mem_append_left _ hreader)) key hnone
  have h1 := Covers.search_level (fun reader hreader => h reader (List.mem_append_right _ hreader)) key hnone
  rw [NovaKV.search_levels]
  cases hfound : NovaKV.search_level l0 key with
  | none => exact h1
  | some record =>
    rw [hfound] at h0
    exact h0

/-- What a compaction writes shows nothing that its inputs do not show. -/
theorem Covers.output_records (h : ∀ reader ∈ l0 ++ l1, Covers writes reader.table.get_record) :
    Covers writes fun key => (output_records l1 (merge_records l0))[key]? := by
  intro key hnone
  have hview := visible_output_records l0 l1 key
  rw [Covers.search_levels h key hnone] at hview
  dsimp only
  cases hrecord : (NovaKV.output_records l1 (merge_records l0))[key]? with
  | none => rfl
  | some record =>
    rw [hrecord, Option.some_or] at hview
    exact hview

end

section

variable {db db' : DBImpl} {remnant : Remnant}

theorem Remnant.Replays.set_next (h : remnant.Replays) {next : Nat} (hnext : remnant.next ≤ next) :
    { remnant with next := next }.Replays where
  snapshot := h.snapshot
  wals_le id hid := (h.wals_le id hid).trans hnext
  exact := h.exact
  covered := h.covered

theorem Remnant.Replays.insert_sst (h : remnant.Replays) {id : Nat} {table : SSTable}
    (htable : Covers remnant.records table.get_record) :
    { remnant with ssts := remnant.ssts.insert id table }.Replays where
  snapshot := h.snapshot
  wals_le := h.wals_le
  exact := h.exact
  covered other found hfound := by
    rw [ExtTreeMap.getElem?_insert] at hfound
    split at hfound
    · cases hfound
      exact htable
    · exact h.covered other found hfound

theorem Remnant.Replays.erase_sst (h : remnant.Replays) (id : Nat) :
    { remnant with ssts := remnant.ssts.erase id }.Replays where
  snapshot := h.snapshot
  wals_le := h.wals_le
  exact := h.exact
  covered other found hfound := by
    rw [ExtTreeMap.getElem?_erase] at hfound
    split at hfound
    · cases hfound
    · exact h.covered other found hfound

/-- A new empty log above all others adds no record. -/
theorem Remnant.records_create_wal {id : Nat} (hlast : ∀ other ∈ remnant.wals, other < id) :
    Remnant.records { remnant with wals := remnant.wals.insertIfNew id [] } = remnant.records := by
  have htoList : (remnant.wals.insertIfNew id []).toList = remnant.wals.toList ++ [(id, [])] :=
    toList_insertIfNew_of_lt fun other hother => Nat.compare_eq_lt.mpr (hlast other hother)
  rw [Remnant.records, htoList, records_append, records_singleton, List.append_nil]
  rfl

theorem Remnant.Replays.create_wal (h : remnant.Replays) {id : Nat} (hid : id ≤ remnant.next)
    (hlast : ∀ other ∈ remnant.wals, other < id) :
    { remnant with wals := remnant.wals.insertIfNew id [] }.Replays where
  snapshot := h.snapshot
  wals_le other hother := by
    rw [ExtTreeMap.mem_insertIfNew] at hother
    rcases hother with heq | hmem
    · rwa [← LawfulEqCmp.eq_of_compare heq]
    · exact h.wals_le other hmem
  exact := by
    rw [Remnant.records_create_wal hlast]
    exact h.exact
  covered := by
    rw [Remnant.records_create_wal hlast]
    exact h.covered

/-- A record appended to the last log shows like a `Put`. -/
theorem Remnant.Replays.append_wal (h : remnant.Replays) {front : List (Nat × List WalRecord)} {id : Nat}
    {log : List WalRecord} (hentries : remnant.wals.toList = front ++ [(id, log)]) (record : WalRecord) :
    { remnant with
      wals := remnant.wals.insert id (remnant.wals[id]?.getD [] ++ [record])
      written := remnant.written ++ [record] }.Replays ∧
    Remnant.records { remnant with
      wals := remnant.wals.insert id (remnant.wals[id]?.getD [] ++ [record])
      written := remnant.written ++ [record] } = remnant.records ++ [record] := by
  have hrecords : Remnant.records { remnant with
      wals := remnant.wals.insert id (remnant.wals[id]?.getD [] ++ [record])
      written := remnant.written ++ [record] } = remnant.records ++ [record] := by
    rw [Remnant.records, Remnant.records, getElem?_of_toList hentries, toList_insert_of_mem hentries, hentries]
    simp [records_append]
  refine ⟨⟨h.snapshot, ?_, ?_, ?_⟩, hrecords⟩
  · intro other hother
    rw [ExtTreeMap.mem_insert] at hother
    rcases hother with heq | hmem
    · rw [← LawfulEqCmp.eq_of_compare heq]
      exact h.wals_le id (by simp [ExtTreeMap.mem_iff_isSome_getElem?, getElem?_of_toList hentries])
    · exact h.wals_le other hmem
  · intro key
    rw [hrecords, latest_append, latest_append]
    cases latest [record] key with
    | some found => rfl
    | none => simpa using h.exact key
  · intro other table htable
    rw [hrecords]
    exact (h.covered other table htable).mono [record]

/-- `Get` shows the newest of all records written. -/
theorem DBImpl.Replaying.get_eq (h : db.Replaying remnant) (key : Key) :
    db.get key = visible (latest remnant.written key) := by
  obtain ⟨old, immLog, memLog, hlogged⟩ := h.logged
  have hrecords : latest remnant.records key = (db.mem.bind (·.get key)).or (db.imm.bind (·.get key)) :=
    hlogged.latest_records (.inr rfl) h.mem key
  rw [← h.replays.exact key, DBImpl.get_eq, ← hrecords]
  cases hlatest : latest remnant.records key with
  | some record => rfl
  | none => exact Covers.search_levels h.levels key hlatest

/-- The memtables hold no more than the logs. -/
theorem DBImpl.Replaying.imm_covered (h : db.Replaying remnant) {imm : MemTable} (himm : db.imm = some imm) :
    Covers remnant.records fun key => imm.table[key]? := by
  obtain ⟨old, immLog, memLog, hlogged⟩ := h.logged
  intro key hnone
  have hrecords : latest remnant.records key = (db.mem.bind (·.get key)).or (db.imm.bind (·.get key)) :=
    hlogged.latest_records (.inr rfl) h.mem key
  rw [hnone, himm] at hrecords
  have hentry : imm.table[key]? = none := (Option.or_eq_none_iff.mp hrecords.symm).2
  simp [hentry]

end

end NovaKV
