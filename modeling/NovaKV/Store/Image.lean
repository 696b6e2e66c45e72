import NovaKV.Memory.MemTable
import NovaKV.Store.Boot
import NovaKV.Store.Directory
import NovaKV.Store.Iterator

open Std
open NovaKV.Lib

namespace NovaKV

def Flusher.readers : Flusher → List SSTableReader
  | .built _ reader => reader.toList
  | _ => []

def CompactCall.readers (self : CompactCall) : List SSTableReader := self.reader.join.toList

/-- The tables that a database has open, also those that are built and not installed yet. -/
def DBImpl.readers (db : DBImpl) : List SSTableReader :=
  db.levels.l0 ++ db.levels.l1 ++ (db.flusher.readers ++ db.calls.flatMap CompactCall.readers)

/-- Every table file in the directory is as it was created. -/
def AsCreated (_ : ManifestState Nat) (data : Data) (past : List DiskEffect) : Prop :=
  ∀ (id : Nat) (table : SSTable), data.ssts[id]? = some table → .create_sst id table ∈ past

/-- Every table that is open was created with the records that its reader has. -/
def DBImpl.OpensCreated (db : DBImpl) (_ : Data) (past : List DiskEffect) : Prop :=
  ∀ reader ∈ db.readers, .create_sst reader.file_number reader.table ∈ past

/-- A table file that is mapped, and what `Open` has taken from it. -/
structure MappedTable where
  mem : Memory
  reader : Format.SSTableReader

def MappedTable.get_record (self : MappedTable) (key : Key) : Option (Option StoredRecord) :=
  ((self.reader.get_record key).run self.mem).1

def MappedTable.for_each (self : MappedTable) : Option (List (Key × StoredRecord)) :=
  (self.reader.for_each.run self.mem).1

/-- What the readers and writers of a running database have in memory, the tables of a
level from the oldest. -/
structure Image where
  mem : Option Memory.MemTable
  imm : Option Memory.MemTable
  l0 : List MappedTable
  l1 : List MappedTable

namespace Image

/-- `Get` of a memtable that may be absent. -/
def get_memtable (key : Key) : Option Memory.MemTable → Option (Option StoredRecord)
  | none => some none
  | some mem => mem.get key

/-- The loop of `Get` over a level, the newest table first. -/
def search_level (key : Key) : List MappedTable → Option (Option StoredRecord)
  | [] => some none
  | table :: older => do
    match ← table.get_record key with
    | some record => return some record
    | none => search_level key older

/-- A memtable answers with a value only if it is one. -/
def memtable_answer (record : StoredRecord) : Option Bytes :=
  if record.type = ValueType.kValue.to_u8 then some record.value else none

/-- A table answers with a value unless it is a deletion. -/
def table_answer (record : StoredRecord) : Option Bytes :=
  if record.type = ValueType.kDeletion.to_u8 then none else some record.value

/-- `DBImpl::Get` as it runs on skip lists and mapped bytes. -/
def get (self : Image) (key : Key) : Option (Option Bytes) := do
  match ← get_memtable key self.mem with
  | some record => return memtable_answer record
  | none =>
    match ← get_memtable key self.imm with
    | some record => return memtable_answer record
    | none =>
      match ← search_level key self.l0.reverse with
      | some record => return table_answer record
      | none => return (← search_level key self.l1.reverse).bind table_answer

/-- `Snapshot` of a memtable that may be absent. -/
def snapshot : Option Memory.MemTable → Option (List (Key × StoredRecord))
  | none => some []
  | some mem => mem.snapshot

/-- `try_emplace` of every entry. -/
def see (seen : ExtTreeMap Key StoredRecord) (entries : List (Key × StoredRecord)) : ExtTreeMap Key StoredRecord :=
  entries.foldl (fun seen entry => seen.insertIfNew entry.1 entry.2) seen

/-- The loop of `NewIterator` over a level, the newest table first. -/
def see_level (seen : ExtTreeMap Key StoredRecord) : List MappedTable → Option (ExtTreeMap Key StoredRecord)
  | [] => some seen
  | table :: older => do
    let entries ← table.for_each
    see_level (see seen entries) older

/-- `DBImpl::NewIterator` as it runs on skip lists and mapped bytes. -/
def new_iterator (self : Image) : Option DBIterator := do
  let seen := see ∅ (← snapshot self.mem)
  let seen := see seen (← snapshot self.imm)
  let seen ← see_level seen self.l0.reverse
  let seen ← see_level seen self.l1.reverse
  return {
    rows := seen.toList.filterMap fun entry =>
      if entry.2.type = ValueType.kValue.to_u8 then some (entry.1, entry.2.value) else none
    pos := 0 }

end Image

/-- The records of the store as they are kept in memory. -/
def storedRecords (records : ExtTreeMap Key ValueRecord) : ExtTreeMap Key StoredRecord :=
  records.map fun _ record => record.stored

/-- The file of a table is mapped and has been opened. -/
structure MappedTable.Shows (mapped : MappedTable) (reader : SSTableReader) : Prop where
  maps : Maps mapped.mem (Format.sstable_file reader.table.records)
  opened : ((Format.SSTableReader.open (UInt64.ofNat (Format.sstable_file reader.table.records).length)).run
    mapped.mem).1 = some (some mapped.reader)

/-- Skip lists with the entries of the memtables, and the files of the open tables. -/
structure Image.Shows (image : Image) (db : DBImpl) : Prop where
  mem : Option.Rel Memory.MemTable.Refines image.mem db.mem
  imm : Option.Rel Memory.MemTable.Refines image.imm db.imm
  l0 : List.Forall₂ MappedTable.Shows image.l0 db.levels.l0
  l1 : List.Forall₂ MappedTable.Shows image.l1 db.levels.l1

section

variable {db db' : DBImpl} {disk : Disk} {data : Data} {past : List DiskEffect} {state : ManifestState Nat}
  {ssts : ExtTreeMap Nat SSTable} {events : List Event} {reader : SSTableReader}

theorem AsCreated.event (h : AsCreated state data past) (event : Event) :
    AsCreated (event.state state) (event.data data) (past ++ event.note state) := by
  have hkept : ∀ (id : Nat) (table : SSTable), data.ssts[id]? = some table →
      .create_sst id table ∈ past ++ event.note state :=
    fun id table htable => List.mem_append_left _ (h id table htable)
  cases event with
  | create_sst number new =>
    intro id table htable
    rw [Event.data, ExtTreeMap.getElem?_insert] at htable
    split at htable
    · rename_i heq
      cases htable
      cases LawfulEqCmp.compare_eq_iff_eq.mp heq
      exact List.mem_append_right _ List.mem_cons_self
    · exact hkept id table htable
  | remove_sst number =>
    intro id table htable
    rw [Event.data, ExtTreeMap.getElem?_erase] at htable
    split at htable
    · cases htable
    · exact hkept id table htable
  | _ => exact hkept

theorem AsCreated.script (h : AsCreated state data past) (events : List Event) :
    Script AsCreated state data past events := by
  induction events generalizing state data past with
  | nil => trivial
  | cons event events ih => exact ⟨h.event event, ih (h.event event)⟩

theorem AsCreated.lasting : Lasting AsCreated where
  initial id table htable := by simp at htable
  down _ _ h := h

theorem mem_noteAll {id : Nat} {table : SSTable} (h : .create_sst id table ∈ events) (state : ManifestState Nat) :
    .create_sst id table ∈ noteAll state events := by
  induction events generalizing state with
  | nil => cases h
  | cons event events ih =>
    rcases List.mem_cons.mp h with rfl | hlater
    · exact List.mem_append_left _ List.mem_cons_self
    · exact List.mem_append_right _ (ih hlater _)

/-- A reader found in the directory stands for the file with its number. -/
theorem loaded_created (h : AsCreated state disk.data past) (hreader : reader ∈ disk.loaded.l0 ++ disk.loaded.l1) :
    .create_sst reader.file_number reader.table ∈ past := by
  have hopened : ∀ id, disk.ssts[id]?.bind (SSTableReader.open id) = some reader →
      .create_sst reader.file_number reader.table ∈ past := by
    intro id hid
    obtain ⟨table, htable, hopen⟩ := Option.bind_eq_some_iff.mp hid
    obtain ⟨rfl, rfl⟩ := SSTableReader.open_eq_some hopen
    exact h _ _ htable
  have hlevel : ∀ level, reader ∈ level_readers disk.ssts disk.recovered level →
      .create_sst reader.file_number reader.table ∈ past := by
    intro level hmem
    obtain ⟨entry, -, hentry⟩ := List.mem_filterMap.mp hmem
    dsimp only at hentry
    split at hentry
    · exact hopened _ hentry
    · cases hentry
  unfold Disk.loaded at hreader
  split at hreader
  · rw [List.append_nil] at hreader
    obtain ⟨id, -, hid⟩ := List.mem_filterMap.mp hreader
    exact hopened id hid
  · exact (List.mem_append.mp hreader).elim (hlevel 0) (hlevel 1)

theorem Flusher.Moves.readers {before after : Flusher} (h : before.Moves after) (hreader : reader ∈ after.readers) :
    reader ∈ before.readers := by
  rcases h with rfl | hnone
  · exact hreader
  · cases after with
    | built ctx built => cases hnone
    | _ => cases hreader

theorem DBImpl.mem_readers : reader ∈ db.readers ↔ (reader ∈ db.levels.l0 ∨ reader ∈ db.levels.l1) ∨
    reader ∈ db.flusher.readers ∨ ∃ call ∈ db.calls, reader ∈ call.readers := by
  simp only [DBImpl.readers, List.mem_append, List.mem_flatMap]

/-- Nothing is opened when the levels stay, and every table of the flush and of the
calls was there. -/
theorem DBImpl.mem_readers_of_kept (hl0 : db'.levels.l0 = db.levels.l0) (hl1 : db'.levels.l1 = db.levels.l1)
    (hflusher : db'.flusher.readers ⊆ db.flusher.readers)
    (hcalls : ∀ call ∈ db'.calls, call ∈ db.calls ∨ call.reader.join = none) (hreader : reader ∈ db'.readers) :
    reader ∈ db.readers := by
  rw [DBImpl.mem_readers, hl0, hl1] at hreader
  rw [DBImpl.mem_readers]
  refine hreader.imp_right (Or.imp (fun h => hflusher h) ?_)
  rintro ⟨call, hcall, hmem⟩
  rcases hcalls call hcall with hold | hnone
  · exact ⟨call, hold, hmem⟩
  · rw [CompactCall.readers, hnone] at hmem
    cases hmem

theorem DBImpl.mem_readers_of_same_calls (hl0 : db'.levels.l0 = db.levels.l0)
    (hl1 : db'.levels.l1 = db.levels.l1) (hflusher : db'.flusher.readers ⊆ db.flusher.readers)
    (hcalls : db'.calls = db.calls) (hreader : reader ∈ db'.readers) : reader ∈ db.readers :=
  DBImpl.mem_readers_of_kept hl0 hl1 hflusher (fun _ hcall => .inl (hcalls ▸ hcall)) hreader

/-- A call begins, without a table. -/
theorem DBImpl.mem_readers_of_begun {owner : Owner} {ctx : L0ToL1Ctx} (hl0 : db'.levels.l0 = db.levels.l0)
    (hl1 : db'.levels.l1 = db.levels.l1) (hflusher : db.flusher.Moves db'.flusher)
    (hcalls : db'.calls = db.calls ++ [⟨owner, ctx, none⟩]) (hreader : reader ∈ db'.readers) :
    reader ∈ db.readers := by
  refine DBImpl.mem_readers_of_kept hl0 hl1 (fun _ => hflusher.readers) ?_ hreader
  intro call hcall
  rw [hcalls] at hcall
  rcases List.mem_append.mp hcall with hold | hnew
  · exact .inl hold
  · cases List.mem_singleton.mp hnew
    exact .inr rfl

/-- A call without an output goes on without a table. -/
theorem DBImpl.mem_readers_of_skipped {index : Nat} {owner : Owner} {ctx : L0ToL1Ctx}
    (hlevels : db'.levels = db.levels) (hflusher : db'.flusher = db.flusher)
    (hcalls : db'.calls = db.calls.set index ⟨owner, ctx, some none⟩) (hreader : reader ∈ db'.readers) :
    reader ∈ db.readers := by
  refine DBImpl.mem_readers_of_kept (by rw [hlevels]) (by rw [hlevels]) (fun _ h => hflusher ▸ h) ?_ hreader
  intro call hcall
  rw [hcalls] at hcall
  rcases List.mem_or_eq_of_mem_set hcall with hold | rfl
  · exact .inl hold
  · exact .inr rfl

/-- The flush builds a table. -/
theorem DBImpl.mem_readers_of_built {ctx : MinorCtx} {new : SSTableReader} (hlevels : db'.levels = db.levels)
    (hflusher : db'.flusher = .built ctx (some new)) (hcalls : db'.calls = db.calls)
    (hreader : reader ∈ db'.readers) : reader ∈ db.readers ∨ reader = new := by
  rw [DBImpl.mem_readers, hlevels, hflusher, hcalls] at hreader
  rw [DBImpl.mem_readers]
  rcases hreader with hlevel | hbuilt | hcall
  · exact .inl (.inl hlevel)
  · exact .inr (List.mem_singleton.mp hbuilt)
  · exact .inl (.inr (.inr hcall))

/-- The table that the flush has built moves into level 0. -/
theorem DBImpl.mem_readers_of_flushed {ctx : MinorCtx} {new : SSTableReader}
    (hbuilt : db.flusher = .built ctx (some new)) (hl0 : db'.levels.l0 = db.levels.l0 ++ [new])
    (hl1 : db'.levels.l1 = db.levels.l1) (hflusher : db.flusher.Moves db'.flusher) (hcalls : db'.calls = db.calls)
    (hreader : reader ∈ db'.readers) : reader ∈ db.readers := by
  rw [DBImpl.mem_readers, hl0, hl1, hcalls] at hreader
  rw [DBImpl.mem_readers]
  rcases hreader with (hlevel | hlevel) | hflush | hcall
  · rcases List.mem_append.mp hlevel with hold | hnew
    · exact .inl (.inl hold)
    · refine .inr (.inl ?_)
      rw [hbuilt]
      exact hnew
  · exact .inl (.inr hlevel)
  · exact .inr (.inl (hflusher.readers hflush))
  · exact .inr (.inr hcall)

/-- A call builds a table. -/
theorem DBImpl.mem_readers_of_output {index : Nat} {owner : Owner} {ctx : L0ToL1Ctx} {new : SSTableReader}
    (hlevels : db'.levels = db.levels) (hflusher : db'.flusher = db.flusher)
    (hcalls : db'.calls = db.calls.set index ⟨owner, ctx, some (some new)⟩) (hreader : reader ∈ db'.readers) :
    reader ∈ db.readers ∨ reader = new := by
  rw [DBImpl.mem_readers, hlevels, hflusher, hcalls] at hreader
  rw [DBImpl.mem_readers]
  rcases hreader with hlevel | hbuilt | ⟨call, hcall, hmem⟩
  · exact .inl (.inl hlevel)
  · exact .inl (.inr (.inl hbuilt))
  · rcases List.mem_or_eq_of_mem_set hcall with hold | rfl
    · exact .inl (.inr (.inr ⟨call, hold, hmem⟩))
    · exact .inr (List.mem_singleton.mp hmem)

/-- The table that a call has built moves into level 1. -/
theorem DBImpl.mem_readers_of_installed {index : Nat} {owner : Owner} {ctx : L0ToL1Ctx} {new : SSTableReader}
    (hcall : db.calls[index]? = some ⟨owner, ctx, some (some new)⟩) (hl0 : db'.levels.l0 = [])
    (hl1 : db'.levels.l1 = db.levels.l1 ++ [new]) (hflusher : db.flusher.Moves db'.flusher)
    (hcalls : db'.calls = db.calls.eraseIdx index) (hreader : reader ∈ db'.readers) : reader ∈ db.readers := by
  rw [DBImpl.mem_readers, hl0, hl1, hcalls] at hreader
  rw [DBImpl.mem_readers]
  rcases hreader with (hlevel | hlevel) | hflush | ⟨call, hleft, hmem⟩
  · cases hlevel
  · rcases List.mem_append.mp hlevel with hold | hnew
    · exact .inl (.inr hold)
    · exact .inr (.inr ⟨_, List.mem_of_getElem? hcall, hnew⟩)
  · exact .inr (.inl (hflusher.readers hflush))
  · exact .inr (.inr ⟨call, List.mem_of_mem_eraseIdx hleft, hmem⟩)

/-- A call ends and level 1 does not grow. -/
theorem DBImpl.mem_readers_of_ended {index : Nat} (hl0 : db'.levels.l0 ⊆ db.levels.l0)
    (hl1 : db'.levels.l1 = db.levels.l1) (hflusher : db.flusher.Moves db'.flusher)
    (hcalls : db'.calls = db.calls.eraseIdx index) (hreader : reader ∈ db'.readers) : reader ∈ db.readers := by
  rw [DBImpl.mem_readers, hl1, hcalls] at hreader
  rw [DBImpl.mem_readers]
  refine hreader.imp (Or.imp_left fun h => hl0 h) (Or.imp hflusher.readers ?_)
  rintro ⟨call, hcall, hmem⟩
  exact ⟨call, List.mem_of_mem_eraseIdx hcall, hmem⟩

theorem SSTableReader.open_created {id : Nat} {table : SSTable} {opened : SSTableReader}
    (h : SSTableReader.open id table = some opened) (before : List Event) :
    .create_sst opened.file_number opened.table ∈ before ++ [.create_sst id table] := by
  obtain ⟨hnumber, htable⟩ := SSTableReader.open_eq_some h
  rw [hnumber, htable]
  exact List.mem_append_right _ List.mem_cons_self

/-- After a move the tables that are open were open before, or have been created in it. -/
theorem Move.readers (h : Move db ssts events db') (hreader : reader ∈ db'.readers) :
    reader ∈ db.readers ∨ .create_sst reader.file_number reader.table ∈ events := by
  cases h with
  | quiet levels flusher calls =>
    refine .inl (DBImpl.mem_readers_of_same_calls ?_ ?_ (fun _ => flusher.readers) calls hreader) <;> rw [levels]
  | rotate _ levels flusher calls =>
    refine .inl (DBImpl.mem_readers_of_same_calls ?_ ?_ (fun _ h => flusher ▸ h) calls hreader) <;> rw [levels]
  | put_write levels flusher calls =>
    refine .inl (DBImpl.mem_readers_of_same_calls ?_ ?_ (fun _ h => flusher ▸ h) calls hreader) <;> rw [levels]
  | minor_prepare _ levels flusher calls =>
    have hnone : db'.flusher.readers ⊆ db.flusher.readers := flusher ▸ List.nil_subset _
    refine .inl (DBImpl.mem_readers_of_same_calls ?_ ?_ hnone calls hreader) <;> rw [levels]
  | minor_build prepared opened levels flusher calls =>
    rcases DBImpl.mem_readers_of_built levels flusher calls hreader with hold | rfl
    · exact .inl hold
    · exact .inr (SSTableReader.open_created opened _)
  | minor_build_fail prepared levels flusher calls =>
    have hnone : db'.flusher.readers ⊆ db.flusher.readers := flusher ▸ List.nil_subset _
    refine .inl (DBImpl.mem_readers_of_same_calls ?_ ?_ hnone calls hreader) <;> rw [levels]
  | minor_install built levels flusher calls =>
    refine .inl (DBImpl.mem_readers_of_flushed built ?_ ?_ (.inr flusher) calls hreader) <;> rw [levels]
  | compact_prepare _ _ levels flusher calls =>
    refine .inl (DBImpl.mem_readers_of_begun ?_ ?_ flusher calls hreader) <;> rw [levels]
  | compact_skip call levels flusher calls =>
    exact .inl (DBImpl.mem_readers_of_skipped levels flusher calls hreader)
  | compact_build call number opened levels flusher calls =>
    rcases DBImpl.mem_readers_of_output levels flusher calls hreader with hold | rfl
    · exact .inl hold
    · exact .inr (SSTableReader.open_created opened _)
  | compact_fail _ _ levels flusher calls =>
    exact .inl (DBImpl.mem_readers_of_ended (fun _ h => levels ▸ h) (by rw [levels]) flusher calls hreader)
  | compact_abort _ levels flusher calls =>
    exact .inl (DBImpl.mem_readers_of_ended (fun _ h => levels ▸ h) (by rw [levels]) flusher calls hreader)
  | compact_install call unchanged levels flusher calls =>
    refine .inl (DBImpl.mem_readers_of_installed call ?_ ?_ flusher calls hreader) <;> rw [levels]
  | compact_consume _ _ levels flusher calls =>
    refine .inl (DBImpl.mem_readers_of_ended ?_ (by rw [levels]) flusher calls hreader)
    rw [levels]
    exact List.nil_subset _
  | compact_reject _ _ levels flusher calls =>
    exact .inl (DBImpl.mem_readers_of_ended (fun _ h => levels ▸ h) (by rw [levels]) flusher calls hreader)

theorem AsCreated.preserved (opening : Disk → List DiskEffect → Prop) :
    Preserved opening AsCreated DBImpl.OpensCreated where
  lasting := AsCreated.lasting
  scan _ h _ := h.recovered AsCreated.lasting
  boot {disk trace db ids events} _ hsettled h hopened _ hlevels := by
    refine ⟨h.script events, fun reader hreader => ?_⟩
    rw [DBImpl.readers, hopened.flusher, hopened.calls, hlevels] at hreader
    refine List.mem_append_left _ (loaded_created h ?_)
    simpa [Flusher.readers] using hreader
  move {db db' data past events} h hopens hmove _ := by
    refine ⟨h.script events, fun reader hreader => ?_⟩
    rcases hmove.readers hreader with hbefore | hcreated
    · exact List.mem_append_left _ (hopens reader hbefore)
    · exact List.mem_append_right _ (mem_noteAll hcreated _)

theorem Image.memtable_answer_stored (record : ValueRecord) :
    Image.memtable_answer record.stored = visible (some record) := by
  obtain ⟨type, value⟩ := record
  cases type <;> rfl

theorem Image.table_answer_stored (record : ValueRecord) :
    Image.table_answer record.stored = visible (some record) := by
  obtain ⟨type, value⟩ := record
  cases type <;> rfl

theorem Image.get_memtable_eq {image : Option Memory.MemTable} {mem : Option MemTable}
    (h : Option.Rel Memory.MemTable.Refines image mem) (key : Key) :
    Image.get_memtable key image = some ((mem.bind (·.get key)).map ValueRecord.stored) := by
  cases h with
  | some hrefines => exact (hrefines.get_eq key).1
  | none => rfl

/-- An open table that has been mapped answers as the store's one does. -/
theorem MappedTable.Shows.reads {mapped : MappedTable} (h : mapped.Shows reader) (hfits : reader.table.Fits) :
    mapped.for_each = some (reader.table.records.map Format.reported) ∧
      ∀ key, mapped.get_record key = some ((reader.table.get_record key).map ValueRecord.stored) := by
  have hread := hfits.readBack h.maps
  rw [SSTable.ReadBack, if_neg reader.nonempty] at hread
  obtain ⟨opened, hopen, hlists, hget⟩ := hread
  have hsame : opened = mapped.reader := by
    rw [h.opened] at hopen
    cases hopen
    rfl
  rw [hsame] at hlists hget
  exact ⟨hlists, hget⟩

/-- The tables of a level are asked in the same order. -/
theorem Image.search_level_eq {tables : List MappedTable} {level : List SSTableReader}
    (h : List.Forall₂ MappedTable.Shows tables level) (hfits : ∀ reader ∈ level, reader.table.Fits) (key : Key) :
    Image.search_level key tables =
      some ((level.findSome? fun reader => reader.table.get_record key).map ValueRecord.stored) := by
  induction h with
  | nil => rfl
  | cons hfirst hrest ih =>
    rename_i table first tables rest
    have hfound := (hfirst.reads (hfits first List.mem_cons_self)).2 key
    rw [Image.search_level, hfound, List.findSome?_cons]
    cases first.table.get_record key with
    | none => exact ih fun reader hreader => hfits reader (List.mem_cons_of_mem _ hreader)
    | some record => rfl

theorem Image.search_level_reverse_eq {tables : List MappedTable} {level : List SSTableReader}
    (h : List.Forall₂ MappedTable.Shows tables level) (hfits : ∀ reader ∈ level, reader.table.Fits) (key : Key) :
    Image.search_level key tables.reverse = some ((NovaKV.search_level level key).map ValueRecord.stored) :=
  Image.search_level_eq (List.forall₂_reverse_iff.mpr h)
    (fun reader hreader => hfits reader (List.mem_reverse.mp hreader)) key

/-- `Get` on skip lists and bytes finds what it finds in the store. -/
theorem Image.Shows.get_eq {image : Image} (h : image.Shows db) (hfits : ∀ reader ∈ db.readers, reader.table.Fits)
    (key : Key) : image.get key = some (db.get key) := by
  have h0 := Image.search_level_reverse_eq h.l0 (fun reader hreader =>
    hfits reader (DBImpl.mem_readers.mpr (.inl (.inl hreader)))) key
  have h1 := Image.search_level_reverse_eq h.l1 (fun reader hreader =>
    hfits reader (DBImpl.mem_readers.mpr (.inl (.inr hreader)))) key
  rw [Image.get, Image.get_memtable_eq h.mem, Image.get_memtable_eq h.imm, h0, h1, DBImpl.get]
  cases db.mem.bind (·.get key) with
  | some record => exact congrArg some (Image.memtable_answer_stored record)
  | none =>
    cases db.imm.bind (·.get key) with
    | some record => exact congrArg some (Image.memtable_answer_stored record)
    | none =>
      cases NovaKV.search_level db.levels.l0 key with
      | some record => exact congrArg some (Image.table_answer_stored record)
      | none =>
        cases NovaKV.search_level db.levels.l1 key with
        | some record => exact congrArg some (Image.table_answer_stored record)
        | none => rfl

theorem toList_storedRecords (records : ExtTreeMap Key ValueRecord) :
    (storedRecords records).toList = records.toList.map Format.reported := by
  rw [storedRecords, ExtTreeMap.toList_map]
  rfl

theorem Image.see_stored (seen : ExtTreeMap Key ValueRecord) (records : List (Key × ValueRecord)) :
    Image.see (storedRecords seen) (records.map Format.reported) = storedRecords (NovaKV.see seen records) := by
  induction records generalizing seen with
  | nil => rfl
  | cons entry records ih =>
    have hfirst : (storedRecords seen).insertIfNew entry.1 entry.2.stored =
        storedRecords (seen.insertIfNew entry.1 entry.2) := by
      refine ExtTreeMap.ext_getElem? fun key => ?_
      simp only [storedRecords, ExtTreeMap.getElem?_map, ExtTreeMap.getElem?_insertIfNew, ExtTreeMap.mem_map]
      split <;> rfl
    have hrest := ih (seen.insertIfNew entry.1 entry.2)
    rw [← hfirst] at hrest
    exact hrest

theorem Image.snapshot_eq {image : Option Memory.MemTable} {mem : Option MemTable}
    (h : Option.Rel Memory.MemTable.Refines image mem) :
    Image.snapshot image = some ((mem.toList.flatMap MemTable.snapshot).map Format.reported) := by
  cases h with
  | none => rfl
  | @some memtable mem hrefines =>
    have hlist : (mem.table.map fun _ record => record.stored).toList = mem.table.toList.map Format.reported :=
      toList_storedRecords mem.table
    rw [Image.snapshot, Memory.MemTable.snapshot, hrefines.iterate_eq, hlist]
    simp [MemTable.snapshot]

theorem Image.see_level_eq {tables : List MappedTable} {level : List SSTableReader}
    (h : List.Forall₂ MappedTable.Shows tables level) (hfits : ∀ reader ∈ level, reader.table.Fits)
    (seen : ExtTreeMap Key ValueRecord) :
    Image.see_level (storedRecords seen) tables =
      some (storedRecords (level.foldl (fun seen reader => NovaKV.see seen reader.table.records) seen)) := by
  induction h generalizing seen with
  | nil => rfl
  | cons hfirst hrest ih =>
    rename_i table first tables rest
    have hlists := (hfirst.reads (hfits first List.mem_cons_self)).1
    have hlater := ih (fun reader hreader => hfits reader (List.mem_cons_of_mem _ hreader))
      (NovaKV.see seen first.table.records)
    rw [← Image.see_stored] at hlater
    rw [Image.see_level, hlists]
    exact hlater

theorem Image.see_level_reverse_eq {tables : List MappedTable} {level : List SSTableReader}
    (h : List.Forall₂ MappedTable.Shows tables level) (hfits : ∀ reader ∈ level, reader.table.Fits)
    (seen : ExtTreeMap Key ValueRecord) :
    Image.see_level (storedRecords seen) tables.reverse =
      some (storedRecords (level.reverse.foldl (fun seen reader => NovaKV.see seen reader.table.records) seen)) :=
  Image.see_level_eq (List.forall₂_reverse_iff.mpr h)
    (fun reader hreader => hfits reader (List.mem_reverse.mp hreader)) seen

/-- The rows of an iterator on skip lists and bytes are those in the store. -/
theorem Image.Shows.new_iterator_eq {image : Image} (h : image.Shows db)
    (hfits : ∀ reader ∈ db.readers, reader.table.Fits) : image.new_iterator = some db.new_iterator := by
  have h0 := Image.see_level_reverse_eq h.l0 fun reader hreader =>
    hfits reader (DBImpl.mem_readers.mpr (.inl (.inl hreader)))
  have h1 := Image.see_level_reverse_eq h.l1 fun reader hreader =>
    hfits reader (DBImpl.mem_readers.mpr (.inl (.inr hreader)))
  have hempty : (∅ : ExtTreeMap Key StoredRecord) = storedRecords ∅ := by
    refine ExtTreeMap.ext_getElem? fun key => ?_
    simp [storedRecords]
  have hrow : ∀ entry : Key × ValueRecord,
      (if (Format.reported entry).2.type = ValueType.kValue.to_u8 then
        some ((Format.reported entry).1, (Format.reported entry).2.value) else none) =
      if entry.2.type = .kValue then some (entry.1, entry.2.value) else none := by
    rintro ⟨key, type, value⟩
    cases type <;> rfl
  simp only [Image.new_iterator, Image.snapshot_eq h.mem, Image.snapshot_eq h.imm, hempty, Image.see_stored, h0, h1,
    toList_storedRecords, List.filterMap_map, Option.bind_eq_bind, Option.bind_some, Function.comp_def, hrow,
    DBImpl.new_iterator]
  rfl

/-- Whatever a memtable holds, there is a skip list with it. -/
theorem exists_refines (mem : MemTable) : ∃ image : Memory.MemTable, image.Refines mem := by
  have hentries : ∀ rows : List (Key × StoredRecord), ∃ image : Memory.MemTable,
      image.table.Represents ((∅ : ExtTreeMap Key StoredRecord).insertMany rows) := by
    intro rows
    induction rows using List.reverseRecOn with
    | nil => exact ⟨Memory.MemTable.new 1, Memory.MemTable.new_represents 1⟩
    | append_singleton rows row ih =>
      obtain ⟨image, himage⟩ := ih
      obtain ⟨table, -, htable⟩ := himage.insert_element row.1 row.2 []
      refine ⟨⟨table⟩, ?_⟩
      rw [ExtTreeMap.insertMany_append]
      exact htable
  obtain ⟨image, himage⟩ := hentries (mem.table.map fun _ record => record.stored).toList.reverse
  refine ⟨image, ?_⟩
  rw [Memory.MemTable.Refines]
  convert himage using 1
  refine ExtTreeMap.ext_getElem? fun key => ?_
  rw [latest_eq_getElem?_insertMany, latest, List.reverse_reverse, toList_lookup]
  simp

theorem exists_option_refines (mem : Option MemTable) :
    ∃ image : Option Memory.MemTable, Option.Rel Memory.MemTable.Refines image mem := by
  cases mem with
  | none => exact ⟨none, .none⟩
  | some mem =>
    obtain ⟨image, himage⟩ := exists_refines mem
    exact ⟨some image, .some himage⟩

/-- A table file that fits can be mapped and opened. -/
theorem SSTable.Fits.exists_mapped (h : reader.table.Fits) : ∃ mapped : MappedTable, mapped.Shows reader := by
  have hmaps : Maps (Memory.ofFile (Format.sstable_file reader.table.records))
      (Format.sstable_file reader.table.records) := maps_ofFile (h.2.trans (by decide))
  have hread := h.readBack hmaps
  rw [SSTable.ReadBack, if_neg reader.nonempty] at hread
  obtain ⟨opened, hopen, -⟩ := hread
  exact ⟨⟨_, opened⟩, hmaps, hopen⟩

theorem exists_mapped_level {level : List SSTableReader} (hfits : ∀ reader ∈ level, reader.table.Fits) :
    ∃ tables : List MappedTable, List.Forall₂ MappedTable.Shows tables level := by
  induction level with
  | nil => exact ⟨[], .nil⟩
  | cons first level ih =>
    obtain ⟨mapped, hmapped⟩ := (hfits first List.mem_cons_self).exists_mapped
    obtain ⟨tables, htables⟩ := ih fun reader hreader => hfits reader (List.mem_cons_of_mem _ hreader)
    exact ⟨mapped :: tables, .cons hmapped htables⟩

theorem DBImpl.exists_image (hfits : ∀ reader ∈ db.readers, reader.table.Fits) : ∃ image : Image, image.Shows db := by
  obtain ⟨mem, hmem⟩ := exists_option_refines db.mem
  obtain ⟨imm, himm⟩ := exists_option_refines db.imm
  obtain ⟨l0, h0⟩ := exists_mapped_level fun reader hreader =>
    hfits reader (DBImpl.mem_readers.mpr (.inl (.inl hreader)))
  obtain ⟨l1, h1⟩ := exists_mapped_level fun reader hreader =>
    hfits reader (DBImpl.mem_readers.mpr (.inl (.inr hreader)))
  exact ⟨⟨mem, imm, l0, l1⟩, hmem, himm, h0, h1⟩

/-- Every table that is open has been written to the file with its number. -/
theorem History.opens_created {opening : Disk → List DiskEffect → Prop} (h : History opening (some db) disk past) :
    ∀ reader ∈ db.readers, .create_sst reader.file_number reader.table ∈ past := by
  intro reader hreader
  have hcreated := (((AsCreated.preserved opening).history h).2 db rfl).holds reader hreader
  exact List.mem_of_mem_filter hcreated

/-- While a database runs, `Get` and `NewIterator` find what they should on skip lists and
mapped bytes, if all that has been written fits its format: such an image of the memory
exists, every table in it has been written by the history, and in all of them every key
is found, or not, as in the store, and the rows of an iterator are the same. -/
theorem History.reads_on_bytes {opening : Disk → List DiskEffect → Prop} (h : History opening (some db) disk past)
    (hfits : ∀ effect ∈ past, effect.Fits) :
    (∀ reader ∈ db.readers, .create_sst reader.file_number reader.table ∈ past) ∧
      (∃ image : Image, image.Shows db) ∧
      ∀ image : Image, image.Shows db →
        (∀ key, image.get key = some (db.get key)) ∧ image.new_iterator = some db.new_iterator := by
  have hreaders : ∀ reader ∈ db.readers, reader.table.Fits :=
    fun reader hreader => hfits _ (h.opens_created reader hreader)
  exact ⟨h.opens_created, DBImpl.exists_image hreaders,
    fun image hshows => ⟨hshows.get_eq hreaders, hshows.new_iterator_eq hreaders⟩⟩

/-- The value is found in the one table. -/
theorem History.reads_on_bytes_oneFlush : ∃ last, (System.open .forward Disk.empty).bind (·.run oneFlush) = some last ∧
    last.db.levels.l0.length = 1 ∧ (∃ image : Image, image.Shows last.db) ∧
      ∀ image : Image, image.Shows last.db → image.get [107] = some (some [118]) ∧
        image.new_iterator.map DBIterator.rows = some [([107], [118])] := by
  have hflushed : ((System.open .forward Disk.empty).bind (·.run oneFlush)).map (fun last =>
      (last.db.levels.l0.length, last.db.get [107], last.db.new_iterator.rows)) =
        some (1, some [118], [([107], [118])]) := by decide +kernel
  have hall : ∀ effect ∈ firstEffects oneFlush, effect.Fits := by decide +kernel
  obtain ⟨last, hlast, heq⟩ := Option.map_eq_some_iff.mp hflushed
  obtain ⟨hlength, hfound⟩ := Prod.mk.inj heq
  obtain ⟨hget, hrows⟩ := Prod.mk.inj hfound
  obtain ⟨-, hexists, hevery⟩ := (History.of_first hlast).reads_on_bytes hall
  refine ⟨last, hlast, hlength, hexists, ?_⟩
  intro image hshows
  obtain ⟨himage, hiterator⟩ := hevery image hshows
  refine ⟨?_, ?_⟩
  · rw [himage, hget]
  · rw [hiterator, Option.map_some, hrows]

end

end NovaKV
