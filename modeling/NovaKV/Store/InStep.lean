import NovaKV.Store.Retired

open Std
open NovaKV.Lib

namespace NovaKV

/-- Every listed table belongs to one of the two levels and has a file that opens. -/
def Openable (state : ManifestState Nat) (data : Data) (_ : List DiskEffect) : Prop :=
  ∀ (id : Nat) (level : UInt32), state.sst_levels[id]? = some level →
    (level = 0 ∨ level = 1) ∧ ∃ table, data.ssts[id]? = some table ∧ table.records ≠ []

/-- A compaction under way. Its inputs were level 0 at some moment; if they still
are, its output is newer than all of level 1. -/
structure CompactCall.InStep (call : CompactCall) (levels : Levels) (flusher : Flusher) (data : Data) :
    Prop where
  inputs : call.ctx.l0_input_ids ≠ []
  inputs_le : ∀ id ∈ call.ctx.l0_input_ids, id ≤ levels.manifest.state.next_file_number
  no_input : ∀ id ∈ flusher.reserved, id ∉ call.ctx.l0_input_ids
  current : call.ctx.l0_input_ids.Perm (levels.l0.map SSTableReader.file_number) →
    ∀ r ∈ levels.l1, r.file_number < call.ctx.new_id
  built : ∀ r, call.reader = some (some r) →
    r.file_number = call.ctx.new_id ∧ data.ssts[call.ctx.new_id]? = some r.table

/-- The readers of both levels are the listed tables, in order of their numbers, and
the tables to come fit in. -/
structure DBImpl.InStep (db : DBImpl) (data : Data) (_ : List DiskEffect) : Prop where
  lists : db.levels.manifest.state.Lists db.levels.l0 db.levels.l1
  newest : ∀ id ∈ db.flusher.reserved, ∀ r ∈ db.levels.l0, r.file_number < id
  built : ∀ ctx r, db.flusher = .built ctx (some r) →
    r.file_number = ctx.new_sst_id ∧ data.ssts[ctx.new_sst_id]? = some r.table
  compactions : ∀ call ∈ db.calls, call.InStep db.levels db.flusher data

/-- An event that leaves every listed table with its file. -/
def Event.KeepsListed (state : ManifestState Nat) (data : Data) : Event → Prop
  | .call (.add_sst id level) =>
    (level = 0 ∨ level = 1) ∧ ∃ table, data.ssts[id]? = some table ∧ table.records ≠ []
  | .create_sst id _ => id ∉ state.sst_levels
  | .remove_sst id => id ∉ state.sst_levels
  | _ => True

section

variable {state : ManifestState Nat} {data : Data} {past : List DiskEffect}

theorem Openable.lasting : Lasting Openable where
  initial := by simp [Openable, ManifestState.initial]
  down _ hlisted h := fun id level hlevel => h id level (hlisted id level hlevel)

theorem mem_of_getElem?_eq_some {levels : ExtTreeMap Nat UInt32} {id : Nat} {level : UInt32}
    (h : levels[id]? = some level) : id ∈ levels :=
  ExtTreeMap.mem_iff_isSome_getElem?.mpr (by simp [h])

theorem Openable.event (event : Event) (h : Openable state data past)
    (hkeeps : event.KeepsListed state data) :
    Openable (event.state state) (event.data data) (past ++ event.note state) := by
  cases event with
  | call operation =>
    cases operation with
    | allocate_file_number => exact h
    | add_wal other =>
      simp only [Event.state, ManifestCall.edit?]
      split <;> exact h
    | remove_wal other =>
      simp only [Event.state, ManifestCall.edit?]
      split <;> exact h
    | add_sst other added =>
      intro id level hlevel
      have hinsert : (state.sst_levels.insert other added)[id]? = some level := hlevel
      rw [ExtTreeMap.getElem?_insert] at hinsert
      by_cases heq : compare other id = .eq
      · simp only [heq, if_true, Option.some.injEq] at hinsert
        cases LawfulEqCmp.eq_of_compare heq
        exact hinsert ▸ hkeeps
      · simp only [heq, if_false] at hinsert
        exact h id level hinsert
    | remove_sst other =>
      intro id level hlevel
      have herase : (state.sst_levels.erase other)[id]? = some level := hlevel
      rw [ExtTreeMap.getElem?_erase] at herase
      by_cases heq : compare other id = .eq
      · simp [heq] at herase
      · simp only [heq, if_false] at herase
        exact h id level herase
  | create_sst other table =>
    intro id level hlevel
    obtain ⟨hlevels, old, hfile, hrecords⟩ := h id level hlevel
    have hne : other ≠ id := fun heq => hkeeps (heq ▸ mem_of_getElem?_eq_some hlevel)
    exact ⟨hlevels, old, by simpa [Event.data, ExtTreeMap.getElem?_insert, hne] using hfile, hrecords⟩
  | remove_sst other =>
    intro id level hlevel
    obtain ⟨hlevels, old, hfile, hrecords⟩ := h id level hlevel
    have hne : other ≠ id := fun heq => hkeeps (heq ▸ mem_of_getElem?_eq_some hlevel)
    exact ⟨hlevels, old, by simpa [Event.data, ExtTreeMap.getElem?_erase, hne] using hfile, hrecords⟩
  | create_wal other => exact h
  | append_wal other record => exact h
  | remove_wal other => exact h

/-- Each input leaves the manifest before its file is removed. -/
theorem Openable.consumption (h : Openable state data past) (ids : List Nat) :
    Script Openable state data past (consumption ids) := by
  induction ids generalizing state data past with
  | nil => trivial
  | cons id ids ih =>
    have hdeleted : Openable (state.apply_edit (.DelSST id)) data
        (past ++ [.manifest (.append_edit (.DelSST id))]) := h.event (.call (.remove_sst id)) trivial
    have hremoved := hdeleted.event (.remove_sst id)
      (by simp [Event.KeepsListed, ManifestState.apply_edit])
    exact ⟨hdeleted, hremoved, ih hremoved⟩

/-- The tables of one level that the manifest lists are all opened, in order. -/
theorem Openable.level_readers (h : Openable state data past) (level : UInt32) :
    (level_readers data.ssts state level).Pairwise (fun a b => a.file_number < b.file_number) ∧
      ∀ id : Nat, state.sst_levels[id]? = some level ↔
        id ∈ (NovaKV.level_readers data.ssts state level).map SSTableReader.file_number := by
  have hopens : ∀ (entry : Nat × UInt32) (reader : SSTableReader),
      (if entry.2 = level then data.ssts[entry.1]?.bind (SSTableReader.open entry.1) else none) = some reader →
      reader.file_number = entry.1 := by
    intro entry reader hreader
    simp only [Option.ite_none_right_eq_some] at hreader
    obtain ⟨table, -, hopened⟩ := Option.bind_eq_some_iff.mp hreader.2
    exact (SSTableReader.open_eq_some hopened).1
  refine ⟨?_, ?_⟩
  · rw [NovaKV.level_readers, List.pairwise_filterMap]
    refine ExtTreeMap.ordered_keys_toList.imp ?_
    intro a b hlt ra hra rb hrb
    rw [hopens a ra hra, hopens b rb hrb]
    exact Nat.compare_eq_lt.mp hlt
  · intro id
    constructor
    · intro hlevel
      obtain ⟨-, table, hfile, hrecords⟩ := h id level hlevel
      have hopened : SSTableReader.open id table = some ⟨id, table, hrecords⟩ :=
        SSTableReader.open_of_nonempty hrecords
      refine List.mem_map.mpr ⟨⟨id, table, hrecords⟩, List.mem_filterMap.mpr ⟨(id, level), ?_, ?_⟩, rfl⟩
      · exact ExtTreeMap.mem_toList_iff_getElem?_eq_some.mpr hlevel
      · simp [hfile, hopened]
    · intro hid
      obtain ⟨reader, hreader, rfl⟩ := List.mem_map.mp hid
      exact (level_reader_mem hreader).2

theorem Openable.lists (h : Openable state data past) (hbounded : ListsAllocated state data past) :
    state.Lists (NovaKV.level_readers data.ssts state 0) (NovaKV.level_readers data.ssts state 1) where
  sorted0 := (h.level_readers 0).1
  sorted1 := (h.level_readers 1).1
  level0 := (h.level_readers 0).2
  level1 := (h.level_readers 1).2
  levels id level hlevel := (h id level hlevel).1
  bounded := hbounded

/-- A scan lists every table at level 0. -/
theorem getElem?_foldl_scanned {readers : List SSTableReader} {levels : ExtTreeMap Nat UInt32} {id : Nat}
    {level : UInt32} (hlevels : ∀ (other : Nat) (found : UInt32), levels[other]? = some found → found = 0)
    (h : (readers.foldl (fun levels reader => levels.insert (of_int (to_int reader.file_number)) 0)
      levels)[id]? = some level) : level = 0 := by
  induction readers generalizing levels with
  | nil => exact hlevels id level h
  | cons reader readers ih =>
    refine ih ?_ h
    intro other found hfound
    rw [ExtTreeMap.getElem?_insert] at hfound
    split at hfound
    · exact (Option.some.inj hfound).symm
    · exact hlevels other found hfound

/-- Numbers that an `int` can hold are scanned in order. -/
theorem scanned_readers_eq {ssts : ExtTreeMap Nat SSTable} (h : ∀ id ∈ ssts, id < 2 ^ 31) :
    scanned_readers ssts = ssts.keys.filterMap fun id => ssts[id]?.bind (SSTableReader.open id) := by
  have hsorted : ssts.keys.Pairwise (fun a b => scan_le a b = true) := by
    have hkeys : ssts.keys.Pairwise (fun a b => compare a b = .lt) := ExtTreeMap.ordered_keys
    refine hkeys.imp_of_mem ?_
    intro a b ha hb hlt
    rw [ExtTreeMap.mem_keys] at ha hb
    have hless : a < b := Nat.compare_eq_lt.mp hlt
    simp [scan_le, to_int_of_lt (h a ha), to_int_of_lt (h b hb), hless]
  rw [scanned_readers, List.mergeSort_of_pairwise hsorted]

theorem Disk.ScansInts.openable {disk : Disk} (h : disk.ScansInts)
    (hempty : disk.recovered.sst_levels.isEmpty = true) :
    Openable disk.scanned_state disk.data past := by
  intro id level hlevel
  have hzero : level = 0 := getElem?_foldl_scanned (by
    rw [ExtTreeMap.isEmpty_iff] at hempty
    simp [hempty]) hlevel
  obtain ⟨reader, hreader, rfl⟩ := h.mem_scanned hempty (mem_of_getElem?_eq_some hlevel)
  refine ⟨.inl hzero, reader.table, ?_, reader.nonempty⟩
  obtain ⟨id, -, hopened⟩ := List.mem_filterMap.mp hreader
  obtain ⟨table, htable, hopened⟩ := Option.bind_eq_some_iff.mp hopened
  obtain ⟨hnumber, hcontents⟩ := SSTableReader.open_eq_some hopened
  rw [hnumber, hcontents]
  exact htable

/-- The tables of a scan are listed as they are opened. -/
theorem Disk.ScansInts.lists {disk : Disk} (h : disk.ScansInts)
    (hempty : disk.recovered.sst_levels.isEmpty = true)
    (hbounded : ListsAllocated disk.scanned_state disk.data past) :
    disk.scanned_state.Lists (scanned_readers disk.ssts) [] := by
  have hzero : ∀ (id : Nat) (level : UInt32), disk.scanned_state.sst_levels[id]? = some level → level = 0 := by
    intro id level hlevel
    refine getElem?_foldl_scanned ?_ hlevel
    rw [ExtTreeMap.isEmpty_iff] at hempty
    simp [hempty]
  refine ⟨?_, .nil, ?_, ?_, fun id level hlevel => .inl (hzero id level hlevel), hbounded⟩
  · rw [scanned_readers_eq (h hempty), List.pairwise_filterMap]
    have hkeys : disk.ssts.keys.Pairwise (fun a b => compare a b = .lt) := ExtTreeMap.ordered_keys
    refine hkeys.imp ?_
    intro a b hlt ra hra rb hrb
    obtain ⟨_, -, hopena⟩ := Option.bind_eq_some_iff.mp hra
    obtain ⟨_, -, hopenb⟩ := Option.bind_eq_some_iff.mp hrb
    rw [(SSTableReader.open_eq_some hopena).1, (SSTableReader.open_eq_some hopenb).1]
    exact Nat.compare_eq_lt.mp hlt
  · intro id
    constructor
    · intro hlevel
      obtain ⟨reader, hreader, heq⟩ := h.mem_scanned hempty (mem_of_getElem?_eq_some hlevel)
      exact List.mem_map.mpr ⟨reader, hreader, heq⟩
    · intro hid
      obtain ⟨reader, hreader, rfl⟩ := List.mem_map.mp hid
      have hmem : reader.file_number ∈ disk.scanned_state.sst_levels :=
        mem_foldl_insert.mpr (.inr ⟨reader, hreader, of_int_to_int (h hempty _ (scanned_reader_mem hreader))⟩)
      obtain ⟨level, hlevel⟩ := Option.isSome_iff_exists.mp (ExtTreeMap.mem_iff_isSome_getElem?.mp hmem)
      rw [hlevel, hzero _ level hlevel]
  · intro id
    constructor
    · intro hlevel
      exact absurd (hzero id 1 hlevel) (by decide)
    · intro hid
      cases hid

/-- The event changes no listing. -/
def Event.Plain : Event → Prop
  | .call (.add_sst _ _) => False
  | .call (.remove_sst _) => False
  | _ => True

/-- The event creates or removes the table file. -/
def Event.Touches (id : Nat) : Event → Prop
  | .create_sst other _ => other = id
  | .remove_sst other => other = id
  | _ => False

theorem Event.Plain.sst_levels {event : Event} (h : event.Plain) :
    (event.state state).sst_levels = state.sst_levels := by
  cases event with
  | call operation =>
    cases operation with
    | allocate_file_number => rfl
    | add_wal id =>
      simp only [Event.state, ManifestCall.edit?]
      split <;> rfl
    | remove_wal id =>
      simp only [Event.state, ManifestCall.edit?]
      split <;> rfl
    | add_sst id level => cases h
    | remove_sst id => cases h
  | _ => rfl

theorem sst_levels_stateAll {events : List Event} (hplain : ∀ event ∈ events, event.Plain) :
    (stateAll state events).sst_levels = state.sst_levels := by
  induction events generalizing state with
  | nil => rfl
  | cons event events ih =>
    have hrest : (stateAll (event.state state) events).sst_levels = (event.state state).sst_levels :=
      ih fun other hother => hplain other (List.mem_cons_of_mem _ hother)
    exact hrest.trans (hplain event List.mem_cons_self).sst_levels

theorem Event.getElem?_data {event : Event} {id : Nat} (h : ¬ event.Touches id) :
    (event.data data).ssts[id]? = data.ssts[id]? := by
  cases event with
  | create_sst other table =>
    have hne : other ≠ id := h
    simp [Event.data, ExtTreeMap.getElem?_insert, hne]
  | remove_sst other =>
    have hne : other ≠ id := h
    simp [Event.data, ExtTreeMap.getElem?_erase, hne]
  | _ => rfl

theorem getElem?_dataAll {events : List Event} {id : Nat} (h : ∀ event ∈ events, ¬ event.Touches id) :
    (dataAll data events).ssts[id]? = data.ssts[id]? := by
  induction events generalizing data with
  | nil => rfl
  | cons event events ih =>
    have hrest : (dataAll (event.data data) events).ssts[id]? = (event.data data).ssts[id]? :=
      ih fun other hother => h other (List.mem_cons_of_mem _ hother)
    exact hrest.trans (Event.getElem?_data (h event List.mem_cons_self))

/-- Events that change no listing and touch no listed table. -/
theorem Openable.plain {events : List Event} (h : Openable state data past)
    (hplain : ∀ event ∈ events, event.Plain)
    (hunlisted : ∀ event ∈ events, ∀ id, event.Touches id → id ∉ state.sst_levels) :
    Script Openable state data past events := by
  induction events generalizing state data past with
  | nil => trivial
  | cons event events ih =>
    have hfirst := hplain event List.mem_cons_self
    have hkeeps : event.KeepsListed state data := by
      cases event with
      | call operation =>
        cases operation with
        | add_sst id level => cases hfirst
        | _ => trivial
      | create_sst id table => exact hunlisted _ List.mem_cons_self id rfl
      | remove_sst id => exact hunlisted _ List.mem_cons_self id rfl
      | _ => trivial
    have hafter := h.event event hkeeps
    refine ⟨hafter, ih hafter (fun other hother => hplain other (List.mem_cons_of_mem _ hother)) ?_⟩
    intro other hother id htouches
    rw [hfirst.sst_levels]
    exact hunlisted other (List.mem_cons_of_mem _ hother) id htouches

end

section

variable {db db' : DBImpl} {data : Data} {past past' : List DiskEffect} {events : List Event}

/-- Two compactions with one output number are the same. -/
theorem DBImpl.Holds.call_eq (h : db.Holds data past) {call other : CompactCall} (hcall : call ∈ db.calls)
    (hother : other ∈ db.calls) (heq : call.ctx.new_id = other.ctx.new_id) : call = other :=
  List.inj_on_of_nodup_map (List.nodup_append.mp h.distinct).2.1 hcall hother heq

/-- A compaction under way is not affected by what leaves both levels and its output
alone. -/
theorem CompactCall.InStep.keep {call : CompactCall} {levels levels' : Levels} {flusher flusher' : Flusher}
    {data' : Data} (h : call.InStep levels flusher data)
    (hnext : levels.manifest.state.next_file_number ≤ levels'.manifest.state.next_file_number)
    (hreserved : ∀ id ∈ flusher'.reserved,
      id ∈ flusher.reserved ∨ levels.manifest.state.next_file_number < id)
    (hcurrent : call.ctx.l0_input_ids.Perm (levels'.l0.map SSTableReader.file_number) →
      levels'.l0 = levels.l0 ∧ levels'.l1 = levels.l1)
    (hfile : call.reader.join.isSome → data'.ssts[call.ctx.new_id]? = data.ssts[call.ctx.new_id]?) :
    call.InStep levels' flusher' data' where
  inputs := h.inputs
  inputs_le id hid := (h.inputs_le id hid).trans hnext
  no_input id hid hinput := by
    rcases hreserved id hid with hid | hlt
    · exact h.no_input id hid hinput
    · exact absurd (h.inputs_le id hinput) (Nat.not_le.mpr hlt)
  current hperm := by
    obtain ⟨hl0, hl1⟩ := hcurrent hperm
    rw [hl0] at hperm
    rw [hl1]
    exact h.current hperm
  built r hreader := by
    obtain ⟨hnumber, htable⟩ := h.built r hreader
    exact ⟨hnumber, (hfile (by simp [hreader])).trans htable⟩

/-- A move that leaves both levels and all listings as they are. -/
theorem DBImpl.InStep.keep (h : db.InStep data past) (hplain : ∀ event ∈ events, event.Plain)
    (hmanifest : db'.levels.manifest = afterAll db.levels.manifest events)
    (hl0 : db'.levels.l0 = db.levels.l0) (hl1 : db'.levels.l1 = db.levels.l1)
    (hreserved : ∀ id ∈ db'.flusher.reserved,
      id ∈ db.flusher.reserved ∨ db.levels.manifest.state.next_file_number < id)
    (hbuilt : ∀ ctx r, db'.flusher = .built ctx (some r) → r.file_number = ctx.new_sst_id ∧
      (dataAll data events).ssts[ctx.new_sst_id]? = some r.table)
    (hcalls : ∀ call ∈ db'.calls, call.InStep db'.levels db'.flusher (dataAll data events) ∨
      call ∈ db.calls ∧
        (call.reader.join.isSome → ∀ event ∈ events, ¬ event.Touches call.ctx.new_id)) :
    db'.InStep (dataAll data events) past' := by
  have hstate : db'.levels.manifest.state = stateAll db.levels.manifest.state events := by
    rw [hmanifest, afterAll_state]
  have hnext := next_le_stateAll events db.levels.manifest.state
  rw [← hstate] at hnext
  refine ⟨?_, ?_, hbuilt, ?_⟩
  · rw [hl0, hl1]
    exact h.lists.congr (by rw [hstate, sst_levels_stateAll hplain]) hnext
  · rw [hl0]
    intro id hid r hr
    rcases hreserved id hid with hid | hlt
    · exact h.newest id hid r hr
    · exact (h.lists.le_next0 hr).trans_lt hlt
  · intro call hcall
    rcases hcalls call hcall with hin | ⟨hold, htouches⟩
    · exact hin
    · exact (h.compactions call hold).keep hnext hreserved (fun _ => ⟨hl0, hl1⟩)
        fun hsome => getElem?_dataAll (htouches hsome)

theorem Flusher.Moves.reserved_mem {before after : Flusher} (h : before.Moves after) {id : Nat}
    (hid : id ∈ after.reserved) : id ∈ before.reserved := by
  rcases h with rfl | hnone
  · exact hid
  · rw [hnone] at hid
    cases hid

theorem Flusher.Moves.built {before after : Flusher} (h : before.Moves after) {ctx : MinorCtx}
    {reader : Option SSTableReader} (hafter : after = .built ctx reader) : before = .built ctx reader := by
  rcases h with rfl | hnone
  · exact hafter
  · rw [hafter] at hnone
    cases hnone

theorem Levels.perm_of_unchanged {levels : Levels} {ctx : L0ToL1Ctx}
    (hlists : levels.manifest.state.Lists levels.l0 levels.l1) (h : levels.inputs_unchanged ctx = true) :
    ctx.l0_input_ids.Perm (levels.l0.map SSTableReader.file_number) := by
  simp only [Levels.inputs_unchanged, Bool.and_eq_true, beq_iff_eq] at h
  have hsorted : ctx.l0_input_ids.mergeSort.Perm (l0_ids .forward levels.manifest.state) := by
    rw [h.2]
    exact List.mergeSort_perm _ _
  exact ((List.mergeSort_perm _ _).symm.trans hsorted).trans (hlists.l0_ids_perm .forward)

theorem stateAll_consumption (ids : List Nat) (state : ManifestState Nat) :
    stateAll state (consumption ids) = state.apply_edits (ids.map .DelSST) := by
  induction ids generalizing state with
  | nil => rfl
  | cons id ids ih => exact ih _

/-- Deleting all of level 0. -/
theorem ManifestState.Lists.consume {state : ManifestState Nat} {l0 l1 : List SSTableReader}
    (hlists : state.Lists l0 l1) {ids : List Nat} (hids : ids.Perm (l0.map SSTableReader.file_number)) :
    (stateAll state (consumption ids)).Lists [] l1 := by
  have hother : ∀ r ∈ l1, r.file_number ∉ ids := by
    intro r hr hid
    obtain ⟨other, hother, heq⟩ := List.mem_map.mp (hids.mem_iff.mp hid)
    exact hlists.disjoint hother hr heq
  have hdeleted := hlists.delete hother
  have hnone : (l0.filter fun r => r.file_number ∉ ids) = [] := by
    rw [List.filter_eq_nil_iff]
    intro r hr
    simpa using hids.mem_iff.mpr (List.mem_map_of_mem hr)
  rw [hnone] at hdeleted
  rw [stateAll_consumption]
  exact hdeleted

theorem touches_consumption {ids : List Nat} {id : Nat} {event : Event} (hevent : event ∈ consumption ids)
    (h : event.Touches id) : id ∈ ids := by
  obtain ⟨other, hother, hmem⟩ := List.mem_flatMap.mp hevent
  simp only [List.mem_cons, List.not_mem_nil, or_false] at hmem
  rcases hmem with rfl | rfl
  · cases h
  · cases h
    exact hother

/-- A flushed table becomes the newest of level 0. -/
theorem DBImpl.InStep.minor_install {ctx : MinorCtx} {reader : SSTableReader} (h : db.InStep data past)
    (hholds : db.Holds data past) (hopenable : Openable db.levels.manifest.state data past)
    (hbuilt : db.flusher = .built ctx (some reader))
    (hlevels : db'.levels =
      { db.levels with manifest := db'.levels.manifest, l0 := db.levels.l0 ++ [reader] })
    (hflusher : db'.flusher.reserved = []) (hcalls : db'.calls = db.calls)
    (hevents : events = [.call (.add_sst ctx.new_sst_id 0), .call (.remove_wal ctx.old_wal_id),
      .remove_wal ctx.old_wal_id])
    (hmanifest : db'.levels.manifest = afterAll db.levels.manifest events) :
    Script Openable db.levels.manifest.state data past events ∧ db'.InStep (dataAll data events) past' := by
  obtain ⟨hnumber, hfile⟩ := h.built ctx reader hbuilt
  have hid : reader.file_number ∈ db.flusher.reserved := by simp [hbuilt, Flusher.reserved, hnumber]
  have hreserved : reader.file_number ∈ reserved db.flusher db.calls := List.mem_append_left _ hid
  have hl0 : db'.levels.l0 = db.levels.l0 ++ [reader] := by rw [hlevels]
  have hl1 : db'.levels.l1 = db.levels.l1 := by rw [hlevels]
  have hadded := h.lists.add_l0 (h.newest _ hid)
    (fun r hr heq => hholds.unlisted _ hreserved
      ((h.lists.mem_iff _).mpr (.inr (heq ▸ List.mem_map_of_mem hr))))
    (hholds.reserved_le _ hreserved)
  have hstate : db'.levels.manifest.state = stateAll db.levels.manifest.state events := by
    rw [hmanifest, afterAll_state]
  have hnext := next_le_stateAll events db.levels.manifest.state
  rw [← hstate] at hnext
  subst hevents
  rw [← hnumber] at hstate hfile ⊢
  have hplain : ∀ event ∈ [Event.call (.remove_wal ctx.old_wal_id), .remove_wal ctx.old_wal_id],
      event.Plain := by simp [Event.Plain]
  refine ⟨?_, ?_, ?_, ?_, ?_⟩
  · have hinstalled := hopenable.event (.call (.add_sst reader.file_number 0))
      ⟨.inl rfl, reader.table, hfile, reader.nonempty⟩
    exact ⟨hinstalled, hinstalled.plain hplain (by simp [Event.Touches])⟩
  · rw [hl0, hl1]
    refine hadded.congr ?_ ?_
    · rw [hstate]
      exact sst_levels_stateAll hplain
    · rw [hstate]
      exact next_le_stateAll [.call (.remove_wal ctx.old_wal_id), .remove_wal ctx.old_wal_id] _
  · simp [hflusher]
  · intro other r hother
    rw [hother] at hflusher
    cases hflusher
  · rw [hcalls]
    intro call hcall
    refine (h.compactions call hcall).keep hnext (by simp [hflusher]) ?_ ?_
    · intro hperm
      rw [hl0] at hperm
      exact absurd (hperm.mem_iff.mpr (by simp)) ((h.compactions call hcall).no_input _ hid)
    · exact fun _ => getElem?_dataAll (by simp [Event.Touches])

/-- Level 0 is emptied. -/
theorem DBImpl.InStep.emptied {ctx : L0ToL1Ctx} {index : Nat} {l1 : List SSTableReader}
    (first : List Event) (h : db.InStep data past) (hholds : db.Holds data past)
    (hunchanged : db.levels.inputs_unchanged ctx = true)
    (hfirst : (stateAll db.levels.manifest.state first).Lists db.levels.l0 l1)
    (huntouched : ∀ event ∈ first, ∀ id, ¬ event.Touches id)
    (hlevels : db'.levels = { manifest := db'.levels.manifest, l0 := [], l1 := l1 })
    (hflusher : db.flusher.Moves db'.flusher) (hcalls : db'.calls = db.calls.eraseIdx index)
    (hmanifest : db'.levels.manifest =
      afterAll db.levels.manifest (first ++ consumption ctx.l0_input_ids)) :
    db'.InStep (dataAll data (first ++ consumption ctx.l0_input_ids)) past' := by
  have hperm := db.levels.perm_of_unchanged h.lists hunchanged
  have hl0 : db'.levels.l0 = [] := by rw [hlevels]
  have hl1 : db'.levels.l1 = l1 := by rw [hlevels]
  have hstate : db'.levels.manifest.state =
      stateAll db.levels.manifest.state (first ++ consumption ctx.l0_input_ids) := by
    rw [hmanifest, afterAll_state]
  have hnext := next_le_stateAll (first ++ consumption ctx.l0_input_ids) db.levels.manifest.state
  rw [← hstate] at hnext
  have hkept : ∀ id ∈ reserved db.flusher db.calls,
      (dataAll data (first ++ consumption ctx.l0_input_ids)).ssts[id]? = data.ssts[id]? := by
    intro id hid
    refine getElem?_dataAll ?_
    intro event hevent htouches
    rcases List.mem_append.mp hevent with hevent | hevent
    · exact huntouched event hevent id htouches
    · exact hholds.unlisted id hid (db.levels.mem_of_unchanged hunchanged (touches_consumption hevent htouches))
  refine ⟨?_, ?_, ?_, ?_⟩
  · rw [hl0, hl1, hstate, stateAll, List.foldl_append]
    exact hfirst.consume hperm
  · simp [hl0]
  · intro minor r hbuilt
    have hbefore := hflusher.built hbuilt
    rw [hkept _ (by simp [reserved, hbefore, Flusher.reserved])]
    exact h.built minor r hbefore
  · rw [hcalls]
    intro other hother
    have hold : other ∈ db.calls := List.mem_of_mem_eraseIdx hother
    refine (h.compactions other hold).keep hnext (fun id hid => .inl (hflusher.reserved_mem hid)) ?_ ?_
    · intro hempty
      rw [hl0] at hempty
      exact absurd hempty.eq_nil (h.compactions other hold).inputs
    · exact fun _ => hkept _ (List.mem_append_right _ (List.mem_map_of_mem hold))

theorem DBImpl.mem_unbuilt {index : Nat} {owner : Owner} {ctx : L0ToL1Ctx} {id : Nat}
    (hcall : db.calls[index]? = some ⟨owner, ctx, none⟩) (hid : ctx.new_sst_id = some id) :
    id ∈ db.unbuilt := by
  refine List.mem_append_right _ (List.mem_flatMap.mpr ⟨_, List.mem_of_getElem? hcall, ?_⟩)
  simp [CompactCall.unbuilt, hid]

theorem DBImpl.mem_reserved {index : Nat} {call : CompactCall} (hcall : db.calls[index]? = some call) :
    call.ctx.new_id ∈ reserved db.flusher db.calls :=
  List.mem_append_right _ (List.mem_map_of_mem (List.mem_of_getElem? hcall))

/-- The output of a compaction is not the table that is being flushed. -/
theorem DBImpl.Holds.ne_flushed (h : db.Holds data past) {call : CompactCall} {id : Nat} (hcall : call ∈ db.calls)
    (hid : id ∈ db.flusher.reserved) : id ≠ call.ctx.new_id :=
  (List.nodup_append.mp h.distinct).2.2 id hid _ (List.mem_map_of_mem hcall)

/-- Nor is it the output of another one. -/
theorem DBImpl.Holds.ne_other (h : db.Holds data past) {index : Nat} {call other : CompactCall}
    (hcall : db.calls[index]? = some call) (hother : other ∈ db.calls.eraseIdx index) :
    call.ctx.new_id ≠ other.ctx.new_id := by
  intro heq
  have hnodup := nodup_of_subperm (reserved_erase hcall (.inl rfl)) h.distinct
  exact (List.nodup_cons.mp hnodup).1 (heq ▸ List.mem_append_right _ (List.mem_map_of_mem hother))

/-- A move that leaves both levels as they are and touches no table that is listed. -/
theorem DBImpl.InStep.plain (h : db.InStep data past) (hopenable : Openable db.levels.manifest.state data past)
    (hmanifest : db'.levels.manifest = afterAll db.levels.manifest events)
    (hlevels : db'.levels = { db.levels with manifest := db'.levels.manifest })
    (hplain : ∀ event ∈ events, event.Plain)
    (hunlisted : ∀ event ∈ events, ∀ id, event.Touches id → id ∉ db.levels.manifest.state.sst_levels)
    (hreserved : ∀ id ∈ db'.flusher.reserved,
      id ∈ db.flusher.reserved ∨ db.levels.manifest.state.next_file_number < id)
    (hbuilt : ∀ ctx r, db'.flusher = .built ctx (some r) →
      (db.flusher = .built ctx (some r) ∧ ∀ event ∈ events, ¬ event.Touches ctx.new_sst_id) ∨
        (r.file_number = ctx.new_sst_id ∧ (dataAll data events).ssts[ctx.new_sst_id]? = some r.table))
    (hcalls : ∀ call ∈ db'.calls, call.InStep db'.levels db'.flusher (dataAll data events) ∨
      call ∈ db.calls ∧
        (call.reader.join.isSome → ∀ event ∈ events, ¬ event.Touches call.ctx.new_id)) :
    Script Openable db.levels.manifest.state data past events ∧ db'.InStep (dataAll data events) past' := by
  refine ⟨hopenable.plain hplain hunlisted,
    h.keep hplain hmanifest (by rw [hlevels]) (by rw [hlevels]) hreserved ?_ hcalls⟩
  intro ctx r hafter
  rcases hbuilt ctx r hafter with ⟨hbefore, huntouched⟩ | hread
  · rw [getElem?_dataAll huntouched]
    exact h.built ctx r hbefore
  · exact hread

/-- A move that touches no table. -/
theorem DBImpl.InStep.untouched (h : db.InStep data past) (hopenable : Openable db.levels.manifest.state data past)
    (hmanifest : db'.levels.manifest = afterAll db.levels.manifest events)
    (hlevels : db'.levels = { db.levels with manifest := db'.levels.manifest })
    (hevents : ∀ event ∈ events, event.Plain ∧ ∀ id, ¬ event.Touches id) (hflusher : db.flusher.Moves db'.flusher)
    (hcalls : ∀ call ∈ db'.calls, call ∈ db.calls ∨ call.InStep db'.levels db'.flusher (dataAll data events)) :
    Script Openable db.levels.manifest.state data past events ∧ db'.InStep (dataAll data events) past' := by
  refine h.plain hopenable hmanifest hlevels (fun event hevent => (hevents event hevent).1)
    (fun event hevent id htouches => absurd htouches ((hevents event hevent).2 id))
    (fun id hid => .inl (hflusher.reserved_mem hid)) ?_ ?_
  · exact fun ctx r hbuilt => .inl ⟨hflusher.built hbuilt, fun event hevent => (hevents event hevent).2 _⟩
  · intro call hcall
    rcases hcalls call hcall with hold | hin
    · exact .inr ⟨hold, fun _ event hevent => (hevents event hevent).2 _⟩
    · exact .inl hin

theorem DBImpl.InStep.minor_prepare {ctx : MinorCtx} (h : db.InStep data past)
    (hopenable : Openable db.levels.manifest.state data past)
    (hmanifest : db'.levels.manifest = afterAll db.levels.manifest [.call .allocate_file_number])
    (hnumber : ctx.new_sst_id = db.levels.manifest.state.next_file_number + 1)
    (hlevels : db'.levels = { db.levels with manifest := db'.levels.manifest })
    (hflusher : db'.flusher = .prepared ctx) (hcalls : db'.calls = db.calls) :
    Script Openable db.levels.manifest.state data past [.call .allocate_file_number] ∧
      db'.InStep (dataAll data [.call .allocate_file_number]) past' := by
  refine h.plain hopenable hmanifest hlevels (by simp [Event.Plain]) (by simp [Event.Touches]) ?_ ?_ ?_
  · rw [hflusher]
    intro id hid
    rw [List.mem_singleton.mp hid, hnumber]
    exact .inr (Nat.lt_succ_self _)
  · rw [hflusher]
    rintro _ _ ⟨⟩
  · rw [hcalls]
    exact fun call hcall => .inr ⟨hcall, by simp [Event.Touches]⟩

/-- The flusher has written its file, and opened it or removed it again. -/
theorem DBImpl.InStep.minor_build {ctx : MinorCtx} {reader : Option SSTableReader} (h : db.InStep data past)
    (hholds : db.Holds data past) (hopenable : Openable db.levels.manifest.state data past)
    (hmanifest : db'.levels.manifest = afterAll db.levels.manifest events)
    (hprepared : db.flusher = .prepared ctx) (hlevels : db'.levels = db.levels)
    (hflusher : db'.flusher = .built ctx reader) (hcalls : db'.calls = db.calls)
    (hevents : ∀ event ∈ events, event.Plain ∧ ∀ id, event.Touches id → id = ctx.new_sst_id)
    (hreader : ∀ r, reader = some r →
      r.file_number = ctx.new_sst_id ∧ (dataAll data events).ssts[ctx.new_sst_id]? = some r.table) :
    Script Openable db.levels.manifest.state data past events ∧ db'.InStep (dataAll data events) past' := by
  have hid : ctx.new_sst_id ∈ db.flusher.reserved := by simp [hprepared, Flusher.reserved]
  refine h.plain hopenable hmanifest (by rw [hlevels]) (fun event hevent => (hevents event hevent).1) ?_ ?_ ?_ ?_
  · intro event hevent id htouches
    rw [(hevents event hevent).2 id htouches]
    exact hholds.unlisted _ (List.mem_append_left _ hid)
  · rw [hflusher, hprepared]
    exact fun id hid => .inl hid
  · rw [hflusher]
    rintro _ r ⟨⟩
    exact .inr (hreader r rfl)
  · rw [hcalls]
    intro call hcall
    refine .inr ⟨hcall, fun _ event hevent htouches => ?_⟩
    exact hholds.ne_flushed hcall hid ((hevents event hevent).2 _ htouches).symm

theorem DBImpl.InStep.compact_prepare {owner : Owner} {order : IterationOrder (Nat × UInt32)} {ctx : L0ToL1Ctx}
    (h : db.InStep data past) (hopenable : Openable db.levels.manifest.state data past)
    (hmanifest : db'.levels.manifest = afterAll db.levels.manifest [.call .allocate_file_number])
    (hprepared : ctx.PreparedFrom db.levels order)
    (hnumber : ctx.new_sst_id = some (db.levels.manifest.state.next_file_number + 1))
    (hlevels : db'.levels = { db.levels with manifest := db'.levels.manifest })
    (hflusher : db.flusher.Moves db'.flusher)
    (hcalls : db'.calls = db.calls ++ [{ owner := owner, ctx := ctx, reader := none }]) :
    Script Openable db.levels.manifest.state data past [.call .allocate_file_number] ∧
      db'.InStep (dataAll data [.call .allocate_file_number]) past' := by
  have hperm := h.lists.l0_ids_perm order
  rw [← hprepared.inputs] at hperm
  have hnext : db'.levels.manifest.state.next_file_number = db.levels.manifest.state.next_file_number + 1 := by
    rw [hmanifest, afterAll_state]
    rfl
  refine h.untouched hopenable hmanifest hlevels (by simp [Event.Plain, Event.Touches]) hflusher ?_
  rw [hcalls]
  intro call hcall
  rcases List.mem_append.mp hcall with hcall | hcall
  · exact .inl hcall
  cases List.mem_singleton.mp hcall
  refine .inr ⟨?_, ?_, ?_, ?_, by rintro _ ⟨⟩⟩
  · intro hnone
    have hempty : ([] : List Nat).Perm _ := hnone ▸ hperm
    exact hprepared.l0 (List.map_eq_nil_iff.mp hempty.nil_eq.symm)
  · intro id hmem
    obtain ⟨r, hr, rfl⟩ := List.mem_map.mp (hperm.mem_iff.mp hmem)
    rw [hnext]
    exact (h.lists.le_next0 hr).trans (Nat.le_succ _)
  · intro id hmem hinput
    obtain ⟨r, hr, rfl⟩ := List.mem_map.mp (hperm.mem_iff.mp hinput)
    exact absurd (h.newest _ (hflusher.reserved_mem hmem) r hr) (Nat.lt_irrefl _)
  · intro _ r hr
    rw [hlevels] at hr
    simp only [L0ToL1Ctx.new_id, hnumber, Option.getD_some]
    exact (h.lists.le_next1 hr).trans_lt (Nat.lt_succ_self _)

theorem DBImpl.InStep.compact_skip {index : Nat} {owner : Owner} {ctx : L0ToL1Ctx} (h : db.InStep data past)
    (hopenable : Openable db.levels.manifest.state data past)
    (hmanifest : db'.levels.manifest = afterAll db.levels.manifest [])
    (hcall : db.calls[index]? = some ⟨owner, ctx, none⟩) (hlevels : db'.levels = db.levels)
    (hflusher : db'.flusher = db.flusher) (hcalls : db'.calls = db.calls.set index ⟨owner, ctx, some none⟩) :
    Script Openable db.levels.manifest.state data past [] ∧ db'.InStep (dataAll data []) past' := by
  refine h.untouched hopenable hmanifest (by rw [hlevels]) (by simp) (.inl hflusher) ?_
  rw [hcalls]
  intro call hmem
  rcases List.mem_or_eq_of_mem_set hmem with hmem | rfl
  · exact .inl hmem
  · have hbefore := h.compactions _ (List.mem_of_getElem? hcall)
    rw [hlevels, hflusher]
    exact .inr ⟨hbefore.inputs, hbefore.inputs_le, hbefore.no_input, hbefore.current, by rintro _ ⟨⟩⟩

/-- A compaction has written its output and opened it. -/
theorem DBImpl.InStep.compact_build {index : Nat} {owner : Owner} {ctx : L0ToL1Ctx} {id : Nat} {table : SSTable}
    {reader : SSTableReader} (h : db.InStep data past) (hholds : db.Holds data past)
    (hopenable : Openable db.levels.manifest.state data past)
    (hmanifest : db'.levels.manifest = afterAll db.levels.manifest [.create_sst id table])
    (hcall : db.calls[index]? = some ⟨owner, ctx, none⟩) (hid : ctx.new_sst_id = some id)
    (hopened : SSTableReader.open id table = some reader) (hlevels : db'.levels = db.levels)
    (hflusher : db'.flusher = db.flusher)
    (hcalls : db'.calls = db.calls.set index ⟨owner, ctx, some (some reader)⟩) :
    Script Openable db.levels.manifest.state data past [.create_sst id table] ∧
      db'.InStep (dataAll data [.create_sst id table]) past' := by
  have hnew : ctx.new_id = id := by simp [L0ToL1Ctx.new_id, hid]
  have hold := List.mem_of_getElem? hcall
  have hreserved : id ∈ reserved db.flusher db.calls := hnew ▸ db.mem_reserved hcall
  refine h.plain hopenable hmanifest (by rw [hlevels]) (by simp [Event.Plain])
    (by simpa [Event.Touches] using hholds.unlisted _ hreserved) (fun other hother => .inl (hflusher ▸ hother)) ?_ ?_
  · intro minor r hbuilt
    have hbefore := hflusher.symm.trans hbuilt
    have hne := hholds.ne_flushed hold (by simp [hbefore, Flusher.reserved] : minor.new_sst_id ∈ _)
    exact .inl ⟨hbefore, by simpa [Event.Touches, hnew] using hne.symm⟩
  · rw [hcalls]
    intro call hmem
    rcases List.mem_or_eq_of_mem_set hmem with hmem | rfl
    · refine .inr ⟨hmem, ?_⟩
      intro hsome event hevent htouches
      rw [List.mem_singleton.mp hevent] at htouches
      have hsame := hholds.call_eq hmem hold (htouches.symm.trans hnew.symm)
      rw [hsame] at hsome
      cases hsome
    · have hbefore := h.compactions _ hold
      rw [hlevels, hflusher]
      refine .inl ⟨hbefore.inputs, hbefore.inputs_le, hbefore.no_input, hbefore.current, ?_⟩
      rintro _ ⟨⟩
      obtain ⟨hnumber, hcontents⟩ := SSTableReader.open_eq_some hopened
      exact ⟨hnumber.trans hnew.symm, by simp [dataAll, Event.data, hcontents, hnew]⟩

/-- A compaction ends that has removed its output again. -/
theorem DBImpl.InStep.compact_drop {index : Nat} {call : CompactCall} {id : Nat} (h : db.InStep data past)
    (hholds : db.Holds data past) (hopenable : Openable db.levels.manifest.state data past)
    (hmanifest : db'.levels.manifest = afterAll db.levels.manifest events)
    (hcall : db.calls[index]? = some call) (hid : call.ctx.new_sst_id = some id) (hlevels : db'.levels = db.levels)
    (hflusher : db.flusher.Moves db'.flusher) (hcalls : db'.calls = db.calls.eraseIdx index)
    (hevents : ∀ event ∈ events, event.Plain ∧ ∀ other, event.Touches other → other = id) :
    Script Openable db.levels.manifest.state data past events ∧ db'.InStep (dataAll data events) past' := by
  have hnew : call.ctx.new_id = id := by simp [L0ToL1Ctx.new_id, hid]
  refine h.plain hopenable hmanifest (by rw [hlevels]) (fun event hevent => (hevents event hevent).1) ?_
    (fun other hother => .inl (hflusher.reserved_mem hother)) ?_ ?_
  · intro event hevent other htouches
    rw [(hevents event hevent).2 other htouches, ← hnew]
    exact hholds.unlisted _ (db.mem_reserved hcall)
  · intro minor r hbuilt
    have hbefore := hflusher.built hbuilt
    refine .inl ⟨hbefore, fun event hevent htouches => ?_⟩
    have hne := hholds.ne_flushed (List.mem_of_getElem? hcall)
      (by simp [hbefore, Flusher.reserved] : minor.new_sst_id ∈ db.flusher.reserved)
    exact hne (((hevents event hevent).2 _ htouches).trans hnew.symm)
  · rw [hcalls]
    intro other hother
    refine .inr ⟨List.mem_of_mem_eraseIdx hother, fun _ event hevent htouches => ?_⟩
    exact hholds.ne_other hcall hother (hnew.trans ((hevents event hevent).2 _ htouches).symm)

theorem DBImpl.InStep.compact_install {index : Nat} {owner : Owner} {ctx : L0ToL1Ctx} {reader : SSTableReader}
    (h : db.InStep data past) (hholds : db.Holds data past)
    (hopenable : Openable db.levels.manifest.state data past)
    (hmanifest : db'.levels.manifest = afterAll db.levels.manifest
      (.call (.add_sst (ctx.new_sst_id.getD 0) 1) :: consumption ctx.l0_input_ids))
    (hcall : db.calls[index]? = some ⟨owner, ctx, some (some reader)⟩)
    (hunchanged : db.levels.inputs_unchanged ctx = true)
    (hlevels : db'.levels = { manifest := db'.levels.manifest, l0 := [], l1 := db.levels.l1 ++ [reader] })
    (hflusher : db.flusher.Moves db'.flusher) (hcalls : db'.calls = db.calls.eraseIdx index) :
    Script Openable db.levels.manifest.state data past
        (.call (.add_sst (ctx.new_sst_id.getD 0) 1) :: consumption ctx.l0_input_ids) ∧
      db'.InStep (dataAll data (.call (.add_sst (ctx.new_sst_id.getD 0) 1) :: consumption ctx.l0_input_ids)) past' := by
  have hbefore := h.compactions _ (List.mem_of_getElem? hcall)
  obtain ⟨hnumber, hfile⟩ := hbefore.built reader rfl
  have hreserved := db.mem_reserved hcall
  have hperm := db.levels.perm_of_unchanged h.lists hunchanged
  have hadded := h.lists.add_l1 (fun r hr => hnumber ▸ hbefore.current hperm r hr)
    (fun r hr heq => hholds.unlisted _ hreserved
      ((h.lists.mem_iff _).mpr (.inl (hnumber ▸ heq ▸ List.mem_map_of_mem hr))))
    (hnumber ▸ hholds.reserved_le _ hreserved)
  rw [hnumber] at hadded
  have hlisted : (stateAll db.levels.manifest.state [.call (.add_sst (ctx.new_sst_id.getD 0) 1)]).Lists
      db.levels.l0 (db.levels.l1 ++ [reader]) := hadded
  have hinstalled := hopenable.event (.call (.add_sst (ctx.new_sst_id.getD 0) 1))
    ⟨.inr rfl, reader.table, hfile, reader.nonempty⟩
  refine ⟨⟨hinstalled, hinstalled.consumption _⟩, ?_⟩
  exact h.emptied [_] hholds hunchanged hlisted (by simp [Event.Touches]) hlevels hflusher hcalls hmanifest

/-- Every move keeps the readers in step with the manifest. -/
theorem DBImpl.InStep.move (hnumbered : Numbered db.levels.manifest.state data past)
    (hreserves : db.Reserves data past) (hholds : db.Holds data past)
    (hopenable : Openable db.levels.manifest.state data past) (h : db.InStep data past)
    (hmove : Move db data.ssts events db')
    (hmanifest : db'.levels.manifest = afterAll db.levels.manifest events) :
    Script Openable db.levels.manifest.state data past events ∧ db'.InStep (dataAll data events) past' := by
  cases hmove with
  | quiet hlevels hflusher hcalls =>
    exact h.untouched hopenable hmanifest (by rw [hlevels]) (by simp) hflusher (by rw [hcalls]; exact fun _ => .inl)
  | rotate _ hlevels hflusher hcalls =>
    exact h.untouched hopenable hmanifest hlevels (by simp [Event.Plain, Event.Touches]) (.inl hflusher)
      (by rw [hcalls]; exact fun _ => .inl)
  | put_write hlevels hflusher hcalls =>
    exact h.untouched hopenable hmanifest (by rw [hlevels]) (by simp [Event.Plain, Event.Touches]) (.inl hflusher)
      (by rw [hcalls]; exact fun _ => .inl)
  | minor_prepare hid hlevels hflusher hcalls =>
    exact h.minor_prepare hopenable hmanifest hid hlevels hflusher hcalls
  | minor_build hprepared hopened hlevels hflusher hcalls =>
    rw [hreserves.stale_eq_nil hnumbered (by simp [DBImpl.unbuilt, hprepared, Flusher.unbuilt]),
      List.nil_append] at hmanifest ⊢
    refine h.minor_build hholds hopenable hmanifest hprepared hlevels hflusher hcalls
      (by simp [Event.Plain, Event.Touches]) ?_
    rintro _ ⟨⟩
    obtain ⟨hnumber, hcontents⟩ := SSTableReader.open_eq_some hopened
    exact ⟨hnumber, by simp [dataAll, Event.data, hcontents]⟩
  | minor_build_fail hprepared hlevels hflusher hcalls =>
    rw [hreserves.stale_eq_nil hnumbered (by simp [DBImpl.unbuilt, hprepared, Flusher.unbuilt]),
      List.nil_append] at hmanifest ⊢
    exact h.minor_build hholds hopenable hmanifest hprepared hlevels hflusher hcalls
      (by simp [Event.Plain, Event.Touches]) (by rintro _ ⟨⟩)
  | minor_install hbuilt hlevels hflusher hcalls =>
    exact h.minor_install hholds hopenable hbuilt hlevels hflusher hcalls rfl hmanifest
  | compact_prepare hprepared hid hlevels hflusher hcalls =>
    exact h.compact_prepare hopenable hmanifest hprepared hid hlevels hflusher hcalls
  | compact_skip hcall hlevels hflusher hcalls =>
    exact h.compact_skip hopenable hmanifest hcall hlevels hflusher hcalls
  | compact_build hcall hid hopened hlevels hflusher hcalls =>
    rw [hreserves.stale_eq_nil hnumbered (db.mem_unbuilt hcall hid), List.nil_append] at hmanifest ⊢
    exact h.compact_build hholds hopenable hmanifest hcall hid hopened hlevels hflusher hcalls
  | compact_fail hcall hid hlevels hflusher hcalls =>
    rw [hreserves.stale_eq_nil hnumbered (db.mem_unbuilt hcall hid), List.nil_append] at hmanifest ⊢
    exact h.compact_drop hholds hopenable hmanifest hcall hid hlevels hflusher hcalls
      (by simp [Event.Plain, Event.Touches])
  | compact_abort hcall hlevels hflusher hcalls =>
    refine h.untouched hopenable hmanifest (by rw [hlevels]) (by simp) hflusher ?_
    rw [hcalls]
    exact fun call hmem => .inl (List.mem_of_mem_eraseIdx hmem)
  | compact_install hcall hunchanged hlevels hflusher hcalls =>
    exact h.compact_install hholds hopenable hmanifest hcall hunchanged hlevels hflusher hcalls
  | compact_consume hcall hunchanged hlevels hflusher hcalls =>
    exact ⟨hopenable.consumption _, h.emptied [] hholds hunchanged h.lists (by simp) hlevels hflusher hcalls hmanifest⟩
  | compact_reject hcall hid hlevels hflusher hcalls =>
    exact h.compact_drop hholds hopenable hmanifest hcall hid hlevels hflusher hcalls
      (by simp [Event.Plain, Event.Touches])

theorem boot_events_plain (id : Nat) (ids : List Nat) : ∀ event ∈ boot_events id ids, event.Plain := by
  intro event hevent
  simp only [boot_events, List.mem_append, List.mem_cons, List.mem_map, List.not_mem_nil, or_false] at hevent
  rcases hevent with (rfl | rfl | rfl) | ⟨other, -, rfl⟩ <;> trivial

theorem boot_events_untouched (id : Nat) (ids : List Nat) (sst : Nat) :
    ∀ event ∈ boot_events id ids, ¬ event.Touches sst := by
  intro event hevent
  simp only [boot_events, List.mem_append, List.mem_cons, List.mem_map, List.not_mem_nil, or_false] at hevent
  rcases hevent with (rfl | rfl | rfl) | ⟨other, -, rfl⟩ <;> exact not_false

/-- The levels that the constructor loads are in step. -/
theorem Disk.loaded_lists {disk : Disk} (h : disk.ScansInts)
    (hbounded : ListsAllocated disk.loaded.manifest.state disk.data past)
    (hopenable : Openable disk.loaded.manifest.state disk.data past) :
    disk.loaded.manifest.state.Lists disk.loaded.l0 disk.loaded.l1 := by
  by_cases hempty : disk.recovered.sst_levels.isEmpty = true
  · simp only [Disk.loaded, hempty, if_true] at hbounded ⊢
    exact h.lists hempty hbounded
  · simp only [Disk.loaded, hempty, Bool.false_eq_true, if_false] at hbounded hopenable ⊢
    exact hopenable.lists hbounded

/-- While every scan stays within `int`, the readers stay in step with the manifest. -/
theorem DBImpl.InStep.preserved : Preserved (fun disk _ => disk.ScansInts)
    (fun state data past =>
      (Numbered state data past ∧ ListsAllocated state data past) ∧ Openable state data past)
    (fun db data past => (db.Reserves data past ∧ db.Holds data past) ∧ db.InStep data past) := by
  refine (ListsAllocated.preserved fun _ _ h => h).extend Openable.lasting ?_ ?_ ?_
  · exact fun hscans _ _ hempty => hscans.openable hempty
  · intro disk trace db ids events hscans _ hJ hopenable hopened hevents hlevels
    subst hevents
    have hlists := disk.loaded_lists hscans hJ.2 hopenable
    have hl0 : db.levels.l0 = disk.loaded.l0 := by rw [hlevels]
    have hl1 : db.levels.l1 = disk.loaded.l1 := by rw [hlevels]
    have hstate : db.levels.manifest.state = stateAll disk.loaded.manifest.state
        (boot_events (disk.loaded.manifest.state.next_file_number + 1) ids) := by
      rw [hlevels, ← afterAll_state]
    refine ⟨hopenable.plain (boot_events_plain _ ids) ?_, ?_, ?_, ?_, ?_⟩
    · exact fun event hevent id htouches => absurd htouches (boot_events_untouched _ ids id event hevent)
    · rw [hl0, hl1, hstate]
      exact hlists.congr (sst_levels_stateAll (boot_events_plain _ ids)) (next_le_stateAll _ _)
    · simp [hopened.flusher, Flusher.reserved]
    · simp [hopened.flusher]
    · simp [hopened.calls]
  · exact fun hJ hK hopenable h hmove hmanifest => h.move hJ.1 hK.1 hK.2 hopenable hmove hmanifest

end

end NovaKV
