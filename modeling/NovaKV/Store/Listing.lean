import NovaKV.Store.Numbers

open Std
open NovaKV.Lib

namespace NovaKV

/-- A scan finds only numbers that an `int` can hold. -/
def Disk.ScansInts (disk : Disk) : Prop :=
  disk.recovered.sst_levels.isEmpty = true → ∀ id ∈ disk.ssts, id < 2 ^ 31

/-- Every listed table has a number that has been allocated. -/
def ListsAllocated (state : ManifestState Nat) (_ : Data) (_ : List DiskEffect) : Prop :=
  ∀ id ∈ state.sst_levels, id ≤ state.next_file_number

/-- The numbers of the tables that are not installed yet. -/
structure DBImpl.Holds (db : DBImpl) (_ : Data) (_ : List DiskEffect) : Prop where
  numbered : ∀ call ∈ db.calls, call.ctx.new_sst_id = some call.ctx.new_id
  distinct : (reserved db.flusher db.calls).Nodup
  reserved_le : ∀ id ∈ reserved db.flusher db.calls, id ≤ db.levels.manifest.state.next_file_number
  unlisted : ∀ id ∈ reserved db.flusher db.calls, id ∉ db.levels.manifest.state.sst_levels

/-- The event lists the table. -/
def Event.Adds (event : Event) (id : Nat) : Prop := ∃ level, event = .call (.add_sst id level)

/-- What a move may do with the numbers of the tables that are not installed yet: it
drops some, it allocates one, or it lists one. -/
inductive Renumbers (db db' : DBImpl) (events : List Event) : Prop
  | drops (kept : (reserved db'.flusher db'.calls).Subperm (reserved db.flusher db.calls))
      (silent : ∀ event ∈ events, ∀ id, ¬ event.Adds id)
  | allocates (kept : (reserved db'.flusher db'.calls).Subperm
        ((db.levels.manifest.state.next_file_number + 1) :: reserved db.flusher db.calls))
      (allocated : events = [.call .allocate_file_number])
  | lists (added : Nat) (kept : (added :: reserved db'.flusher db'.calls).Subperm (reserved db.flusher db.calls))
      (listed : ∀ event ∈ events, ∀ id, event.Adds id → id = added)

section

variable {state : ManifestState Nat} {data : Data} {past : List DiskEffect}

theorem Event.mem_listed {event : Event} {id : Nat} (h : id ∈ (event.state state).sst_levels) :
    event.Adds id ∨ id ∈ state.sst_levels := by
  cases event with
  | call operation =>
    cases operation with
    | allocate_file_number => exact .inr h
    | add_wal other =>
      simp only [Event.state, ManifestCall.edit?] at h
      split at h <;> exact .inr h
    | remove_wal other =>
      simp only [Event.state, ManifestCall.edit?] at h
      split at h <;> exact .inr h
    | add_sst other level =>
      rcases ExtTreeMap.mem_insert.mp h with heq | hmem
      · cases LawfulEqCmp.eq_of_compare heq
        exact .inl ⟨level, rfl⟩
      · exact .inr hmem
    | remove_sst other => exact .inr (ExtTreeMap.mem_of_mem_erase h)
  | _ => exact .inr h

theorem mem_listed_stateAll {events : List Event} {id : Nat}
    (h : id ∈ (stateAll state events).sst_levels) :
    (∃ event ∈ events, event.Adds id) ∨ id ∈ state.sst_levels := by
  induction events generalizing state with
  | nil => exact .inr h
  | cons event events ih =>
    rcases ih h with ⟨other, hother, hadds⟩ | hmem
    · exact .inl ⟨other, List.mem_cons_of_mem _ hother, hadds⟩
    · rcases event.mem_listed hmem with hadds | hmem
      · exact .inl ⟨event, List.mem_cons_self, hadds⟩
      · exact .inr hmem

theorem ListsAllocated.lasting : Lasting ListsAllocated where
  initial := by simp [ListsAllocated, ManifestState.initial]
  down hnext hlisted h := by
    intro id hid
    obtain ⟨level, hlevel⟩ := Option.isSome_iff_exists.mp (ExtTreeMap.mem_iff_isSome_getElem?.mp hid)
    rw [hnext]
    exact h id (ExtTreeMap.mem_iff_isSome_getElem?.mpr (by simp [hlisted id level hlevel]))

theorem ListsAllocated.script {events : List Event} (h : ListsAllocated state data past)
    (hadds : ∀ event ∈ events, ∀ id, event.Adds id → id ≤ state.next_file_number) :
    Script ListsAllocated state data past events := by
  induction events generalizing state data past with
  | nil => trivial
  | cons event events ih =>
    have hnext := event.next_le state
    have hafter : ListsAllocated (event.state state) (event.data data) (past ++ event.note state) := by
      intro id hid
      rcases event.mem_listed hid with hadd | hmem
      · exact (hadds event List.mem_cons_self id hadd).trans hnext
      · exact (h id hmem).trans hnext
    refine ⟨hafter, ih hafter ?_⟩
    intro other hother id hadd
    exact (hadds other (List.mem_cons_of_mem _ hother) id hadd).trans hnext

end

theorem to_int_of_lt {id : Nat} (h : id < 2 ^ 31) : to_int id = id := by
  have hnat : (BitVec.ofNat 32 id).toNat = id := by
    rw [BitVec.toNat_ofNat]
    exact Nat.mod_eq_of_lt (h.trans (by decide))
  rw [to_int, BitVec.toInt_eq_toNat_of_lt (by rw [hnat]; omega), hnat]

theorem of_int_to_int {id : Nat} (h : id < 2 ^ 31) : of_int (to_int id) = id := by
  rw [to_int_of_lt h, of_int, BitVec.ofInt_natCast, BitVec.toNat_ofNat]
  exact Nat.mod_eq_of_lt (h.trans (by decide))

theorem mem_foldl_insert {readers : List SSTableReader} {levels : ExtTreeMap Nat UInt32} {id : Nat} :
    id ∈ readers.foldl (fun levels reader => levels.insert (of_int (to_int reader.file_number)) 0) levels ↔
      id ∈ levels ∨ ∃ reader ∈ readers, of_int (to_int reader.file_number) = id := by
  induction readers generalizing levels with
  | nil => simp
  | cons reader readers ih =>
    rw [List.foldl_cons, ih, ExtTreeMap.mem_insert, LawfulEqCmp.compare_eq_iff_eq]
    simp only [List.mem_cons, exists_eq_or_imp]
    tauto

theorem scanned_reader_mem {ssts : ExtTreeMap Nat SSTable} {reader : SSTableReader}
    (h : reader ∈ scanned_readers ssts) : reader.file_number ∈ ssts := by
  obtain ⟨id, -, hopened⟩ := List.mem_filterMap.mp h
  obtain ⟨table, htable, hopened⟩ := Option.bind_eq_some_iff.mp hopened
  rw [(SSTableReader.open_eq_some hopened).1]
  exact ExtTreeMap.mem_iff_isSome_getElem?.mpr (by simp [htable])

theorem level_reader_mem {ssts : ExtTreeMap Nat SSTable} {state : ManifestState Nat} {level : UInt32}
    {reader : SSTableReader} (h : reader ∈ level_readers ssts state level) :
    ssts[reader.file_number]? = some reader.table ∧ state.sst_levels[reader.file_number]? = some level := by
  obtain ⟨⟨id, other⟩, hentry, hopened⟩ := List.mem_filterMap.mp h
  rw [ExtTreeMap.mem_toList_iff_getElem?_eq_some] at hentry
  simp only [Option.ite_none_right_eq_some] at hopened
  obtain ⟨rfl, hopened⟩ := hopened
  obtain ⟨table, htable, hopened⟩ := Option.bind_eq_some_iff.mp hopened
  obtain ⟨hnumber, hcontents⟩ := SSTableReader.open_eq_some hopened
  rw [hnumber, hcontents]
  exact ⟨htable, hentry⟩

/-- A scan that stays within `int` lists the numbers of the files it opens. -/
theorem Disk.ScansInts.mem_scanned {disk : Disk} (h : disk.ScansInts)
    (hempty : disk.recovered.sst_levels.isEmpty = true) {id : Nat}
    (hid : id ∈ disk.scanned_state.sst_levels) : ∃ reader ∈ scanned_readers disk.ssts, reader.file_number = id := by
  rcases mem_foldl_insert.mp hid with hmem | ⟨reader, hreader, heq⟩
  · rw [ExtTreeMap.isEmpty_iff] at hempty
    simp [hempty] at hmem
  · rw [of_int_to_int (h hempty _ (scanned_reader_mem hreader))] at heq
    exact ⟨reader, hreader, heq⟩

section

variable {db db' : DBImpl} {data data' : Data} {past past' : List DiskEffect}

theorem reserved_set {calls : List CompactCall} {index : Nat} {call after : CompactCall}
    (hcall : calls[index]? = some call) (hafter : after.ctx = call.ctx) (flusher : Flusher) :
    reserved flusher (calls.set index after) = reserved flusher calls := by
  obtain ⟨hindex, rfl⟩ := List.getElem?_eq_some_iff.mp hcall
  rw [reserved, reserved, List.map_set, hafter]
  congr 1
  apply List.ext_getElem (by simp)
  intro i hi _
  by_cases heq : index = i
  · subst heq
    simp
  · simp [List.getElem_set_ne heq]

theorem reserved_erase {calls : List CompactCall} {index : Nat} {call : CompactCall}
    (hcall : calls[index]? = some call) {before after : Flusher} (hflusher : before.Moves after) :
    (call.ctx.new_id :: reserved after (calls.eraseIdx index)).Subperm (reserved before calls) := by
  obtain ⟨hindex, rfl⟩ := List.getElem?_eq_some_iff.mp hcall
  have hcalls := (List.getElem_cons_eraseIdx_perm hindex).map (·.ctx.new_id)
  rw [List.map_cons] at hcalls
  have hperm : (calls[index].ctx.new_id :: reserved after (calls.eraseIdx index)).Perm
      (after.reserved ++ calls.map (·.ctx.new_id)) :=
    List.perm_middle.symm.trans (hcalls.append_left _)
  refine hperm.subperm.trans (List.Sublist.subperm (List.Sublist.append_right ?_ _))
  rcases hflusher with rfl | hnone
  · exact List.Sublist.refl _
  · rw [hnone]
    exact List.nil_sublist _

theorem Flusher.Moves.reserved_sublist {before after : Flusher} (h : before.Moves after)
    (calls : List CompactCall) : (NovaKV.reserved after calls).Sublist (NovaKV.reserved before calls) := by
  refine List.Sublist.append_right ?_ _
  rcases h with rfl | hnone
  · exact List.Sublist.refl _
  · rw [hnone]
    exact List.nil_sublist _

theorem Event.not_adds_write {ssts : ExtTreeMap Nat SSTable} {id : Nat} {table : SSTable} {rest : List Event}
    (hrest : rest = [] ∨ rest = [.remove_sst id]) :
    ∀ event ∈ stale ssts id ++ .create_sst id table :: rest, ∀ other, ¬ event.Adds other := by
  rintro event hevent other ⟨level, rfl⟩
  rcases List.mem_append.mp hevent with hevent | hevent
  · cases mem_stale hevent
  · rcases hrest with rfl | rfl <;> simp at hevent

theorem Event.not_adds_consumption (ids : List Nat) : ∀ event ∈ consumption ids, ∀ id, ¬ event.Adds id := by
  rintro event hevent id ⟨level, rfl⟩
  simp [consumption] at hevent

/-- Every call that goes on keeps its number, and a new one has one. -/
theorem Move.numbered {events : List Event} {ssts : ExtTreeMap Nat SSTable} (hmove : Move db ssts events db')
    (hnumbered : ∀ call ∈ db.calls, call.ctx.new_sst_id = some call.ctx.new_id) :
    ∀ call ∈ db'.calls, call.ctx.new_sst_id = some call.ctx.new_id := by
  have hset : ∀ {index : Nat} {call after : CompactCall}, db.calls[index]? = some call → after.ctx = call.ctx →
      ∀ other ∈ db.calls.set index after, other.ctx.new_sst_id = some other.ctx.new_id := by
    intro index call after hcall hctx other hother
    rcases List.mem_or_eq_of_mem_set hother with hother | rfl
    · exact hnumbered other hother
    · rw [hctx]
      exact hnumbered call (List.mem_of_getElem? hcall)
  have herase : ∀ index, ∀ other ∈ db.calls.eraseIdx index, other.ctx.new_sst_id = some other.ctx.new_id :=
    fun index other hother => hnumbered other (List.mem_of_mem_eraseIdx hother)
  cases hmove with
  | quiet _ _ hcalls => exact hcalls ▸ hnumbered
  | rotate _ _ _ hcalls => exact hcalls ▸ hnumbered
  | put_write _ _ hcalls => exact hcalls ▸ hnumbered
  | minor_prepare _ _ _ hcalls => exact hcalls ▸ hnumbered
  | minor_build _ _ _ _ hcalls => exact hcalls ▸ hnumbered
  | minor_build_fail _ _ _ hcalls => exact hcalls ▸ hnumbered
  | minor_install _ _ _ hcalls => exact hcalls ▸ hnumbered
  | compact_prepare _ hid _ _ hcalls =>
    rw [hcalls]
    intro call hcall
    rcases List.mem_append.mp hcall with hcall | hcall
    · exact hnumbered call hcall
    · cases List.mem_singleton.mp hcall
      simp [L0ToL1Ctx.new_id, hid]
  | compact_skip hcall _ _ hcalls => exact hcalls ▸ hset hcall rfl
  | compact_build hcall _ _ _ _ hcalls => exact hcalls ▸ hset hcall rfl
  | compact_fail _ _ _ _ hcalls => exact hcalls ▸ herase _
  | compact_abort _ _ _ hcalls => exact hcalls ▸ herase _
  | compact_install _ _ _ _ hcalls => exact hcalls ▸ herase _
  | compact_consume _ _ _ _ hcalls => exact hcalls ▸ herase _
  | compact_reject _ _ _ _ hcalls => exact hcalls ▸ herase _

theorem Renumbers.same {events : List Event} (hflusher : db'.flusher.reserved = db.flusher.reserved)
    (hcalls : db'.calls.map (·.ctx.new_id) = db.calls.map (·.ctx.new_id))
    (hsilent : ∀ event ∈ events, ∀ id, ¬ event.Adds id) : Renumbers db db' events := by
  refine .drops ?_ hsilent
  rw [reserved, reserved, hflusher, hcalls]

/-- A flush takes the number that it allocates. -/
theorem Renumbers.minor_prepare {ctx : MinorCtx}
    (hid : ctx.new_sst_id = db.levels.manifest.state.next_file_number + 1)
    (hflusher : db'.flusher = .prepared ctx) (hcalls : db'.calls = db.calls) :
    Renumbers db db' [.call .allocate_file_number] := by
  refine .allocates ?_ rfl
  rw [hflusher, hcalls, ← hid]
  exact ((List.sublist_append_right _ _).cons_cons _).subperm

/-- A flush lists the table that it has built. -/
theorem Renumbers.minor_install {ctx : MinorCtx} {reader : SSTableReader}
    (hbuilt : db.flusher = .built ctx (some reader)) (hflusher : db'.flusher.reserved = [])
    (hcalls : db'.calls = db.calls) :
    Renumbers db db' [.call (.add_sst ctx.new_sst_id 0), .call (.remove_wal ctx.old_wal_id),
      .remove_wal ctx.old_wal_id] := by
  refine .lists ctx.new_sst_id ?_ ?_
  · rw [reserved, hflusher, hcalls, hbuilt]
    exact List.Subperm.refl _
  · rintro event hevent id ⟨level, rfl⟩
    simp only [List.mem_cons, Event.call.injEq, ManifestCall.add_sst.injEq, reduceCtorEq,
      List.not_mem_nil, or_false] at hevent
    exact hevent.1

/-- A call takes the number that it allocates. -/
theorem Renumbers.compact_prepare {owner : Owner} {ctx : L0ToL1Ctx}
    (hid : ctx.new_sst_id = some (db.levels.manifest.state.next_file_number + 1))
    (hflusher : db.flusher.Moves db'.flusher) (hcalls : db'.calls = db.calls ++ [⟨owner, ctx, none⟩]) :
    Renumbers db db' [.call .allocate_file_number] := by
  refine .allocates ?_ rfl
  rw [hcalls, reserved, List.map_append, ← List.append_assoc]
  refine List.Subperm.trans ?_ (List.perm_append_singleton _ _).subperm
  simp only [List.map_cons, List.map_nil, L0ToL1Ctx.new_id, hid, Option.getD_some]
  exact ((hflusher.reserved_sublist _).append_right _).subperm

/-- A call ends and its number is dropped. -/
theorem Renumbers.compact_end {events : List Event} {index : Nat} {call : CompactCall}
    (hcall : db.calls[index]? = some call) (hflusher : db.flusher.Moves db'.flusher)
    (hcalls : db'.calls = db.calls.eraseIdx index) (hsilent : ∀ event ∈ events, ∀ id, ¬ event.Adds id) :
    Renumbers db db' events := by
  refine .drops ?_ hsilent
  rw [hcalls]
  exact (List.sublist_cons_self _ _).subperm.trans (reserved_erase hcall hflusher)

/-- A call lists the table that it has built. -/
theorem Renumbers.compact_install {index : Nat} {owner : Owner} {ctx : L0ToL1Ctx} {reader : SSTableReader}
    (hcall : db.calls[index]? = some ⟨owner, ctx, some (some reader)⟩) (hflusher : db.flusher.Moves db'.flusher)
    (hcalls : db'.calls = db.calls.eraseIdx index) :
    Renumbers db db' (.call (.add_sst (ctx.new_sst_id.getD 0) 1) :: consumption ctx.l0_input_ids) := by
  refine .lists _ (hcalls ▸ reserved_erase hcall hflusher) ?_
  intro event hevent id hadds
  rcases List.mem_cons.mp hevent with rfl | hevent
  · obtain ⟨level, heq⟩ := hadds
    cases heq
    rfl
  · exact absurd hadds (Event.not_adds_consumption _ event hevent id)

/-- What a move does to the numbers of the tables that are not installed yet. -/
theorem Move.reserves {events : List Event} {ssts : ExtTreeMap Nat SSTable} (hmove : Move db ssts events db') :
    Renumbers db db' events := by
  cases hmove with
  | quiet _ hflusher hcalls => exact .drops (hcalls ▸ (hflusher.reserved_sublist _).subperm) (by simp)
  | rotate _ _ hflusher hcalls => exact .same (by rw [hflusher]) (by rw [hcalls]) (by simp [Event.Adds])
  | put_write _ hflusher hcalls => exact .same (by rw [hflusher]) (by rw [hcalls]) (by simp [Event.Adds])
  | minor_prepare hid _ hflusher hcalls => exact .minor_prepare hid hflusher hcalls
  | minor_build hprepared _ _ hflusher hcalls =>
    exact .same (by rw [hflusher, hprepared]; rfl) (by rw [hcalls]) (Event.not_adds_write (.inl rfl))
  | minor_build_fail hprepared _ hflusher hcalls =>
    exact .same (by rw [hflusher, hprepared]; rfl) (by rw [hcalls]) (Event.not_adds_write (.inr rfl))
  | minor_install hbuilt _ hflusher hcalls => exact .minor_install hbuilt hflusher hcalls
  | compact_prepare _ hid _ hflusher hcalls => exact .compact_prepare hid hflusher hcalls
  | compact_skip hcall _ hflusher hcalls =>
    exact .drops (by rw [hcalls, hflusher, reserved_set hcall (by rfl)]) (by simp)
  | compact_build hcall _ _ _ hflusher hcalls =>
    exact .drops (by rw [hcalls, hflusher, reserved_set hcall (by rfl)]) (Event.not_adds_write (.inl rfl))
  | compact_fail hcall _ _ hflusher hcalls =>
    exact .compact_end hcall hflusher hcalls (Event.not_adds_write (.inr rfl))
  | compact_abort hcall _ hflusher hcalls => exact .compact_end hcall hflusher hcalls (by simp)
  | compact_install hcall _ _ hflusher hcalls => exact .compact_install hcall hflusher hcalls
  | compact_consume hcall _ _ hflusher hcalls =>
    exact .compact_end hcall hflusher hcalls (Event.not_adds_consumption _)
  | compact_reject hcall _ _ hflusher hcalls => exact .compact_end hcall hflusher hcalls (by simp [Event.Adds])

/-- The listed tables after a move that lists no table. -/
theorem DBImpl.Holds.move {events : List Event} {ssts : ExtTreeMap Nat SSTable} (h : db.Holds data past)
    (hlisted : ListsAllocated db.levels.manifest.state data past) (hmove : Move db ssts events db')
    (hmanifest : db'.levels.manifest = afterAll db.levels.manifest events) :
    Script ListsAllocated db.levels.manifest.state data past events ∧ db'.Holds data' past' := by
  have hstate : db'.levels.manifest.state = stateAll db.levels.manifest.state events := by
    rw [hmanifest, afterAll_state]
  have hnext := next_le_stateAll events db.levels.manifest.state
  rw [← hstate] at hnext
  have hnumbered := hmove.numbered h.numbered
  rcases hmove.reserves with ⟨hsub, hadds⟩ | ⟨hsub, rfl⟩ | ⟨added, hsub, hadds⟩
  · refine ⟨hlisted.script fun event hevent id hadd => absurd hadd (hadds event hevent id), hnumbered,
      nodup_of_subperm hsub h.distinct, ?_, ?_⟩
    · exact fun id hid => (h.reserved_le id (hsub.subset hid)).trans hnext
    · intro id hid hmem
      rw [hstate] at hmem
      rcases mem_listed_stateAll hmem with ⟨event, hevent, hadd⟩ | hmem
      · exact hadds event hevent id hadd
      · exact h.unlisted id (hsub.subset hid) hmem
  · have hallocated : db'.levels.manifest.state.next_file_number =
        db.levels.manifest.state.next_file_number + 1 := by
      rw [hstate]
      rfl
    refine ⟨hlisted.script (by simp [Event.Adds]), hnumbered, ?_, ?_, ?_⟩
    · refine nodup_of_subperm hsub (List.nodup_cons.mpr ⟨?_, h.distinct⟩)
      intro hmem
      exact absurd (h.reserved_le _ hmem) (Nat.not_succ_le_self _)
    · intro id hid
      rw [hallocated]
      rcases List.mem_cons.mp (hsub.subset hid) with rfl | hid
      · exact Nat.le_refl _
      · exact (h.reserved_le id hid).trans (Nat.le_succ _)
    · intro id hid hmem
      rw [hstate] at hmem
      rcases List.mem_cons.mp (hsub.subset hid) with rfl | hid
      · exact absurd (hlisted _ hmem) (Nat.not_succ_le_self _)
      · exact h.unlisted id hid hmem
  · have hnew : added ∈ reserved db.flusher db.calls := hsub.subset List.mem_cons_self
    have hcons := nodup_of_subperm hsub h.distinct
    have hrest : ∀ id ∈ reserved db'.flusher db'.calls, id ∈ reserved db.flusher db.calls :=
      fun id hid => hsub.subset (List.mem_cons_of_mem _ hid)
    refine ⟨hlisted.script ?_, hnumbered, (List.nodup_cons.mp hcons).2, ?_, ?_⟩
    · intro event hevent id hadd
      rw [hadds event hevent id hadd]
      exact h.reserved_le added hnew
    · exact fun id hid => (h.reserved_le id (hrest id hid)).trans hnext
    · intro id hid hmem
      rw [hstate] at hmem
      rcases mem_listed_stateAll hmem with ⟨event, hevent, hadd⟩ | hmem
      · rw [hadds event hevent id hadd] at hid
        exact (List.nodup_cons.mp hcons).1 hid
      · exact h.unlisted id (hrest id hid) hmem

/-- While every scan stays within `int`, all listed tables have allocated numbers and
the reserved ones are not listed. -/
theorem ListsAllocated.preserved {opening : Disk → List DiskEffect → Prop}
    (hopening : ∀ disk trace, opening disk trace → disk.ScansInts) :
    Preserved opening (fun state data past => Numbered state data past ∧ ListsAllocated state data past)
      (fun db data past => db.Reserves data past ∧ db.Holds data past) := by
  refine (Numbered.preserved opening).extend ListsAllocated.lasting ?_ ?_ ?_
  · intro disk trace hdisk hnumbered _ hempty id hid
    obtain ⟨reader, hreader, rfl⟩ := (hopening disk trace hdisk).mem_scanned hempty hid
    exact hnumbered.ssts_le _ (hnumbered.found _ (scanned_reader_mem hreader))
  · intro disk trace db ids events _ _ _ hlisted hopened hevents hlevels
    subst hevents
    refine ⟨hlisted.script ?_, ?_⟩
    · rintro event hevent id ⟨level, rfl⟩
      simp [boot_events] at hevent
    · constructor <;> simp [reserved, hopened.flusher, hopened.calls, Flusher.reserved]
  · exact fun _ _ hlisted hholds hmove hmanifest => hholds.move hlisted hmove hmanifest

end

end NovaKV
