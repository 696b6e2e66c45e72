import NovaKV.Store.Listing

open Std
open NovaKV.Lib

namespace NovaKV

/-- The table whose deletion an effect records. -/
def DiskEffect.retired : DiskEffect → Option Nat
  | .manifest (.append_edit (.DelSST id)) => some id
  | _ => none

/-- The tables whose deletion has been recorded in the manifest, oldest first. -/
def retired (trace : List DiskEffect) : List Nat := trace.filterMap DiskEffect.retired

/-- Retired tables have numbers that were allocated once, and none whose file is
still there is listed. -/
structure RetiredUnlisted (state : ManifestState Nat) (data : Data) (past : List DiskEffect) : Prop where
  unlisted : ∀ id ∈ retired past, id ∈ data.ssts → id ∉ state.sst_levels
  retired_le : ∀ id ∈ retired past, id ≤ state.next_file_number

/-- No number that is reserved for a table has been retired. -/
def DBImpl.ReservesUnretired (db : DBImpl) (_ : Data) (past : List DiskEffect) : Prop :=
  ∀ id ∈ reserved db.flusher db.calls, id ∉ retired past

/-- A directory on which a scan finds no retired table, and no number that an `int`
cannot hold. -/
def ScansUnretired (disk : Disk) (trace : List DiskEffect) : Prop :=
  disk.ScansInts ∧ (disk.recovered.sst_levels.isEmpty = true → ∀ id ∈ retired trace, id ∉ disk.ssts)

section

variable {state : ManifestState Nat} {data : Data} {past : List DiskEffect}

theorem retired_append (first second : List DiskEffect) :
    retired (first ++ second) = retired first ++ retired second :=
  List.filterMap_append

theorem RetiredUnlisted.lasting : Lasting RetiredUnlisted where
  initial := ⟨nofun, nofun⟩
  down hnext hlisted h := by
    refine ⟨?_, by rw [hnext]; exact h.retired_le⟩
    intro id hid hfile hmem
    obtain ⟨level, hlevel⟩ := Option.isSome_iff_exists.mp (ExtTreeMap.mem_iff_isSome_getElem?.mp hmem)
    exact h.unlisted id hid hfile (ExtTreeMap.mem_iff_isSome_getElem?.mpr (by simp [hlisted id level hlevel]))

/-- The event lists or creates the table. -/
def Event.Brings (event : Event) (id : Nat) : Prop :=
  event.Adds id ∨ ∃ table, event = .create_sst id table

theorem Event.mem_ssts {event : Event} {id : Nat} (h : id ∈ (event.data data).ssts) :
    event.Brings id ∨ id ∈ data.ssts := by
  cases event with
  | create_sst other table =>
    rcases ExtTreeMap.mem_insert.mp h with heq | hmem
    · cases LawfulEqCmp.eq_of_compare heq
      exact .inl (.inr ⟨table, rfl⟩)
    · exact .inr hmem
  | remove_sst other => exact .inr (ExtTreeMap.mem_of_mem_erase h)
  | _ => exact .inr h

/-- What an event retires is no longer listed after it. -/
theorem Event.retired_note {event : Event} {id : Nat} (h : id ∈ NovaKV.retired (event.note state)) :
    id ∉ (event.state state).sst_levels ∧ event = .call (.remove_sst id) := by
  cases event with
  | call operation =>
    cases operation with
    | remove_sst other =>
      have heq : id = other := by simpa [NovaKV.retired, Event.note, ManifestCall.edit?, DiskEffect.retired] using h
      subst heq
      exact ⟨by simp [Event.state, ManifestCall.edit?, ManifestState.apply_edit], rfl⟩
    | add_wal other =>
      simp only [Event.note, ManifestCall.edit?] at h
      split at h <;> simp [NovaKV.retired, DiskEffect.retired] at h
    | remove_wal other =>
      simp only [Event.note, ManifestCall.edit?] at h
      split at h <;> simp [NovaKV.retired, DiskEffect.retired] at h
    | _ => simp [NovaKV.retired, Event.note, ManifestCall.edit?, DiskEffect.retired] at h
  | _ => simp [NovaKV.retired, Event.note, DiskEffect.retired] at h

theorem RetiredUnlisted.event {event : Event} (h : RetiredUnlisted state data past)
    (hbrings : ∀ id, event.Brings id → id ∉ retired past)
    (hretires : ∀ id, event = .call (.remove_sst id) → id ≤ state.next_file_number) :
    RetiredUnlisted (event.state state) (event.data data) (past ++ event.note state) := by
  refine ⟨?_, ?_⟩
  · intro id hid hfile hmem
    rw [retired_append] at hid
    rcases List.mem_append.mp hid with hold | hnew
    · rcases event.mem_listed hmem with hadds | hmem
      · exact hbrings id (.inl hadds) hold
      · rcases event.mem_ssts hfile with hbring | hfile
        · exact hbrings id hbring hold
        · exact h.unlisted id hold hfile hmem
    · exact (Event.retired_note hnew).1 hmem
  · intro id hid
    rw [retired_append] at hid
    rcases List.mem_append.mp hid with hold | hnew
    · exact (h.retired_le id hold).trans (event.next_le state)
    · exact (hretires id (Event.retired_note hnew).2).trans (event.next_le state)

/-- Events that bring in tables only from a list that holds no retired one, and that
retire none of that list. -/
theorem RetiredUnlisted.script {events : List Event} (numbers : List Nat) (h : RetiredUnlisted state data past)
    (hunretired : ∀ id ∈ numbers, id ∉ retired past)
    (hbrings : ∀ event ∈ events, ∀ id, event.Brings id → id ∈ numbers)
    (hretires : ∀ id, .call (.remove_sst id) ∈ events → id ≤ state.next_file_number ∧ id ∉ numbers) :
    Script RetiredUnlisted state data past events := by
  induction events generalizing state data past with
  | nil => trivial
  | cons event events ih =>
    have hafter : RetiredUnlisted (event.state state) (event.data data) (past ++ event.note state) :=
      h.event (fun id hbring => hunretired id (hbrings event List.mem_cons_self id hbring))
        (fun id heq => (hretires id (heq ▸ List.mem_cons_self)).1)
    refine ⟨hafter, ih hafter ?_ (fun other hother => hbrings other (List.mem_cons_of_mem _ hother)) ?_⟩
    · intro id hid hmem
      rw [retired_append] at hmem
      rcases List.mem_append.mp hmem with hold | hnew
      · exact hunretired id hid hold
      · exact (hretires id ((Event.retired_note hnew).2 ▸ List.mem_cons_self)).2 hid
    · intro id hid
      obtain ⟨hle, hnew⟩ := hretires id (List.mem_cons_of_mem _ hid)
      exact ⟨hle.trans (event.next_le state), hnew⟩

/-- The numbers that a list of events retires. -/
theorem mem_retired_noteAll {events : List Event} {id : Nat} (h : id ∈ retired (noteAll state events)) :
    .call (.remove_sst id) ∈ events := by
  induction events generalizing state with
  | nil => cases h
  | cons event events ih =>
    rw [noteAll, retired_append] at h
    rcases List.mem_append.mp h with hhead | hrest
    · rw [(Event.retired_note hhead).2]
      exact List.mem_cons_self
    · exact List.mem_cons_of_mem _ (ih hrest)

end

section

variable {db db' : DBImpl} {data data' : Data} {past : List DiskEffect}

theorem Levels.mem_of_unchanged {levels : Levels} {ctx : L0ToL1Ctx} (h : levels.inputs_unchanged ctx = true)
    {id : Nat} (hid : id ∈ ctx.l0_input_ids) : id ∈ levels.manifest.state.sst_levels := by
  simp only [Levels.inputs_unchanged, Bool.and_eq_true, beq_iff_eq] at h
  have hmem : id ∈ (l0_ids .forward levels.manifest.state).mergeSort := by
    rw [← h.2]
    exact List.mem_mergeSort.mpr hid
  rw [List.mem_mergeSort] at hmem
  obtain ⟨⟨other, level⟩, hentry, hother⟩ := List.mem_filterMap.mp hmem
  simp only [Option.ite_none_right_eq_some, Option.some.injEq] at hother
  rw [IterationOrder.mem_list, ExtTreeMap.mem_toList_iff_getElem?_eq_some, hother.2] at hentry
  exact ExtTreeMap.mem_iff_isSome_getElem?.mpr (by simp [hentry])

theorem mem_consumption {ids : List Nat} {id : Nat} (h : .call (.remove_sst id) ∈ consumption ids) :
    id ∈ ids := by
  simpa [consumption] using h

/-- A move retires only listed tables. -/
theorem Move.retires {events : List Event} {ssts : ExtTreeMap Nat SSTable} (hmove : Move db ssts events db')
    {id : Nat} (hid : .call (.remove_sst id) ∈ events) : id ∈ db.levels.manifest.state.sst_levels := by
  have hwrite : ∀ (number : Nat) (table : SSTable) (rest : List Event), rest = [] ∨ rest = [.remove_sst number] →
      Event.call (.remove_sst id) ∉ stale ssts number ++ .create_sst number table :: rest := by
    intro number table rest hrest hevent
    rcases List.mem_append.mp hevent with hevent | hevent
    · cases mem_stale hevent
    · rcases hrest with rfl | rfl <;> simp at hevent
  cases hmove with
  | minor_build => exact absurd hid (hwrite _ _ _ (.inl rfl))
  | minor_build_fail => exact absurd hid (hwrite _ _ _ (.inr rfl))
  | compact_build => exact absurd hid (hwrite _ _ _ (.inl rfl))
  | compact_fail => exact absurd hid (hwrite _ _ _ (.inr rfl))
  | compact_install _ hunchanged =>
    rcases List.mem_cons.mp hid with heq | hid
    · cases heq
    · exact db.levels.mem_of_unchanged hunchanged (mem_consumption hid)
  | compact_consume _ hunchanged => exact db.levels.mem_of_unchanged hunchanged (mem_consumption hid)
  | _ => simp at hid

/-- A move brings in only tables with reserved numbers. -/
theorem Move.brings {events : List Event} {ssts : ExtTreeMap Nat SSTable} (hmove : Move db ssts events db')
    (hnumbered : ∀ call ∈ db.calls, call.ctx.new_sst_id = some call.ctx.new_id) :
    ∀ event ∈ events, ∀ id, event.Brings id → id ∈ reserved db.flusher db.calls := by
  have hcall : ∀ {index : Nat} {call : CompactCall}, db.calls[index]? = some call →
      call.ctx.new_id ∈ reserved db.flusher db.calls :=
    fun h => List.mem_append_right _ (List.mem_map.mpr ⟨_, List.mem_of_getElem? h, rfl⟩)
  have hwrite : ∀ (number : Nat) (table : SSTable) (rest : List Event), rest = [] ∨ rest = [.remove_sst number] →
      ∀ event ∈ stale ssts number ++ .create_sst number table :: rest, ∀ id, event.Brings id → id = number := by
    rintro number table rest hrest event hevent id (⟨level, rfl⟩ | ⟨other, rfl⟩)
    · rcases List.mem_append.mp hevent with hevent | hevent
      · cases mem_stale hevent
      · rcases hrest with rfl | rfl <;> simp at hevent
    · rcases List.mem_append.mp hevent with hevent | hevent
      · cases mem_stale hevent
      · rcases hrest with rfl | rfl <;> simp at hevent <;> exact hevent.1
  have hnumber : ∀ {index id : Nat} {call : CompactCall}, db.calls[index]? = some call →
      call.ctx.new_sst_id = some id → id = call.ctx.new_id := by
    intro index id call hindex hid
    rw [hnumbered call (List.mem_of_getElem? hindex)] at hid
    exact (Option.some.inj hid).symm
  intro event hevent id hbring
  cases hmove with
  | minor_build hprepared =>
    rw [hwrite _ _ _ (.inl rfl) event hevent id hbring, hprepared]
    exact List.mem_cons_self
  | minor_build_fail hprepared =>
    rw [hwrite _ _ _ (.inr rfl) event hevent id hbring, hprepared]
    exact List.mem_cons_self
  | minor_install hbuilt =>
    rw [hbuilt]
    obtain ⟨level, rfl⟩ | ⟨table, rfl⟩ := hbring
    · simp only [List.mem_cons, Event.call.injEq, ManifestCall.add_sst.injEq, reduceCtorEq,
        List.not_mem_nil, or_false] at hevent
      rw [hevent.1]
      exact List.mem_cons_self
    · simp at hevent
  | compact_build hindex hid =>
    rw [hwrite _ _ _ (.inl rfl) event hevent id hbring, hnumber hindex hid]
    exact hcall hindex
  | compact_fail hindex hid =>
    rw [hwrite _ _ _ (.inr rfl) event hevent id hbring, hnumber hindex hid]
    exact hcall hindex
  | compact_install hindex =>
    have hconsumption : ∀ ids, event ∈ consumption ids → ¬ event.Brings id := by
      rintro ids hmem (⟨level, rfl⟩ | ⟨table, rfl⟩) <;> simp [consumption] at hmem
    rcases List.mem_cons.mp hevent with rfl | hevent
    · obtain ⟨level, heq⟩ | ⟨table, heq⟩ := hbring
      · cases heq
        exact hcall hindex
      · cases heq
    · exact absurd hbring (hconsumption _ hevent)
  | compact_consume hindex =>
    obtain ⟨level, rfl⟩ | ⟨table, rfl⟩ := hbring <;> simp [consumption] at hevent
  | _ => obtain ⟨level, rfl⟩ | ⟨table, rfl⟩ := hbring <;> simp at hevent

theorem DBImpl.ReservesUnretired.move {events : List Event} (h : db.ReservesUnretired data past)
    (hholds : db.Holds data past) (hlisted : ListsAllocated db.levels.manifest.state data past)
    (hretired : RetiredUnlisted db.levels.manifest.state data past) (hmove : Move db data.ssts events db') :
    Script RetiredUnlisted db.levels.manifest.state data past events ∧
      db'.ReservesUnretired (dataAll data events) (past ++ noteAll db.levels.manifest.state events) := by
  have hretires : ∀ id, .call (.remove_sst id) ∈ events →
      id ≤ db.levels.manifest.state.next_file_number ∧ id ∉ reserved db.flusher db.calls := by
    intro id hid
    have hmem := hmove.retires hid
    exact ⟨hlisted id hmem, fun hreserved => hholds.unlisted id hreserved hmem⟩
  have hkept : ∀ id ∈ reserved db.flusher db.calls,
      id ∉ retired (past ++ noteAll db.levels.manifest.state events) := by
    intro id hid hmem
    rw [retired_append] at hmem
    rcases List.mem_append.mp hmem with hold | hnew
    · exact h id hid hold
    · exact (hretires id (mem_retired_noteAll hnew)).2 hid
  refine ⟨hretired.script _ h (hmove.brings hholds.numbered) hretires, ?_⟩
  intro id hid
  rcases hmove.reserves with ⟨hsub, -⟩ | ⟨hsub, rfl⟩ | ⟨added, hsub, -⟩
  · exact hkept id (hsub.subset hid)
  · rcases List.mem_cons.mp (hsub.subset hid) with rfl | hid
    · intro hmem
      rw [retired_append, show retired (noteAll _ [.call .allocate_file_number]) = [] from rfl,
        List.append_nil] at hmem
      exact absurd (hretired.retired_le _ hmem) (Nat.not_succ_le_self _)
    · exact hkept id hid
  · exact hkept id (hsub.subset (List.mem_cons_of_mem _ hid))

theorem retired_notes (trace : List DiskEffect) : retired (notes trace) = retired trace :=
  filterMap_notes _ (fun _ => rfl) rfl

/-- While no scan finds a retired table, none of them is listed again. -/
theorem RetiredUnlisted.preserved : Preserved ScansUnretired
    (fun state data past =>
      (Numbered state data past ∧ ListsAllocated state data past) ∧ RetiredUnlisted state data past)
    (fun db data past =>
      (db.Reserves data past ∧ db.Holds data past) ∧ db.ReservesUnretired data past) := by
  refine (ListsAllocated.preserved fun _ _ h => h.1).extend RetiredUnlisted.lasting ?_ ?_ ?_
  · intro disk trace hdisk _ hretired hempty
    refine ⟨?_, hretired.retired_le⟩
    intro id hid hfile
    rw [retired_notes] at hid
    exact absurd hfile (hdisk.2 hempty id hid)
  · intro disk trace db ids events _ _ _ hretired hopened hevents _
    subst hevents
    refine ⟨hretired.script [] nofun ?_ ?_, ?_⟩
    · rintro event hevent id (⟨level, rfl⟩ | ⟨table, rfl⟩) <;> simp [boot_events] at hevent
    · intro id hid
      simp [boot_events] at hid
    · simp [DBImpl.ReservesUnretired, reserved, hopened.flusher, hopened.calls, Flusher.reserved]
  · exact fun hJ hK hretired h hmove _ => h.move hK.2 hJ.2 hretired hmove

/-- A retired table does not come back: on a directory that sessions have led to, and
whose scans, this one and all earlier ones, find no retired table, `LoadSSTables`
opens no table whose deletion was recorded. -/
theorem History.retired_not_opened {disk : Disk} {trace : List DiskEffect}
    (h : History ScansUnretired none disk trace) (hopening : ScansUnretired disk trace)
    {order : IterationOrder Nat} {db : DBImpl} (hopen : ((DBImpl.open order) disk).1 = some db) {id : Nat}
    (hid : id ∈ retired trace) : ∀ reader ∈ db.levels.l0 ++ db.levels.l1, reader.file_number ≠ id := by
  have hsettled := (RetiredUnlisted.preserved.history h).1 rfl
  obtain ⟨-, hretired⟩ := hsettled.recovered RetiredUnlisted.preserved.lasting
  obtain ⟨db', ids, heq, -, -, hlevels⟩ := DBImpl.open_eq order hsettled.opens
  rw [heq] at hopen
  cases hopen
  rw [hlevels]
  rintro reader hreader rfl
  by_cases hempty : disk.recovered.sst_levels.isEmpty = true
  · simp only [Disk.loaded, hempty, if_true, List.append_nil] at hreader
    exact hopening.2 hempty _ hid (scanned_reader_mem hreader)
  · simp only [Disk.loaded, hempty, Bool.false_eq_true, if_false] at hreader
    have hlisted : ∃ level, disk.ssts[reader.file_number]? = some reader.table ∧
        disk.recovered.sst_levels[reader.file_number]? = some level := by
      rcases List.mem_append.mp hreader with hreader | hreader
      · exact ⟨_, level_reader_mem hreader⟩
      · exact ⟨_, level_reader_mem hreader⟩
    obtain ⟨level, hfile, hlevel⟩ := hlisted
    have hpresent : reader.file_number ∈ disk.ssts :=
      ExtTreeMap.mem_iff_isSome_getElem?.mpr (by simp [hfile])
    rw [← retired_notes] at hid
    exact hretired.unlisted _ hid hpresent (ExtTreeMap.mem_iff_isSome_getElem?.mpr (by simp [hlevel]))

end

/-- A deletion and a clean close. -/
def deleteActs : List Act :=
  [.put_lock [] ⟨.kDeletion, []⟩, .put_write, .stop, .bg_wake, .last_flush, .minor_prepare,
    .minor_build true, .minor_install]

/-- A session that leaves one table, and a compaction of it without an output up to
its installation. -/
structure Retirement where
  first : System
  closed : System
  second : System
  prepared : System
  program : FileM DBImpl
  first_eq : System.open .forward .empty = some first
  closed_eq : first.run deleteActs = some closed
  second_eq : System.open .forward closed.disk = some second
  prepared_eq : second.run [.compact_prepare .caller .forward, .compact_build 0 true] = some prepared
  program_eq : prepared.db.program (.compact_install 0) = some program

/-- What the crash after the first file effect of the installation leads to, and
what its completion leads to. -/
theorem exists_retirement : ∃ run : Retirement,
    run.closed.disk.recovered.sst_levels.isEmpty = false ∧
      retired ((run.program run.prepared.disk).2.take 1) = [2] ∧
      ((System.open .forward (applyAll run.prepared.disk ((run.program run.prepared.disk).2.take 1))).map
        fun system => system.db.levels.l0.map SSTableReader.file_number) = some [2] ∧
      retired (run.program run.prepared.disk).2 = [2] ∧
      (run.program.final run.prepared.disk).ssts.keys = [] := by
  have hrun : (do
      let first ← System.open .forward .empty
      let closed ← first.run deleteActs
      let second ← System.open .forward closed.disk
      let prepared ← second.run [.compact_prepare .caller .forward, .compact_build 0 true]
      let program ← prepared.db.program (.compact_install 0)
      if closed.disk.recovered.sst_levels.isEmpty = false ∧
          retired ((program prepared.disk).2.take 1) = [2] ∧
          ((System.open .forward (applyAll prepared.disk ((program prepared.disk).2.take 1))).map
            fun system => system.db.levels.l0.map SSTableReader.file_number) = some [2] ∧
          retired (program prepared.disk).2 = [2] ∧
          (program.final prepared.disk).ssts.keys = [] then some () else none) = some () := by
    decide +kernel
  simp only [Option.bind_eq_bind, Option.bind_eq_some_iff] at hrun
  obtain ⟨first, hfirst, closed, hclosed, second, hsecond, prepared, hprepared, program, hprogram, hif⟩ := hrun
  simp only [Option.ite_none_right_eq_some, and_true] at hif
  exact ⟨⟨first, closed, second, prepared, program, hfirst, hclosed, hsecond, hprepared, hprogram⟩, hif⟩

theorem Retirement.history (run : Retirement) (opening : Disk → List DiskEffect → Prop)
    (hfirst : opening .empty []) (hsecond : ∀ trace, opening run.closed.disk trace) :
    ∃ trace, History opening (some run.prepared.db) run.prepared.disk trace := by
  obtain ⟨_, hopened⟩ := History.opened .empty hfirst run.first_eq
  obtain ⟨_, hclosed⟩ := hopened.run run.closed_eq
  obtain ⟨_, hreopened⟩ := hclosed.quit.opened (hsecond _) run.second_eq
  exact hreopened.run run.prepared_eq

/-- The compaction completes, so a scan finds nothing. -/
theorem retired_not_opened_after_removal :
    ∃ disk trace db, History ScansUnretired none disk trace ∧ ScansUnretired disk trace ∧
      ((DBImpl.open .forward) disk).1 = some db ∧ 2 ∈ retired trace ∧
      ∀ reader ∈ db.levels.l0 ++ db.levels.l1, reader.file_number ≠ 2 := by
  obtain ⟨run, hlisted, -, -, hretired, hremoved⟩ := exists_retirement
  have hempty : ∀ {disk : Disk}, disk.ssts.keys = [] → ∀ trace, ScansUnretired disk trace := by
    intro disk hkeys trace
    have hnone : ∀ id, id ∉ disk.ssts := by
      intro id hid
      have hkey := ExtTreeMap.mem_keys.mpr hid
      rw [hkeys] at hkey
      cases hkey
    exact ⟨fun _ id hid => absurd hid (hnone id), fun _ id _ => hnone id⟩
  obtain ⟨trace, hprepared⟩ := run.history ScansUnretired (hempty rfl []) fun trace =>
    ⟨fun hnone => by simp [hlisted] at hnone, fun hnone => by simp [hlisted] at hnone⟩
  have hdone := (History.step hprepared run.program_eq).quit
  have hscan := hempty hremoved (trace ++ (run.program run.prepared.disk).2)
  have hid : 2 ∈ retired (trace ++ (run.program run.prepared.disk).2) := by
    rw [retired_append, hretired]
    simp
  obtain ⟨db, ids, heq, -⟩ := DBImpl.open_eq .forward
    ((RetiredUnlisted.preserved.history hdone).1 rfl).opens
  have hopen : ((DBImpl.open .forward) (run.program.final run.prepared.disk)).1 = some db := by rw [heq]
  exact ⟨_, _, db, hdone, hscan, hopen, hid, History.retired_not_opened hdone hscan hopen hid⟩

/-- A crash right after the deletion of the only table is recorded: the manifest then
lists no table, and the scan opens the file that is still there. -/
theorem retired_opened_by_scan :
    ¬ ∀ (disk : Disk) (trace : List DiskEffect), History (fun _ _ => True) none disk trace →
      ∀ (order : IterationOrder Nat) (db : DBImpl), ((DBImpl.open order) disk).1 = some db →
        ∀ id ∈ retired trace, ∀ reader ∈ db.levels.l0 ++ db.levels.l1, reader.file_number ≠ id := by
  intro hall
  obtain ⟨run, -, hretired, hopened, -⟩ := exists_retirement
  obtain ⟨trace, hprepared⟩ := run.history (fun _ _ => True) trivial fun _ => trivial
  have hcrash := History.crash hprepared run.program_eq (List.take_prefix 1 _)
  obtain ⟨system, hsystem, hl0⟩ := Option.map_eq_some_iff.mp hopened
  obtain ⟨db, hdb, rfl⟩ := Option.map_eq_some_iff.mp hsystem
  have hreader : 2 ∈ db.levels.l0.map SSTableReader.file_number := by
    rw [hl0]
    exact List.mem_cons_self
  obtain ⟨reader, hmem, hnumber⟩ := List.mem_map.mp hreader
  refine hall _ _ hcrash .forward db hdb 2 ?_ reader (List.mem_append_left _ hmem) hnumber
  rw [retired_append, hretired]
  simp

end NovaKV
