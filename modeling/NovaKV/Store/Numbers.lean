import NovaKV.Store.Boot

open Std
open NovaKV.Lib

namespace NovaKV

/-- The number that an effect records as allocated. `AllocateFileNumber` returns it,
and nothing else appends this edit. -/
def DiskEffect.allocated : DiskEffect → Option Nat
  | .manifest (.append_edit (.SetNextFileNumber number)) => some number
  | _ => none

def DiskEffect.created_wal : DiskEffect → Option Nat
  | .create_wal id => some id
  | _ => none

def DiskEffect.created_sst : DiskEffect → Option Nat
  | .create_sst id _ => some id
  | _ => none

/-- The numbers that `AllocateFileNumber` has returned, oldest first. -/
def allocations (trace : List DiskEffect) : List Nat := trace.filterMap DiskEffect.allocated

/-- The logs and the tables that have been created, oldest first. -/
def created_wals (trace : List DiskEffect) : List Nat := trace.filterMap DiskEffect.created_wal

def created_ssts (trace : List DiskEffect) : List Nat := trace.filterMap DiskEffect.created_sst

theorem filterMap_notes {f : DiskEffect → Option Nat} (trace : List DiskEffect)
    (hsnapshot : ∀ snapshot, f (.manifest (.rename_snapshot snapshot)) = none)
    (htruncate : f (.manifest .truncate_log) = none) : (notes trace).filterMap f = trace.filterMap f := by
  rw [notes, List.filterMap_filter]
  apply List.filterMap_congr
  intro effect _
  cases effect with
  | manifest effect => cases effect <;> simp [DiskEffect.is_note, hsnapshot, htruncate]
  | _ => rfl

/-- All numbers so far come from the counter, each used once for a log or a table. -/
structure Numbered (state : ManifestState Nat) (data : Data) (past : List DiskEffect) : Prop where
  increasing : (allocations past).Pairwise (· < ·)
  allocated_le : ∀ id ∈ allocations past, id ≤ state.next_file_number
  wals : (created_wals past).Nodup
  wals_le : ∀ id ∈ created_wals past, id ≤ state.next_file_number
  ssts : (created_ssts past).Nodup
  ssts_le : ∀ id ∈ created_ssts past, id ≤ state.next_file_number
  found : ∀ id ∈ data.ssts, id ∈ created_ssts past

/-- The number allocated for a table that is not written yet. -/
def Flusher.unbuilt : Flusher → List Nat
  | .prepared ctx => [ctx.new_sst_id]
  | _ => []

def CompactCall.unbuilt (self : CompactCall) : List Nat :=
  if self.reader.isNone then self.ctx.new_sst_id.toList else []

def DBImpl.unbuilt (self : DBImpl) : List Nat := self.flusher.unbuilt ++ self.calls.flatMap CompactCall.unbuilt

/-- The tables still to be written have numbers of their own. -/
structure DBImpl.Reserves (db : DBImpl) (data : Data) (past : List DiskEffect) : Prop where
  distinct : db.unbuilt.Nodup
  unbuilt_le : ∀ id ∈ db.unbuilt, id ≤ db.levels.manifest.state.next_file_number
  unused : ∀ id ∈ db.unbuilt, id ∉ created_ssts past

/-- An event creates no file under a number that is in use. -/
def Event.IsNew (state : ManifestState Nat) (past : List DiskEffect) : Event → Prop
  | .create_wal id => id ≤ state.next_file_number ∧ id ∉ created_wals past
  | .create_sst id _ => id ≤ state.next_file_number ∧ id ∉ created_ssts past
  | _ => True

section

variable {state : ManifestState Nat} {data : Data} {past : List DiskEffect}

theorem Numbered.congr {other : ManifestState Nat} (h : Numbered state data past)
    (hnext : other.next_file_number = state.next_file_number) : Numbered other data past := by
  refine ⟨h.increasing, ?_, h.wals, ?_, h.ssts, ?_, h.found⟩ <;> rw [hnext]
  · exact h.allocated_le
  · exact h.wals_le
  · exact h.ssts_le

theorem Numbered.lasting : Lasting Numbered where
  initial := ⟨.nil, nofun, .nil, nofun, .nil, nofun, by simp⟩
  down hnext _ h := h.congr hnext

/-- The next number is allocated. -/
theorem Numbered.allocate (h : Numbered state data past) :
    Numbered { state with next_file_number := state.next_file_number + 1 } data
      (past ++ [.manifest (.append_edit (.SetNextFileNumber (state.next_file_number + 1)))]) := by
  have hallocations : allocations (past ++
      [.manifest (.append_edit (.SetNextFileNumber (state.next_file_number + 1)))]) =
        allocations past ++ [state.next_file_number + 1] := by simp [allocations, DiskEffect.allocated]
  have hwals : created_wals (past ++
      [.manifest (.append_edit (.SetNextFileNumber (state.next_file_number + 1)))]) = created_wals past := by
    simp [created_wals, DiskEffect.created_wal]
  have hssts : created_ssts (past ++
      [.manifest (.append_edit (.SetNextFileNumber (state.next_file_number + 1)))]) = created_ssts past := by
    simp [created_ssts, DiskEffect.created_sst]
  refine ⟨?_, ?_, ?_, ?_, ?_, ?_, ?_⟩
  · rw [hallocations, List.pairwise_append]
    refine ⟨h.increasing, List.pairwise_singleton _ _, ?_⟩
    rintro id hid _ (_ | ⟨_, ⟨⟩⟩)
    exact Nat.lt_succ_of_le (h.allocated_le id hid)
  · rw [hallocations]
    intro id hid
    rcases List.mem_append.mp hid with hid | hid
    · exact (h.allocated_le id hid).trans (Nat.le_succ _)
    · exact (List.mem_singleton.mp hid).le
  · rw [hwals]
    exact h.wals
  · rw [hwals]
    exact fun id hid => (h.wals_le id hid).trans (Nat.le_succ _)
  · rw [hssts]
    exact h.ssts
  · rw [hssts]
    exact fun id hid => (h.ssts_le id hid).trans (Nat.le_succ _)
  · rw [hssts]
    exact h.found

/-- Effects that allocate nothing and create nothing. -/
theorem Numbered.quiet {state' : ManifestState Nat} {data' : Data} {new : List DiskEffect}
    (h : Numbered state data past) (hnext : state'.next_file_number = state.next_file_number)
    (hallocations : allocations new = []) (hwals : created_wals new = []) (hssts : created_ssts new = [])
    (hfound : ∀ id ∈ data'.ssts, id ∈ data.ssts) : Numbered state' data' (past ++ new) := by
  have h1 : allocations (past ++ new) = allocations past := by
    rw [allocations, List.filterMap_append]
    exact (congrArg _ hallocations).trans (List.append_nil _)
  have h2 : created_wals (past ++ new) = created_wals past := by
    rw [created_wals, List.filterMap_append]
    exact (congrArg _ hwals).trans (List.append_nil _)
  have h3 : created_ssts (past ++ new) = created_ssts past := by
    rw [created_ssts, List.filterMap_append]
    exact (congrArg _ hssts).trans (List.append_nil _)
  refine ⟨?_, ?_, ?_, ?_, ?_, ?_, ?_⟩ <;> simp only [h1, h2, h3, hnext]
  · exact h.increasing
  · exact h.allocated_le
  · exact h.wals
  · exact h.wals_le
  · exact h.ssts
  · exact h.ssts_le
  · exact fun id hid => h.found id (hfound id hid)

theorem Numbered.create_wal (h : Numbered state data past) {id : Nat}
    (wals : ExtTreeMap Nat (List WalRecord)) (hid : id ≤ state.next_file_number)
    (hnew : id ∉ created_wals past) :
    Numbered state { data with wals := wals } (past ++ [.create_wal id]) := by
  have hwals : created_wals (past ++ [.create_wal id]) = created_wals past ++ [id] := by
    simp [created_wals, DiskEffect.created_wal]
  have hallocations : allocations (past ++ [.create_wal id]) = allocations past := by
    simp [allocations, DiskEffect.allocated]
  have hssts : created_ssts (past ++ [.create_wal id]) = created_ssts past := by
    simp [created_ssts, DiskEffect.created_sst]
  refine ⟨?_, ?_, ?_, ?_, ?_, ?_, ?_⟩ <;> simp only [hwals, hallocations, hssts]
  · exact h.increasing
  · exact h.allocated_le
  · rw [← List.concat_eq_append]
    exact h.wals.concat hnew
  · intro other hother
    rcases List.mem_append.mp hother with hother | hother
    · exact h.wals_le other hother
    · exact List.mem_singleton.mp hother ▸ hid
  · exact h.ssts
  · exact h.ssts_le
  · exact h.found

theorem Numbered.create_sst (h : Numbered state data past) {id : Nat} (table : SSTable)
    (hid : id ≤ state.next_file_number) (hnew : id ∉ created_ssts past) :
    Numbered state { data with ssts := data.ssts.insert id table } (past ++ [.create_sst id table]) := by
  have hwals : created_wals (past ++ [.create_sst id table]) = created_wals past := by
    simp [created_wals, DiskEffect.created_wal]
  have hallocations : allocations (past ++ [.create_sst id table]) = allocations past := by
    simp [allocations, DiskEffect.allocated]
  have hssts : created_ssts (past ++ [.create_sst id table]) = created_ssts past ++ [id] := by
    simp [created_ssts, DiskEffect.created_sst]
  refine ⟨?_, ?_, ?_, ?_, ?_, ?_, ?_⟩ <;> simp only [hwals, hallocations, hssts]
  · exact h.increasing
  · exact h.allocated_le
  · exact h.wals
  · exact h.wals_le
  · rw [← List.concat_eq_append]
    exact h.ssts.concat hnew
  · intro other hother
    rcases List.mem_append.mp hother with hother | hother
    · exact h.ssts_le other hother
    · exact List.mem_singleton.mp hother ▸ hid
  · intro other hother
    rw [ExtTreeMap.mem_insert] at hother
    rcases hother with heq | hother
    · simp [LawfulEqCmp.eq_of_compare heq]
    · exact List.mem_append_left _ (h.found other hother)

/-- One event, if it creates no file under a number in use. -/
theorem Numbered.event (h : Numbered state data past) {event : Event} (hnew : event.IsNew state past) :
    Numbered (event.state state) (event.data data) (past ++ event.note state) := by
  cases event with
  | call operation =>
    cases operation with
    | allocate_file_number => exact h.allocate
    | add_wal id =>
      simp only [Event.state, Event.note, ManifestCall.edit?]
      split <;> exact h.quiet rfl rfl rfl rfl fun _ hfile => hfile
    | remove_wal id =>
      simp only [Event.state, Event.note, ManifestCall.edit?]
      split <;> exact h.quiet rfl rfl rfl rfl fun _ hfile => hfile
    | add_sst id level => exact h.quiet rfl rfl rfl rfl fun _ hfile => hfile
    | remove_sst id => exact h.quiet rfl rfl rfl rfl fun _ hfile => hfile
  | create_wal id => exact h.create_wal _ hnew.1 hnew.2
  | append_wal id record => exact h.quiet rfl rfl rfl rfl fun _ hfile => hfile
  | remove_wal id => exact h.quiet rfl rfl rfl rfl fun _ hfile => hfile
  | create_sst id table => exact h.create_sst table hnew.1 hnew.2
  | remove_sst id => exact h.quiet rfl rfl rfl rfl fun _ => ExtTreeMap.mem_of_mem_erase

/-- Events that create no file at all. -/
def Event.CreatesNothing : Event → Prop
  | .create_wal _ => False
  | .create_sst _ _ => False
  | _ => True

theorem Numbered.script (h : Numbered state data past) {events : List Event}
    (hplain : ∀ event ∈ events, event.CreatesNothing) : Script Numbered state data past events := by
  induction events generalizing state data past with
  | nil => trivial
  | cons event events ih =>
    have hevent : event.CreatesNothing := hplain event List.mem_cons_self
    have hnew : event.IsNew state past := by
      cases event with
      | create_wal id => exact hevent.elim
      | create_sst id table => exact hevent.elim
      | _ => trivial
    have hafter := h.event hnew
    exact ⟨hafter, ih hafter fun other hother => hplain other (List.mem_cons_of_mem _ hother)⟩

theorem created_ssts_noteAll {events : List Event} (hplain : ∀ event ∈ events, event.CreatesNothing)
    (state : ManifestState Nat) : created_ssts (noteAll state events) = [] := by
  induction events generalizing state with
  | nil => rfl
  | cons event events ih =>
    have hevent : event.CreatesNothing := hplain event List.mem_cons_self
    have hnote : created_ssts (event.note state) = [] := by
      cases event with
      | call operation =>
        simp only [Event.note]
        cases operation.edit? state <;> rfl
      | create_wal id => exact hevent.elim
      | create_sst id table => exact hevent.elim
      | _ => rfl
    rw [noteAll, created_ssts, List.filterMap_append]
    exact List.append_eq_nil_iff.mpr
      ⟨hnote, ih (fun other hother => hplain other (List.mem_cons_of_mem _ hother)) _⟩

theorem consumption_createsNothing (ids : List Nat) :
    ∀ event ∈ consumption ids, event.CreatesNothing := by
  intro event hevent
  simp only [consumption, List.mem_flatMap, List.mem_cons, List.not_mem_nil, or_false] at hevent
  obtain ⟨id, -, rfl | rfl⟩ := hevent <;> trivial

theorem Event.next_le (event : Event) (state : ManifestState Nat) :
    state.next_file_number ≤ (event.state state).next_file_number := by
  cases event with
  | call operation =>
    cases operation with
    | allocate_file_number => exact Nat.le_succ _
    | add_wal id =>
      simp only [Event.state, ManifestCall.edit?]
      split <;> exact Nat.le_refl _
    | remove_wal id =>
      simp only [Event.state, ManifestCall.edit?]
      split <;> exact Nat.le_refl _
    | _ => exact Nat.le_refl _
  | _ => exact Nat.le_refl _

theorem next_le_stateAll (events : List Event) (state : ManifestState Nat) :
    state.next_file_number ≤ (stateAll state events).next_file_number := by
  induction events generalizing state with
  | nil => exact Nat.le_refl _
  | cons event events ih => exact (event.next_le state).trans (ih _)

end

section

variable {db db' : DBImpl} {data data' : Data} {past new : List DiskEffect}

theorem created_ssts_append (first second : List DiskEffect) :
    created_ssts (first ++ second) = created_ssts first ++ created_ssts second :=
  List.filterMap_append

theorem nodup_of_subperm {first second : List Nat} (hsub : first.Subperm second) (h : second.Nodup) :
    first.Nodup := by
  obtain ⟨middle, hperm, hsublist⟩ := hsub
  exact hperm.nodup_iff.mp (h.sublist hsublist)

/-- No new number is reserved. -/
theorem DBImpl.Reserves.shrink (h : db.Reserves data past) (hsub : db'.unbuilt.Subperm db.unbuilt)
    (hnext : db.levels.manifest.state.next_file_number ≤ db'.levels.manifest.state.next_file_number)
    (hnew : created_ssts new = []) : db'.Reserves data' (past ++ new) where
  distinct := nodup_of_subperm hsub h.distinct
  unbuilt_le id hid := (h.unbuilt_le id (hsub.subset hid)).trans hnext
  unused id hid := by
    rw [created_ssts_append, hnew, List.append_nil]
    exact h.unused id (hsub.subset hid)

/-- The number just allocated is reserved for a table. -/
theorem DBImpl.Reserves.reserve (h : db.Reserves data past)
    (hnumbered : Numbered db.levels.manifest.state data past) {id : Nat}
    (hid : id = db.levels.manifest.state.next_file_number + 1)
    (hsub : db'.unbuilt.Subperm (id :: db.unbuilt))
    (hnext : db'.levels.manifest.state.next_file_number = id)
    (hnew : created_ssts new = []) : db'.Reserves data' (past ++ new) where
  distinct := by
    refine nodup_of_subperm hsub (List.nodup_cons.mpr ⟨?_, h.distinct⟩)
    intro hmem
    have hle := h.unbuilt_le id hmem
    omega
  unbuilt_le other hother := by
    rcases List.mem_cons.mp (hsub.subset hother) with rfl | hother
    · exact hnext.ge
    · have hle := h.unbuilt_le other hother
      omega
  unused other hother := by
    rw [created_ssts_append, hnew, List.append_nil]
    rcases List.mem_cons.mp (hsub.subset hother) with rfl | hother
    · intro hused
      have hle := hnumbered.ssts_le other hused
      omega
    · exact h.unused other hother

/-- A reserved table is written. -/
theorem DBImpl.Reserves.build (h : db.Reserves data past) {id : Nat}
    (hsub : (id :: db'.unbuilt).Subperm db.unbuilt)
    (hnext : db.levels.manifest.state.next_file_number ≤ db'.levels.manifest.state.next_file_number)
    (hnew : created_ssts new = [id]) : db'.Reserves data' (past ++ new) where
  distinct := (List.nodup_cons.mp (nodup_of_subperm hsub h.distinct)).2
  unbuilt_le other hother := (h.unbuilt_le other (hsub.subset (List.mem_cons_of_mem _ hother))).trans hnext
  unused other hother := by
    rw [created_ssts_append, hnew, List.mem_append, List.mem_singleton]
    rintro (hused | rfl)
    · exact h.unused other (hsub.subset (List.mem_cons_of_mem _ hother)) hused
    · exact (List.nodup_cons.mp (nodup_of_subperm hsub h.distinct)).1 hother

theorem unbuilt_eraseIdx_perm {calls : List CompactCall} {index : Nat} {call : CompactCall}
    (hcall : calls[index]? = some call) :
    (calls.flatMap CompactCall.unbuilt).Perm
      (call.unbuilt ++ (calls.eraseIdx index).flatMap CompactCall.unbuilt) := by
  obtain ⟨hindex, rfl⟩ := List.getElem?_eq_some_iff.mp hcall
  simpa using ((List.getElem_cons_eraseIdx_perm hindex).flatMap_right CompactCall.unbuilt).symm

theorem unbuilt_set_perm {calls : List CompactCall} {index : Nat} {call : CompactCall} (after : CompactCall)
    (hcall : calls[index]? = some call) :
    ((calls.set index after).flatMap CompactCall.unbuilt).Perm
      (after.unbuilt ++ (calls.eraseIdx index).flatMap CompactCall.unbuilt) := by
  obtain ⟨hindex, rfl⟩ := List.getElem?_eq_some_iff.mp hcall
  simpa using (List.set_perm_cons_eraseIdx hindex after).flatMap_right CompactCall.unbuilt

theorem Flusher.Moves.unbuilt_sublist {before after : Flusher} (h : before.Moves after) :
    after.unbuilt.Sublist before.unbuilt := by
  rcases h with rfl | hreserved
  · exact List.Sublist.refl _
  · cases after with
    | prepared ctx => simp [Flusher.reserved] at hreserved
    | _ => exact List.nil_sublist _

/-- The calls of a database with one of them gone or past its building step. -/
theorem DBImpl.unbuilt_without {index : Nat} {call : CompactCall}
    (hflusher : db.flusher.Moves db'.flusher) (hcall : db.calls[index]? = some call)
    (hcalls : (db'.calls.flatMap CompactCall.unbuilt).Perm
      ((db.calls.eraseIdx index).flatMap CompactCall.unbuilt)) :
    (call.unbuilt ++ db'.unbuilt).Subperm db.unbuilt := by
  have hsub : (call.unbuilt ++ (db'.flusher.unbuilt ++ (db.calls.eraseIdx index).flatMap CompactCall.unbuilt)).Perm
      (db'.flusher.unbuilt ++ (call.unbuilt ++ (db.calls.eraseIdx index).flatMap CompactCall.unbuilt)) :=
    List.perm_append_comm_assoc _ _ _
  have hperm := (List.Perm.append_left db'.flusher.unbuilt (unbuilt_eraseIdx_perm hcall)).symm
  refine ((hcalls.append_left _).append_left _ |>.trans (hsub.trans hperm)).subperm.trans ?_
  exact (hflusher.unbuilt_sublist.append_right _).subperm

theorem DBImpl.unbuilt_erase {index : Nat} {call : CompactCall}
    (hflusher : db.flusher.Moves db'.flusher) (hcall : db.calls[index]? = some call)
    (hcalls : db'.calls = db.calls.eraseIdx index) : (call.unbuilt ++ db'.unbuilt).Subperm db.unbuilt :=
  DBImpl.unbuilt_without hflusher hcall (by rw [hcalls])

theorem DBImpl.unbuilt_set {index : Nat} {call after : CompactCall} (hflusher : db'.flusher = db.flusher)
    (hcall : db.calls[index]? = some call) (hafter : after.unbuilt = [])
    (hcalls : db'.calls = db.calls.set index after) : (call.unbuilt ++ db'.unbuilt).Subperm db.unbuilt := by
  refine DBImpl.unbuilt_without (.inl hflusher) hcall ?_
  rw [hcalls]
  simpa [hafter] using unbuilt_set_perm after hcall

/-- A reserved number has no file yet, so nothing stale is removed. -/
theorem DBImpl.Reserves.stale_eq_nil (h : db.Reserves data past)
    (hnumbered : Numbered db.levels.manifest.state data past) {id : Nat} (hid : id ∈ db.unbuilt) :
    stale data.ssts id = [] :=
  if_neg fun hfile => h.unused id hid (hnumbered.found id hfile)

/-- Writing a reserved table, and removing it again if it does not open. -/
theorem DBImpl.Reserves.write (h : db.Reserves data past)
    (hnumbered : Numbered db.levels.manifest.state data past) {id : Nat} {table : SSTable}
    {rest : List Event} (hsub : (id :: db'.unbuilt).Subperm db.unbuilt)
    (hmanifest : db'.levels = db.levels) (hrest : rest = [] ∨ rest = [.remove_sst id]) :
    Script Numbered db.levels.manifest.state data past (stale data.ssts id ++ .create_sst id table :: rest) ∧
      db'.Reserves (dataAll data (stale data.ssts id ++ .create_sst id table :: rest))
        (past ++ noteAll db.levels.manifest.state (stale data.ssts id ++ .create_sst id table :: rest)) := by
  have hid : id ∈ db.unbuilt := hsub.subset List.mem_cons_self
  rw [h.stale_eq_nil hnumbered hid, List.nil_append]
  have hcreated := hnumbered.create_sst table (h.unbuilt_le id hid) (h.unused id hid)
  refine ⟨⟨hcreated, hcreated.script ?_⟩, ?_⟩
  · rcases hrest with rfl | rfl
    · nofun
    · rintro _ (_ | ⟨_, ⟨⟩⟩)
      trivial
  · apply h.build hsub (by rw [hmanifest])
    rcases hrest with rfl | rfl <;> rfl

theorem Numbered.boot (ids : List Nat) {state : ManifestState Nat} (h : Numbered state data past) :
    Script Numbered state data past (boot_events (state.next_file_number + 1) ids) := by
  have hallocated := h.allocate
  have hcreated := hallocated.create_wal (data.wals.insertIfNew (state.next_file_number + 1) [])
    (Nat.le_refl _) (by
      intro hused
      rw [created_wals, List.filterMap_append, List.mem_append] at hused
      rcases hused with hused | hused
      · exact absurd (h.wals_le _ hused) (Nat.not_succ_le_self _)
      · simp [DiskEffect.created_wal] at hused)
  refine ⟨hallocated, hcreated, hcreated.script ?_⟩
  intro event hevent
  rcases List.mem_cons.mp hevent with rfl | hevent
  · trivial
  · obtain ⟨id, -, rfl⟩ := List.mem_map.mp hevent
    trivial

/-- What a move leads to: every state on its way has numbers of its own for its files,
and so have the tables that are not built yet. -/
def DBImpl.Renews (db db' : DBImpl) (data : Data) (past : List DiskEffect) (events : List Event) : Prop :=
  Script Numbered db.levels.manifest.state data past events ∧
    db'.Reserves (dataAll data events) (past ++ noteAll db.levels.manifest.state events)

/-- A move that creates no file and reserves no number. -/
theorem DBImpl.Reserves.plain {events : List Event} (h : db.Reserves data past)
    (hnumbered : Numbered db.levels.manifest.state data past)
    (hplain : ∀ event ∈ events, event.CreatesNothing) (hsub : db'.unbuilt.Subperm db.unbuilt)
    (hle : db.levels.manifest.state.next_file_number ≤ db'.levels.manifest.state.next_file_number) :
    db.Renews db' data past events :=
  ⟨hnumbered.script hplain, h.shrink hsub hle (created_ssts_noteAll hplain _)⟩

/-- A new memtable gets a log with the number just allocated. -/
theorem DBImpl.Reserves.rotate {id : Nat} (h : db.Reserves data past)
    (hnumbered : Numbered db.levels.manifest.state data past)
    (hid : id = db.levels.manifest.state.next_file_number + 1) (hflusher : db'.flusher = db.flusher)
    (hcalls : db'.calls = db.calls)
    (hle : db.levels.manifest.state.next_file_number ≤ db'.levels.manifest.state.next_file_number) :
    db.Renews db' data past [.call .allocate_file_number, .create_wal id, .call (.add_wal id)] := by
  subst hid
  refine ⟨hnumbered.boot [], h.shrink ?_ hle ?_⟩
  · rw [DBImpl.unbuilt, hflusher, hcalls]
    exact List.Subperm.refl _
  · simp only [noteAll, Event.note]
    cases (ManifestCall.add_wal (db.levels.manifest.state.next_file_number + 1)).edit? _ <;> rfl

/-- A number is allocated for a table. -/
theorem DBImpl.Reserves.allocate (h : db.Reserves data past)
    (hnumbered : Numbered db.levels.manifest.state data past)
    (hsub : db'.unbuilt.Subperm ((db.levels.manifest.state.next_file_number + 1) :: db.unbuilt))
    (hnext : db'.levels.manifest.state.next_file_number = db.levels.manifest.state.next_file_number + 1) :
    db.Renews db' data past [.call .allocate_file_number] :=
  ⟨hnumbered.script (by simp [Event.CreatesNothing]), h.reserve hnumbered rfl hsub hnext rfl⟩

theorem DBImpl.unbuilt_begun {owner : Owner} {ctx : L0ToL1Ctx} {id : Nat} (hid : ctx.new_sst_id = some id)
    (hflusher : db.flusher.Moves db'.flusher) (hcalls : db'.calls = db.calls ++ [⟨owner, ctx, none⟩]) :
    db'.unbuilt.Subperm (id :: db.unbuilt) := by
  rw [DBImpl.unbuilt, hcalls, List.flatMap_append, ← List.append_assoc]
  refine List.Subperm.trans ?_ (List.perm_append_singleton _ _).subperm
  simp only [List.flatMap_singleton, CompactCall.unbuilt, Option.isNone_none, if_true, hid, Option.toList_some]
  exact ((hflusher.unbuilt_sublist.append_right _).append_right _).subperm

theorem DBImpl.unbuilt_ended {index : Nat} {call : CompactCall} (hflusher : db.flusher.Moves db'.flusher)
    (hcall : db.calls[index]? = some call) (hcalls : db'.calls = db.calls.eraseIdx index) :
    db'.unbuilt.Subperm db.unbuilt :=
  (List.sublist_append_right _ _).subperm.trans (DBImpl.unbuilt_erase hflusher hcall hcalls)

theorem DBImpl.Reserves.move {events : List Event} (h : db.Reserves data past)
    (hnumbered : Numbered db.levels.manifest.state data past) (hmove : Move db data.ssts events db')
    (hmanifest : db'.levels.manifest = afterAll db.levels.manifest events) : db.Renews db' data past events := by
  have hnext : db'.levels.manifest.state.next_file_number =
      (stateAll db.levels.manifest.state events).next_file_number := by
    rw [hmanifest, afterAll_state]
  have hle := next_le_stateAll events db.levels.manifest.state
  rw [← hnext] at hle
  cases hmove with
  | quiet _ hflusher hcalls =>
    refine h.plain hnumbered nofun ?_ hle
    rw [DBImpl.unbuilt, hcalls]
    exact (hflusher.unbuilt_sublist.append_right _).subperm
  | rotate hid _ hflusher hcalls => exact h.rotate hnumbered hid hflusher hcalls hle
  | put_write _ hflusher hcalls =>
    refine h.plain hnumbered (by simp [Event.CreatesNothing]) ?_ hle
    rw [DBImpl.unbuilt, hflusher, hcalls]
    exact List.Subperm.refl _
  | minor_prepare hid _ hflusher hcalls =>
    refine h.allocate hnumbered ?_ hnext
    rw [DBImpl.unbuilt, hflusher, hcalls, ← hid]
    exact ((List.sublist_append_right _ _).cons_cons _).subperm
  | minor_build hprepared _ hlevels hflusher hcalls =>
    refine h.write hnumbered ?_ hlevels (.inl rfl)
    rw [DBImpl.unbuilt, DBImpl.unbuilt, hprepared, hflusher, hcalls]
    exact List.Subperm.refl _
  | minor_build_fail hprepared hlevels hflusher hcalls =>
    refine h.write hnumbered ?_ hlevels (.inr rfl)
    rw [DBImpl.unbuilt, DBImpl.unbuilt, hprepared, hflusher, hcalls]
    exact List.Subperm.refl _
  | minor_install _ _ hflusher hcalls =>
    refine h.plain hnumbered (by simp [Event.CreatesNothing]) ?_ hle
    rw [DBImpl.unbuilt, hcalls]
    exact ((Flusher.Moves.unbuilt_sublist (.inr hflusher)).append_right _).subperm
  | compact_prepare _ hid _ hflusher hcalls =>
    exact h.allocate hnumbered (DBImpl.unbuilt_begun hid hflusher hcalls) hnext
  | compact_skip hcall _ hflusher hcalls =>
    refine h.plain hnumbered nofun ?_ hle
    exact (List.sublist_append_right _ _).subperm.trans (DBImpl.unbuilt_set hflusher hcall rfl hcalls)
  | compact_build hcall hid _ hlevels hflusher hcalls =>
    refine h.write hnumbered ?_ hlevels (.inl rfl)
    simpa [CompactCall.unbuilt, hid] using DBImpl.unbuilt_set hflusher hcall rfl hcalls
  | compact_fail hcall hid hlevels hflusher hcalls =>
    refine h.write hnumbered ?_ hlevels (.inr rfl)
    simpa [CompactCall.unbuilt, hid] using DBImpl.unbuilt_erase hflusher hcall hcalls
  | compact_abort hcall _ hflusher hcalls =>
    exact h.plain hnumbered nofun (DBImpl.unbuilt_ended hflusher hcall hcalls) hle
  | compact_install hcall _ _ hflusher hcalls =>
    refine h.plain hnumbered ?_ (DBImpl.unbuilt_ended hflusher hcall hcalls) hle
    intro event hevent
    rcases List.mem_cons.mp hevent with rfl | hevent
    · trivial
    · exact consumption_createsNothing _ event hevent
  | compact_consume hcall _ _ hflusher hcalls =>
    exact h.plain hnumbered (consumption_createsNothing _) (DBImpl.unbuilt_ended hflusher hcall hcalls) hle
  | compact_reject hcall _ _ hflusher hcalls =>
    refine h.plain hnumbered ?_ (DBImpl.unbuilt_ended hflusher hcall hcalls) hle
    simp [Event.CreatesNothing]

/-- Files get numbers of their own, whatever directories are opened. -/
theorem Numbered.preserved (opening : Disk → List DiskEffect → Prop) :
    Preserved opening Numbered DBImpl.Reserves where
  lasting := Numbered.lasting
  scan _ h _ := (h.recovered Numbered.lasting).congr rfl
  boot _ _ h hopened hevents hlevels := by
    subst hevents
    refine ⟨h.boot _, ?_, ?_, ?_⟩ <;> simp [DBImpl.unbuilt, hopened.flusher, hopened.calls, Flusher.unbuilt]
  move hnumbered h hmove hmanifest := h.move hnumbered hmove hmanifest

end

/-- The steps that write a table file. -/
def Act.is_build : Act → Bool
  | .minor_build _ => true
  | .compact_build _ _ => true
  | _ => false

theorem mem_stale {ssts : ExtTreeMap Nat SSTable} {id : Nat} {event : Event} (h : event ∈ stale ssts id) :
    event = .remove_sst id := by
  unfold stale at h
  split at h
  · simpa using h
  · cases h

/-- Writing a table removes no other table. -/
theorem removed_by_write {id other : Nat} {table : SSTable} {ok : Bool} {disk : Disk}
    (h : DiskEffect.remove_sst other ∈ (write_sst id table ok disk).2) : other = id := by
  have heffects : ∀ (events : List Event) (manifest : ManifestManager Nat),
      (∀ event ∈ events, event = .remove_sst id ∨ event = .create_sst id table) →
      DiskEffect.remove_sst other ∈ effectsAll manifest events → other = id := by
    intro events
    induction events with
    | nil => exact fun _ _ hmem => nomatch hmem
    | cons event events ih =>
      intro manifest hevents hmem
      rcases List.mem_append.mp hmem with hmem | hmem
      · rcases hevents event List.mem_cons_self with rfl | rfl
        · simpa [Event.effects] using hmem
        · simp [Event.effects] at hmem
      · exact ih _ (fun event' hevent' => hevents event' (List.mem_cons_of_mem _ hevent')) hmem
  rcases Acts.write_sst disk ⟨.initial, 0⟩ id table ok with ⟨reader, -, hacts⟩ | hacts
  · rw [show write_sst id table ok disk = _ from hacts] at h
    refine heffects _ _ ?_ h
    intro event hevent
    rcases List.mem_append.mp hevent with hevent | hevent
    · exact .inl (mem_stale hevent)
    · exact .inr (by simpa using hevent)
  · rw [show write_sst id table ok disk = _ from hacts] at h
    refine heffects _ _ ?_ h
    intro event hevent
    rcases List.mem_append.mp hevent with hevent | hevent
    · exact .inl (mem_stale hevent)
    · simpa [or_comm] using hevent

/-- A build writes under a reserved number, so it removes no file that was there. -/
theorem DBImpl.Reserves.removed_by_build {db : DBImpl} {disk : Disk} {past : List DiskEffect}
    (h : db.Reserves disk.data past) (hnumbered : Numbered db.levels.manifest.state disk.data past)
    {act : Act} {program : FileM DBImpl} (hbuild : act.is_build = true)
    (hprogram : db.program act = some program) {id : Nat}
    (hremoved : DiskEffect.remove_sst id ∈ (program disk).2) : id ∉ disk.ssts := by
  have hreserved : ∀ number ∈ db.unbuilt, number ∉ disk.ssts :=
    fun number hnumber hfile => h.unused number hnumber (hnumbered.found number hfile)
  cases act with
  | minor_build ok =>
    simp only [DBImpl.program, DBImpl.minor_build] at hprogram
    split at hprogram
    · rename_i ctx hprepared
      cases hprogram
      have hid : id = ctx.new_sst_id :=
        removed_by_write (by simpa [Program.bind_def, build_minor_sst] using hremoved)
      rw [hid]
      exact hreserved _ (by simp [DBImpl.unbuilt, hprepared, Flusher.unbuilt])
    · cases hprogram
  | compact_build index ok =>
    simp only [DBImpl.program, DBImpl.compact_build] at hprogram
    split at hprogram
    · rename_i owner ctx hcall
      cases hprogram
      by_cases hhas : ctx.has_output = true
      · rw [if_pos hhas, Program.bind_def] at hremoved
        have hbuilt : DiskEffect.remove_sst id ∈ (build_l0_to_l1_sst ctx ok disk).2 := by
          rcases List.mem_append.mp hremoved with hbuilt | hrest
          · exact hbuilt
          · generalize (build_l0_to_l1_sst ctx ok disk).1 = result at hrest
            cases result <;> cases hrest
        cases hnumber : ctx.new_sst_id with
        | none => simp [build_l0_to_l1_sst, hhas, hnumber] at hbuilt
        | some number =>
          have hid : id = number := removed_by_write (by simpa [build_l0_to_l1_sst, hhas, hnumber] using hbuilt)
          rw [hid]
          refine hreserved _ (List.mem_append_right _ (List.mem_flatMap.mpr ⟨_, List.mem_of_getElem? hcall, ?_⟩))
          simp [CompactCall.unbuilt, hnumber]
      · rw [if_neg hhas] at hremoved
        cases hremoved
    · cases hprogram
  | _ => cases hbuild

/-- File numbers are never used twice. Over any number of sessions, with flushes,
compactions, clean closes and crashes between any two file effects, the numbers that
`AllocateFileNumber` returns increase strictly; no log and no table is created under
a number that had one before; and the removal of a stale file before a table is
written never removes a file that was there. -/
theorem History.numbers_never_reused {db : Option DBImpl} {disk : Disk} {trace : List DiskEffect}
    (h : History (fun _ _ => True) db disk trace) :
    (allocations trace).Pairwise (· < ·) ∧ (created_wals trace).Nodup ∧ (created_ssts trace).Nodup ∧
      ∀ running act program, db = some running → act.is_build = true →
        running.program act = some program →
        ∀ id, DiskEffect.remove_sst id ∈ (program disk).2 → id ∉ disk.ssts := by
  obtain ⟨hsettled, hkeeps⟩ := (Numbered.preserved _).history h
  have hnumbered : ∃ state, Numbered state disk.data (notes trace) := by
    cases db with
    | none => exact ⟨_, (hsettled rfl).recovered Numbered.lasting⟩
    | some running => exact ⟨_, (hkeeps running rfl).tracked.holds⟩
  obtain ⟨state, hnumbered⟩ := hnumbered
  have hallocations : allocations (notes trace) = allocations trace := filterMap_notes _ (fun _ => rfl) rfl
  have hwals : created_wals (notes trace) = created_wals trace := filterMap_notes _ (fun _ => rfl) rfl
  have hssts : created_ssts (notes trace) = created_ssts trace := filterMap_notes _ (fun _ => rfl) rfl
  refine ⟨hallocations ▸ hnumbered.increasing, hwals ▸ hnumbered.wals, hssts ▸ hnumbered.ssts, ?_⟩
  intro running act program hrunning hbuild hprogram id hremoved
  have hkept := hkeeps running hrunning
  exact hkept.holds.removed_by_build hkept.tracked.holds hbuild hprogram hremoved

/-- Two sessions on one directory. -/
theorem numbers_of_two_sessions :
    ∃ db disk trace, History (fun _ _ => True) (some db) disk trace ∧ allocations trace = [1, 2] ∧
      created_wals trace = [1, 2] ∧ (allocations trace).Pairwise (· < ·) ∧ (created_wals trace).Nodup := by
  have hfirst : (((DBImpl.open .forward) Disk.empty).1.map fun _ => ()) = some () := by decide +kernel
  obtain ⟨first, hfirst, -⟩ := Option.map_eq_some_iff.mp hfirst
  have hquit : History (fun _ _ => True) none _ _ := .quit (.boot .empty trivial .forward hfirst)
  have hsecond : (((DBImpl.open .forward) ((DBImpl.open .forward).final Disk.empty)).1.map fun _ => ()) =
      some () := by decide +kernel
  obtain ⟨second, hsecond, -⟩ := Option.map_eq_some_iff.mp hsecond
  have hboth := History.boot hquit trivial .forward hsecond
  have hnumbers := hboth.numbers_never_reused
  exact ⟨second, _, _, hboth, by decide +kernel, by decide +kernel, hnumbers.1, hnumbers.2.1⟩

end NovaKV
