import NovaKV.Store.Events

open Std
open NovaKV.Lib

namespace NovaKV

/-- Every state that sessions on a directory can lead to, starting from an empty
one: the running database if there is one, the directory, and all file effects so
far, oldest first. A crash may come after any prefix of the effects of the
constructor or of an action; a database also ends between two actions, by a crash
or after its destructor. The constructor is only run where `opening` holds. -/
inductive History (opening : Disk → List DiskEffect → Prop) : Option DBImpl → Disk → List DiskEffect → Prop
  | empty : History opening none .empty []
  | boot {disk trace db} (before : History opening none disk trace) (allowed : opening disk trace)
      (order : IterationOrder Nat) (opens : ((DBImpl.open order) disk).1 = some db) :
      History opening (some db) ((DBImpl.open order).final disk) (trace ++ ((DBImpl.open order) disk).2)
  | boot_crash {disk trace done} (before : History opening none disk trace)
      (allowed : opening disk trace) (order : IterationOrder Nat)
      (crash : done <+: ((DBImpl.open order) disk).2) :
      History opening none (applyAll disk done) (trace ++ done)
  | step {db disk trace act program} (before : History opening (some db) disk trace)
      (program_eq : db.program act = some program) :
      History opening (some (program disk).1) (program.final disk) (trace ++ (program disk).2)
  | crash {db disk trace act program done} (before : History opening (some db) disk trace)
      (program_eq : db.program act = some program) (crash : done <+: (program disk).2) :
      History opening none (applyAll disk done) (trace ++ done)
  | quit {db disk trace} (before : History opening (some db) disk trace) :
      History opening none disk trace

theorem History.run {opening : Disk → List DiskEffect → Prop} {self last : System} {acts : List Act}
    {trace : List DiskEffect} (h : History opening (some self.db) self.disk trace)
    (hrun : self.run acts = some last) : ∃ trace', History opening (some last.db) last.disk trace' := by
  induction acts generalizing self trace with
  | nil =>
    cases hrun
    exact ⟨trace, h⟩
  | cons act acts ih =>
    obtain ⟨mid, hstep, hrest⟩ := Option.bind_eq_some_iff.mp hrun
    obtain ⟨program, hprogram, rfl⟩ := Option.map_eq_some_iff.mp hstep
    exact ih (.step h hprogram) hrest

theorem History.opened {opening : Disk → List DiskEffect → Prop} {disk : Disk} {start : System}
    {trace : List DiskEffect} {order : IterationOrder Nat} (h : History opening none disk trace)
    (hallowed : opening disk trace) (hopen : System.open order disk = some start) :
    ∃ trace', History opening (some start.db) start.disk trace' := by
  obtain ⟨db, hdb, rfl⟩ := Option.map_eq_some_iff.mp hopen
  exact ⟨_, .boot h hallowed order hdb⟩

/-- The effects that change what a manifest says or what files there are: all but
those of a checkpoint. -/
def DiskEffect.is_note : DiskEffect → Bool
  | .manifest (.rename_snapshot _) => false
  | .manifest .truncate_log => false
  | _ => true

def notes (trace : List DiskEffect) : List DiskEffect := trace.filter DiskEffect.is_note

@[simp] theorem notes_nil : notes [] = [] := rfl

theorem notes_append (first second : List DiskEffect) :
    notes (first ++ second) = notes first ++ notes second := by
  simp [notes]

/-- What recovery would read from a directory against a manifest in memory: the
same last number, and no table that is not listed in memory at the same level. A
scan of the directory lists tables that an older log deletes again. -/
structure Disk.Follows (disk : Disk) (state : ManifestState Nat) : Prop where
  next : disk.recovered.next_file_number = state.next_file_number
  listed : ∀ (id : Nat) (level : UInt32), disk.recovered.sst_levels[id]? = some level →
    state.sst_levels[id]? = some level

section

variable {disk : Disk} {state : ManifestState Nat}

theorem Disk.Follows.refl (disk : Disk) : disk.Follows disk.recovered := ⟨rfl, fun _ _ => id⟩

/-- Appending an edit that has been made in memory keeps the last number the same. -/
theorem Disk.next_append (h : disk.recovered.next_file_number = state.next_file_number) (edit : ManifestEdit Nat) :
    (disk.apply (.manifest (.append_edit edit))).recovered.next_file_number =
      (state.apply_edit edit).next_file_number := by
  have hrecovered : (disk.apply (.manifest (.append_edit edit))).recovered = disk.recovered.apply_edit edit :=
    ManifestState.apply_edits_concat _ _ _
  rw [hrecovered]
  cases edit with
  | SetNextFileNumber number => rfl
  | _ => exact h

/-- So does a snapshot, with the older log still in place. -/
theorem Disk.next_rename (h : disk.recovered.next_file_number = state.next_file_number) :
    (disk.apply (.manifest (.rename_snapshot state))).recovered.next_file_number = state.next_file_number := by
  have hnext : (disk.apply (.manifest (.rename_snapshot state))).recovered.read .next =
      (manifestModel.written disk.log .next).getD (state.read .next) :=
    manifestModel.read_applyAll disk.log state .next
  have hold : disk.recovered.read .next =
      (manifestModel.written disk.log .next).getD ((disk.manifest.getD .initial).read .next) :=
    manifestModel.read_applyAll disk.log _ .next
  cases hwritten : manifestModel.written disk.log .next with
  | none =>
    rw [hwritten, Option.getD_none] at hnext
    simpa [ManifestState.read] using hnext
  | some value =>
    rw [hwritten, Option.getD_some] at hnext hold
    rw [← hold] at hnext
    rw [← h]
    simpa [ManifestState.read] using hnext

/-- Appending an edit that has been made in memory. -/
theorem Disk.Follows.append (h : disk.Follows state) (edit : ManifestEdit Nat) :
    (disk.apply (.manifest (.append_edit edit))).Follows (state.apply_edit edit) := by
  have hrecovered : (disk.apply (.manifest (.append_edit edit))).recovered =
      disk.recovered.apply_edit edit :=
    ManifestState.apply_edits_concat _ _ _
  refine ⟨Disk.next_append h.next edit, ?_⟩
  intro id level hlevel
  rw [hrecovered] at hlevel
  cases edit with
  | AddSST other other_level =>
    simp only [ManifestState.apply_edit, ExtTreeMap.getElem?_insert] at hlevel ⊢
    by_cases hother : compare other id = .eq
    · simpa only [hother, if_true] using hlevel
    · simp only [hother, if_false] at hlevel ⊢
      exact h.listed id level hlevel
  | DelSST other =>
    simp only [ManifestState.apply_edit, ExtTreeMap.getElem?_erase] at hlevel ⊢
    by_cases hother : compare other id = .eq
    · simp [hother] at hlevel
    · simp only [hother, if_false] at hlevel ⊢
      exact h.listed id level hlevel
  | _ => exact h.listed id level hlevel

/-- A snapshot of the state in memory, with the older log still in place. The log
decides about every part that it has an edit of, as it did before. -/
theorem Disk.Follows.rename (h : disk.Follows state) :
    (disk.apply (.manifest (.rename_snapshot state))).Follows state := by
  refine ⟨Disk.next_rename h.next, ?_⟩
  intro id level hlevel
  have hid : (disk.apply (.manifest (.rename_snapshot state))).recovered.read (.sst id) =
      (manifestModel.written disk.log (.sst id)).getD (state.read (.sst id)) :=
    manifestModel.read_applyAll disk.log state (.sst id)
  cases hwritten : manifestModel.written disk.log (.sst id) with
  | none =>
    rw [hwritten, Option.getD_none] at hid
    have heq : (disk.apply (.manifest (.rename_snapshot state))).recovered.sst_levels[id]? =
        state.sst_levels[id]? := by simpa [ManifestState.read] using hid
    rwa [heq] at hlevel
  | some value =>
    have hold : disk.recovered.read (.sst id) =
        (manifestModel.written disk.log (.sst id)).getD ((disk.manifest.getD .initial).read (.sst id)) :=
      manifestModel.read_applyAll disk.log _ (.sst id)
    rw [hwritten, Option.getD_some] at hid hold
    rw [← hold] at hid
    have heq : (disk.apply (.manifest (.rename_snapshot state))).recovered.sst_levels[id]? =
        disk.recovered.sst_levels[id]? := by simpa [ManifestState.read] using hid
    exact h.listed id level (heq ▸ hlevel)

/-- Once the log is emptied, recovery reads the snapshot. -/
theorem Disk.follows_truncated (disk : Disk) (state : ManifestState Nat) :
    ((disk.apply (.manifest (.rename_snapshot state))).apply (.manifest .truncate_log)).Follows state :=
  .refl _

end

/-- The manifest in memory after an event. -/
def Event.state (state : ManifestState Nat) : Event → ManifestState Nat
  | .call operation => ((operation.edit? state).map state.apply_edit).getD state
  | _ => state

/-- The other files after an event. -/
def Event.data (data : Data) : Event → Data
  | .call _ => data
  | .create_wal id => { data with wals := data.wals.insertIfNew id [] }
  | .append_wal id record => { data with wals := data.wals.insert id (data.wals[id]?.getD [] ++ [record]) }
  | .remove_wal id => { data with wals := data.wals.erase id }
  | .create_sst id table => { data with ssts := data.ssts.insert id table }
  | .remove_sst id => { data with ssts := data.ssts.erase id }

/-- What an event leaves in the notes. -/
def Event.note (state : ManifestState Nat) : Event → List DiskEffect
  | .call operation => (operation.edit? state).toList.map fun edit => .manifest (.append_edit edit)
  | .create_wal id => [.create_wal id]
  | .append_wal id record => [.append_wal id record]
  | .remove_wal id => [.remove_wal id]
  | .create_sst id table => [.create_sst id table]
  | .remove_sst id => [.remove_sst id]

section

variable {J : ManifestState Nat → Data → List DiskEffect → Prop}

/-- A property of a manifest in memory, the other files and the notes so far, for a
directory whose manifest follows the one in memory. -/
structure Tracked (J : ManifestState Nat → Data → List DiskEffect → Prop) (state : ManifestState Nat)
    (disk : Disk) (trace : List DiskEffect) : Prop where
  snapshot : disk.manifest.isSome
  follows : disk.Follows state
  holds : J state disk.data (notes trace)

/-- The property holds after each of the events. -/
def Script (J : ManifestState Nat → Data → List DiskEffect → Prop) :
    ManifestState Nat → Data → List DiskEffect → List Event → Prop
  | _, _, _, [] => True
  | state, data, past, event :: events =>
    J (event.state state) (event.data data) (past ++ event.note state) ∧
      Script J (event.state state) (event.data data) (past ++ event.note state) events

/-- The manifest in memory, the other files and the new notes after a list of events. -/
def stateAll (state : ManifestState Nat) (events : List Event) : ManifestState Nat :=
  events.foldl Event.state state

def dataAll (data : Data) (events : List Event) : Data := events.foldl Event.data data

def noteAll (state : ManifestState Nat) : List Event → List DiskEffect
  | [] => []
  | event :: events => event.note state ++ noteAll (event.state state) events

/-- The property holds on the directory after every prefix of the effects, for some
manifest in memory. -/
def TrackedThroughout (J : ManifestState Nat → Data → List DiskEffect → Prop) (disk : Disk)
    (trace effects : List DiskEffect) : Prop :=
  ∀ done, done <+: effects → ∃ state, Tracked J state (applyAll disk done) (trace ++ done)

theorem TrackedThroughout.append {disk : Disk} {trace first second : List DiskEffect}
    (hfirst : TrackedThroughout J disk trace first)
    (hsecond : TrackedThroughout J (applyAll disk first) (trace ++ first) second) :
    TrackedThroughout J disk trace (first ++ second) := by
  intro done hdone
  rcases List.prefix_or_prefix_of_prefix hdone (List.prefix_append _ _) with hinside | ⟨rest, rfl⟩
  · exact hfirst done hinside
  · rw [applyAll_append, ← List.append_assoc]
    exact hsecond rest ((List.prefix_append_right_inj _).mp hdone)

theorem Event.after_state (event : Event) (manifest : ManifestManager Nat) :
    (event.after manifest).state = event.state manifest.state := by
  cases event with
  | call operation =>
    simp only [Event.after, Event.state, ManifestManager.call_eq]
    cases operation.edit? manifest.state with
    | none => rfl
    | some edit => exact manifest.commit_state edit
  | _ => rfl

theorem data_manifest_effects (effects : List (ManifestEffect Nat)) (disk : Disk) :
    (applyAll disk (effects.map DiskEffect.manifest)).data = disk.data := by
  induction effects generalizing disk with
  | nil => rfl
  | cons effect effects ih =>
    rw [List.map_cons, applyAll_cons, ih]
    cases effect <;> rfl

theorem Event.data_effects (event : Event) (manifest : ManifestManager Nat) (disk : Disk) :
    (applyAll disk (event.effects manifest)).data = event.data disk.data := by
  cases event with
  | call operation => exact data_manifest_effects _ disk
  | _ => rfl

theorem Event.notes_effects (event : Event) (manifest : ManifestManager Nat) :
    notes (event.effects manifest) = event.note manifest.state := by
  cases event with
  | call operation =>
    simp only [Event.effects, Event.note, ManifestManager.call_eq]
    cases operation.edit? manifest.state with
    | none => rfl
    | some edit =>
      obtain ⟨-, rest, heffects, hrest⟩ := ManifestManager.record_edit_effects
        { manifest with state := manifest.state.apply_edit edit } {} edit rfl
      simp only [heffects]
      rcases hrest with rfl | rfl | rfl <;> rfl
  | _ => rfl

theorem afterAll_state (events : List Event) (manifest : ManifestManager Nat) :
    (afterAll manifest events).state = stateAll manifest.state events := by
  induction events generalizing manifest with
  | nil => rfl
  | cons event events ih => rw [afterAll, ih, event.after_state, stateAll, stateAll, List.foldl_cons]

theorem data_effectsAll (events : List Event) (manifest : ManifestManager Nat) (disk : Disk) :
    (applyAll disk (effectsAll manifest events)).data = dataAll disk.data events := by
  induction events generalizing manifest disk with
  | nil => rfl
  | cons event events ih =>
    rw [effectsAll, applyAll_append, ih, event.data_effects, dataAll, dataAll, List.foldl_cons]

theorem notes_effectsAll (events : List Event) (manifest : ManifestManager Nat) :
    notes (effectsAll manifest events) = noteAll manifest.state events := by
  induction events generalizing manifest with
  | nil => rfl
  | cons event events ih =>
    rw [effectsAll, notes_append, ih, event.notes_effects, event.after_state, noteAll]

/-- An edit is appended; a checkpoint may add a snapshot and empty the log. -/
theorem Tracked.commit {manifest : ManifestManager Nat} {disk : Disk} {trace : List DiskEffect}
    (h : Tracked J manifest.state disk trace) {edit : ManifestEdit Nat}
    (hnext : J (manifest.state.apply_edit edit) disk.data
      (notes trace ++ [.manifest (.append_edit edit)])) :
    TrackedThroughout J disk trace ((manifest.commit edit).2.map DiskEffect.manifest) ∧
      Tracked J (manifest.state.apply_edit edit)
        (applyAll disk ((manifest.commit edit).2.map DiskEffect.manifest))
        (trace ++ (manifest.commit edit).2.map DiskEffect.manifest) := by
  have happended : Tracked J (manifest.state.apply_edit edit)
      (disk.apply (.manifest (.append_edit edit))) (trace ++ [.manifest (.append_edit edit)]) :=
    ⟨h.snapshot, h.follows.append edit, by rw [notes_append]; exact hnext⟩
  have hrenamed : Tracked J (manifest.state.apply_edit edit)
      ((disk.apply (.manifest (.append_edit edit))).apply
        (.manifest (.rename_snapshot (manifest.state.apply_edit edit))))
      (trace ++ [.manifest (.append_edit edit),
        .manifest (.rename_snapshot (manifest.state.apply_edit edit))]) :=
    ⟨rfl, happended.follows.rename, by rw [notes_append]; exact hnext⟩
  have htruncated : Tracked J (manifest.state.apply_edit edit)
      (((disk.apply (.manifest (.append_edit edit))).apply
        (.manifest (.rename_snapshot (manifest.state.apply_edit edit)))).apply (.manifest .truncate_log))
      (trace ++ [.manifest (.append_edit edit),
        .manifest (.rename_snapshot (manifest.state.apply_edit edit)), .manifest .truncate_log]) :=
    ⟨rfl, Disk.follows_truncated _ _, by rw [notes_append]; exact hnext⟩
  have hstart : ∃ state, Tracked J state disk (trace ++ []) := ⟨_, by rwa [List.append_nil]⟩
  obtain ⟨-, rest, heffects, hrest⟩ := ManifestManager.record_edit_effects
    { manifest with state := manifest.state.apply_edit edit } {} edit rfl
  rw [ManifestManager.commit, heffects]
  rcases hrest with rfl | rfl | rfl
  · refine ⟨forall_prefix_cons.mpr ⟨hstart, ?_⟩, happended⟩
    exact forall_prefix_nil.mpr ⟨_, happended⟩
  · refine ⟨forall_prefix_cons.mpr ⟨hstart, forall_prefix_cons.mpr ⟨⟨_, happended⟩, ?_⟩⟩, hrenamed⟩
    exact forall_prefix_nil.mpr ⟨_, hrenamed⟩
  · refine ⟨forall_prefix_cons.mpr ⟨hstart, forall_prefix_cons.mpr ⟨⟨_, happended⟩, ?_⟩⟩, htruncated⟩
    exact forall_prefix_cons.mpr ⟨⟨_, hrenamed⟩, forall_prefix_nil.mpr ⟨_, htruncated⟩⟩

/-- One effect on another file. -/
theorem Tracked.effect {state : ManifestState Nat} {disk : Disk} {trace : List DiskEffect}
    (h : Tracked J state disk trace) {effect : DiskEffect} {data : Data}
    (hmanifest : (disk.apply effect).manifest = disk.manifest) (hlog : (disk.apply effect).log = disk.log)
    (hdata : (disk.apply effect).data = data) (hnote : effect.is_note = true)
    (hnext : J state data (notes trace ++ [effect])) :
    TrackedThroughout J disk trace [effect] ∧ Tracked J state (applyAll disk [effect]) (trace ++ [effect]) := by
  have hrecovered : (disk.apply effect).recovered = disk.recovered := by
    rw [Disk.recovered, hmanifest, hlog]
    rfl
  have hafter : Tracked J state (disk.apply effect) (trace ++ [effect]) := by
    refine ⟨by rw [hmanifest]; exact h.snapshot, ?_, ?_⟩
    · refine ⟨?_, ?_⟩ <;> rw [hrecovered]
      · exact h.follows.next
      · exact h.follows.listed
    · rw [hdata, notes_append, notes, notes, List.filter_cons_of_pos hnote]
      exact hnext
  refine ⟨forall_prefix_cons.mpr ⟨?_, forall_prefix_nil.mpr ⟨state, hafter⟩⟩, hafter⟩
  exact ⟨state, by rwa [List.append_nil]⟩

theorem Tracked.event {manifest : ManifestManager Nat} {disk : Disk} {trace : List DiskEffect}
    (h : Tracked J manifest.state disk trace) {event : Event}
    (hnext : J (event.state manifest.state) (event.data disk.data) (notes trace ++ event.note manifest.state)) :
    TrackedThroughout J disk trace (event.effects manifest) ∧
      Tracked J (event.after manifest).state (applyAll disk (event.effects manifest))
        (trace ++ event.effects manifest) := by
  cases event with
  | call operation =>
    simp only [Event.state, Event.note, Event.effects, Event.after, ManifestManager.call_eq] at hnext ⊢
    cases hedit : operation.edit? manifest.state with
    | none =>
      refine ⟨?_, by simpa using h⟩
      intro done hdone
      cases List.prefix_nil.mp hdone
      exact ⟨_, by simpa using h⟩
    | some edit =>
      rw [hedit] at hnext
      obtain ⟨hdone, hafter⟩ := h.commit hnext
      refine ⟨hdone, ?_⟩
      rw [← manifest.commit_state edit] at hafter
      exact hafter
  | create_wal id => exact h.effect rfl rfl rfl rfl hnext
  | append_wal id record => exact h.effect rfl rfl rfl rfl hnext
  | remove_wal id => exact h.effect rfl rfl rfl rfl hnext
  | create_sst id table => exact h.effect rfl rfl rfl rfl hnext
  | remove_sst id => exact h.effect rfl rfl rfl rfl hnext

/-- A property that each event of a script keeps holds at every crash on the way. -/
theorem Tracked.script {manifest : ManifestManager Nat} {disk : Disk} {trace : List DiskEffect}
    {events : List Event} (h : Tracked J manifest.state disk trace)
    (hscript : Script J manifest.state disk.data (notes trace) events) :
    TrackedThroughout J disk trace (effectsAll manifest events) ∧
      Tracked J (afterAll manifest events).state (applyAll disk (effectsAll manifest events))
        (trace ++ effectsAll manifest events) := by
  induction events generalizing manifest disk trace with
  | nil =>
    refine ⟨?_, by simpa [effectsAll, afterAll] using h⟩
    intro done hdone
    cases List.prefix_nil.mp hdone
    exact ⟨_, by simpa using h⟩
  | cons event events ih =>
    obtain ⟨hdone, hafter⟩ := h.event hscript.1
    have hrest := ih hafter (by
      rw [event.after_state, event.data_effects, notes_append, event.notes_effects]
      exact hscript.2)
    rw [effectsAll, applyAll_append, ← List.append_assoc]
    exact ⟨hdone.append hrest.1, hrest.2⟩

end

end NovaKV
