import NovaKV.Store.Invariant
import NovaKV.Store.Transition

open Std
open NovaKV.Lib

namespace NovaKV

/-- One thing that a step does to the directory: a call of the manifest, with
whatever checkpoint goes with it, or an effect on another file. -/
inductive Event where
  | call (operation : ManifestCall Nat)
  | create_wal (id : Nat)
  | append_wal (id : Nat) (record : WalRecord)
  | remove_wal (id : Nat)
  | create_sst (id : Nat) (table : SSTable)
  | remove_sst (id : Nat)

/-- The manifest after an event. -/
def Event.after (manifest : ManifestManager Nat) : Event → ManifestManager Nat
  | .call operation => (manifest.call {} operation).1
  | _ => manifest

/-- The file effects of an event. -/
def Event.effects (manifest : ManifestManager Nat) : Event → List DiskEffect
  | .call operation => (manifest.call {} operation).2.map DiskEffect.manifest
  | .create_wal id => [.create_wal id]
  | .append_wal id record => [.append_wal id record]
  | .remove_wal id => [.remove_wal id]
  | .create_sst id table => [.create_sst id table]
  | .remove_sst id => [.remove_sst id]

def afterAll (manifest : ManifestManager Nat) : List Event → ManifestManager Nat
  | [] => manifest
  | event :: events => afterAll (event.after manifest) events

def effectsAll (manifest : ManifestManager Nat) : List Event → List DiskEffect
  | [] => []
  | event :: events => event.effects manifest ++ effectsAll (event.after manifest) events

theorem effectsAll_append (manifest : ManifestManager Nat) (first second : List Event) :
    effectsAll manifest (first ++ second) =
      effectsAll manifest first ++ effectsAll (afterAll manifest first) second := by
  induction first generalizing manifest with
  | nil => rfl
  | cons event events ih => simp [effectsAll, afterAll, ih]

/-- Run on this directory, the program has these events and returns `a`. -/
def Acts {α : Type} (program : FileM α) (disk : Disk) (manifest : ManifestManager Nat)
    (events : List Event) (a : α) : Prop :=
  program disk = (a, effectsAll manifest events)

section

variable {α β : Type} {disk : Disk} {manifest : ManifestManager Nat}

theorem Acts.pure (a : α) : Acts (Pure.pure a) disk manifest [] a := rfl

theorem Acts.bind {program : FileM α} {next : α → FileM β} {first second : List Event} {a : α} {b : β}
    (hfirst : Acts program disk manifest first a)
    (hnext : Acts (next a) (applyAll disk (effectsAll manifest first)) (afterAll manifest first) second b) :
    Acts (program >>= next) disk manifest (first ++ second) b := by
  unfold Acts at *
  rw [Program.bind_def, Program.final, hfirst, hnext, effectsAll_append]

theorem Acts.skip {a : α} {next : α → FileM β} {events : List Event} {b : β}
    (hnext : Acts (next a) disk manifest events b) : Acts (Pure.pure a >>= next) disk manifest events b :=
  hnext

theorem Acts.last {program : FileM α} {next : α → FileM β} {events : List Event} {a : α} {b : β}
    (hfirst : Acts program disk manifest events a)
    (hnext : Acts (next a) (applyAll disk (effectsAll manifest events)) (afterAll manifest events) [] b) :
    Acts (program >>= next) disk manifest events b := by
  have hall := hfirst.bind hnext
  rwa [List.append_nil] at hall

theorem Acts.read {next : Disk → FileM β} {events : List Event} {b : β}
    (hnext : Acts (next disk) disk manifest events b) :
    Acts (Program.read >>= next) disk manifest events b :=
  hnext

/-- The first event of a program, then the rest of it. -/
theorem Acts.step {program : FileM α} {next : α → FileM β} {event : Event} {events : List Event}
    {a : α} {b : β} (hfirst : Acts program disk manifest [event] a)
    (hnext : Acts (next a) (applyAll disk (event.effects manifest)) (event.after manifest) events b) :
    Acts (program >>= next) disk manifest (event :: events) b := by
  refine Acts.bind hfirst ?_
  simpa [effectsAll, afterAll] using hnext

theorem Acts.call (call : ManifestCall Nat) :
    Acts (perform (manifest.call {} call)) disk manifest [.call call] (manifest.call {} call).1 := by
  simp [Acts, perform, effectsAll, Event.effects]

theorem Acts.allocate : Acts (perform (manifest.allocate_file_number {})) disk manifest
    [.call .allocate_file_number] (manifest.allocate_file_number {}).1 :=
  .call .allocate_file_number

theorem Acts.add_wal (id : Nat) : Acts (perform (manifest.add_wal {} id)) disk manifest
    [.call (.add_wal id)] (manifest.add_wal {} id).1 :=
  .call (.add_wal id)

theorem Acts.remove_wal_edit (id : Nat) : Acts (perform (manifest.remove_wal {} id)) disk manifest
    [.call (.remove_wal id)] (manifest.remove_wal {} id).1 :=
  .call (.remove_wal id)

theorem Acts.add_sst (id : Nat) (level : UInt32) : Acts (perform (manifest.add_sst {} id level)) disk
    manifest [.call (.add_sst id level)] (manifest.add_sst {} id level).1 :=
  .call (.add_sst id level)

theorem Acts.remove_sst_edit (id : Nat) : Acts (perform (manifest.remove_sst {} id)) disk manifest
    [.call (.remove_sst id)] (manifest.remove_sst {} id).1 :=
  .call (.remove_sst id)

theorem Acts.new_mem (wal : Nat) : Acts (MemTable.new wal) disk manifest [.create_wal wal]
    { wal := wal, table := ∅ } := rfl

theorem Acts.put (mem : MemTable) (key : Key) (record : ValueRecord) :
    Acts (mem.put key record) disk manifest [.append_wal mem.wal (key, record)]
      { mem with table := mem.table.insert key record } := rfl

theorem Acts.remove_wal (id : Nat) :
    Acts (Program.emit (.remove_wal id)) disk manifest [.remove_wal id] () := rfl

theorem Acts.create_sst (id : Nat) (table : SSTable) :
    Acts (Program.emit (.create_sst id table)) disk manifest [.create_sst id table] () := rfl

theorem Acts.remove_sst (id : Nat) :
    Acts (Program.emit (.remove_sst id)) disk manifest [.remove_sst id] () := rfl

theorem allocate_next (manifest : ManifestManager Nat) :
    (manifest.allocate_file_number {}).1.state.next_file_number = manifest.state.next_file_number + 1 := by
  rw [ManifestManager.allocate_file_number_eq_commit, ManifestManager.commit_state]
  rfl

/-- The removal of a file that a new table would otherwise be appended to. -/
def stale (ssts : ExtTreeMap Nat SSTable) (id : Nat) : List Event :=
  if id ∈ ssts then [.remove_sst id] else []

theorem afterAll_stale (ssts : ExtTreeMap Nat SSTable) (id : Nat) (events : List Event) :
    afterAll manifest (stale ssts id ++ events) = afterAll manifest events := by
  unfold stale
  split <;> rfl

/-- A table that is written and opened, or one that does not open and is removed again. -/
theorem Acts.write_sst (disk : Disk) (manifest : ManifestManager Nat) (id : Nat) (table : SSTable)
    (ok : Bool) :
    (∃ reader, SSTableReader.open id table = some reader ∧
        Acts (write_sst id table ok) disk manifest (stale disk.ssts id ++ [.create_sst id table])
          (some reader)) ∨
      Acts (write_sst id table ok) disk manifest
        (stale disk.ssts id ++ [.create_sst id table, .remove_sst id]) none := by
  cases hopened : (if ok then SSTableReader.open id table else none) with
  | some reader =>
    have hreader : SSTableReader.open id table = some reader := by
      split at hopened
      · exact hopened
      · cases hopened
    refine .inl ⟨reader, hreader, .read ?_⟩
    by_cases hstale : id ∈ disk.ssts
    · simp only [hopened, stale, if_pos hstale]
      exact .step (.remove_sst id) (.step (.create_sst id table) (.pure _))
    · simp only [hopened, stale, if_neg hstale]
      exact .step (.create_sst id table) (.pure _)
  | none =>
    refine .inr (.read ?_)
    by_cases hstale : id ∈ disk.ssts
    · simp only [hopened, stale, if_pos hstale]
      exact .step (.remove_sst id) (.step (.create_sst id table) (.step (.remove_sst id) (.pure _)))
    · simp only [hopened, stale, if_neg hstale]
      exact .step (.create_sst id table) (.step (.remove_sst id) (.pure _))

/-- The events of `consume_l0`. -/
def consumption (ids : List Nat) : List Event :=
  ids.flatMap fun id => [.call (.remove_sst id), .remove_sst id]

theorem Acts.consume_l0 (ids : List Nat) :
    Acts (consume_l0 manifest ids) disk manifest (consumption ids)
      (afterAll manifest (consumption ids)) := by
  induction ids generalizing manifest disk with
  | nil => exact .pure _
  | cons id ids ih => exact .step (.remove_sst_edit id) (.step (.remove_sst id) ih)

end

/-- The flusher stays where it is, or is left without a table of its own. -/
def Flusher.Moves (before after : Flusher) : Prop := after = before ∨ after.reserved = []

/-- What one action may do: its events, and what becomes of the levels, the flush
and the compactions under way. -/
inductive Move (db : DBImpl) (ssts : ExtTreeMap Nat SSTable) : List Event → DBImpl → Prop
  | quiet {db'} (levels : db'.levels = db.levels) (flusher : db.flusher.Moves db'.flusher)
      (calls : db'.calls = db.calls) : Move db ssts [] db'
  | rotate {db' id} (number : id = db.levels.manifest.state.next_file_number + 1)
      (levels : db'.levels = { db.levels with manifest := db'.levels.manifest })
      (flusher : db'.flusher = db.flusher) (calls : db'.calls = db.calls) :
      Move db ssts [.call .allocate_file_number, .create_wal id, .call (.add_wal id)] db'
  | put_write {db' id record} (levels : db'.levels = db.levels) (flusher : db'.flusher = db.flusher)
      (calls : db'.calls = db.calls) : Move db ssts [.append_wal id record] db'
  | minor_prepare {db' ctx} (number : ctx.new_sst_id = db.levels.manifest.state.next_file_number + 1)
      (levels : db'.levels = { db.levels with manifest := db'.levels.manifest })
      (flusher : db'.flusher = .prepared ctx) (calls : db'.calls = db.calls) :
      Move db ssts [.call .allocate_file_number] db'
  | minor_build {db' ctx table reader} (prepared : db.flusher = .prepared ctx)
      (opened : SSTableReader.open ctx.new_sst_id table = some reader)
      (levels : db'.levels = db.levels) (flusher : db'.flusher = .built ctx (some reader))
      (calls : db'.calls = db.calls) :
      Move db ssts (stale ssts ctx.new_sst_id ++ [.create_sst ctx.new_sst_id table]) db'
  | minor_build_fail {db' ctx table} (prepared : db.flusher = .prepared ctx)
      (levels : db'.levels = db.levels) (flusher : db'.flusher = .built ctx none)
      (calls : db'.calls = db.calls) :
      Move db ssts (stale ssts ctx.new_sst_id ++
        [.create_sst ctx.new_sst_id table, .remove_sst ctx.new_sst_id]) db'
  | minor_install {db' ctx reader} (built : db.flusher = .built ctx (some reader))
      (levels : db'.levels = { db.levels with manifest := db'.levels.manifest, l0 := db.levels.l0 ++ [reader] })
      (flusher : db'.flusher.reserved = []) (calls : db'.calls = db.calls) :
      Move db ssts [.call (.add_sst ctx.new_sst_id 0), .call (.remove_wal ctx.old_wal_id),
        .remove_wal ctx.old_wal_id] db'
  | compact_prepare {db' owner order ctx} (prepared : ctx.PreparedFrom db.levels order)
      (number : ctx.new_sst_id = some (db.levels.manifest.state.next_file_number + 1))
      (levels : db'.levels = { db.levels with manifest := db'.levels.manifest })
      (flusher : db.flusher.Moves db'.flusher)
      (calls : db'.calls = db.calls ++ [{ owner := owner, ctx := ctx, reader := none }]) :
      Move db ssts [.call .allocate_file_number] db'
  | compact_skip {db' index owner ctx} (call : db.calls[index]? = some ⟨owner, ctx, none⟩)
      (levels : db'.levels = db.levels) (flusher : db'.flusher = db.flusher)
      (calls : db'.calls = db.calls.set index ⟨owner, ctx, some none⟩) : Move db ssts [] db'
  | compact_build {db' index owner ctx id table reader} (call : db.calls[index]? = some ⟨owner, ctx, none⟩)
      (number : ctx.new_sst_id = some id) (opened : SSTableReader.open id table = some reader)
      (levels : db'.levels = db.levels) (flusher : db'.flusher = db.flusher)
      (calls : db'.calls = db.calls.set index ⟨owner, ctx, some (some reader)⟩) :
      Move db ssts (stale ssts id ++ [.create_sst id table]) db'
  | compact_fail {db' index owner ctx id table} (call : db.calls[index]? = some ⟨owner, ctx, none⟩)
      (number : ctx.new_sst_id = some id) (levels : db'.levels = db.levels)
      (flusher : db.flusher.Moves db'.flusher) (calls : db'.calls = db.calls.eraseIdx index) :
      Move db ssts (stale ssts id ++ [.create_sst id table, .remove_sst id]) db'
  | compact_abort {db' index call} (call_eq : db.calls[index]? = some call)
      (levels : db'.levels = db.levels) (flusher : db.flusher.Moves db'.flusher)
      (calls : db'.calls = db.calls.eraseIdx index) : Move db ssts [] db'
  | compact_install {db' index owner ctx reader}
      (call : db.calls[index]? = some ⟨owner, ctx, some (some reader)⟩)
      (unchanged : db.levels.inputs_unchanged ctx = true)
      (levels : db'.levels =
        { manifest := db'.levels.manifest, l0 := [], l1 := db.levels.l1 ++ [reader] })
      (flusher : db.flusher.Moves db'.flusher) (calls : db'.calls = db.calls.eraseIdx index) :
      Move db ssts (.call (.add_sst (ctx.new_sst_id.getD 0) 1) :: consumption ctx.l0_input_ids) db'
  | compact_consume {db' index call} (call_eq : db.calls[index]? = some call)
      (unchanged : db.levels.inputs_unchanged call.ctx = true)
      (levels : db'.levels = { db.levels with manifest := db'.levels.manifest, l0 := [] })
      (flusher : db.flusher.Moves db'.flusher) (calls : db'.calls = db.calls.eraseIdx index) :
      Move db ssts (consumption call.ctx.l0_input_ids) db'
  | compact_reject {db' index call id} (call_eq : db.calls[index]? = some call)
      (number : call.ctx.new_sst_id = some id) (levels : db'.levels = db.levels)
      (flusher : db.flusher.Moves db'.flusher) (calls : db'.calls = db.calls.eraseIdx index) :
      Move db ssts [.remove_sst id] db'

theorem Flusher.moves_after (flusher : Flusher) (owner : Owner) : flusher.Moves (flusher.after owner) := by
  cases owner with
  | flusher => exact .inr rfl
  | caller => exact .inl rfl

/-- The program of an action is a move, and the manifest it returns is the one that
its events lead to. -/
def Moves (db : DBImpl) (disk : Disk) (program : FileM DBImpl) : Prop :=
  ∃ events db', Acts program disk db.levels.manifest events db' ∧ Move db disk.ssts events db' ∧
    db'.levels.manifest = afterAll db.levels.manifest events

section

variable {db : DBImpl} {disk : Disk}

/-- An action that touches no file. -/
theorem Moves.quiet {db' : DBImpl} (hlevels : db'.levels = db.levels)
    (hflusher : db.flusher.Moves db'.flusher) (hcalls : db'.calls = db.calls) :
    Moves db disk (Pure.pure db') :=
  ⟨[], db', .pure db', .quiet hlevels hflusher hcalls, by rw [hlevels]; rfl⟩

theorem Moves.put_lock {key : Key} {record : ValueRecord} {program : FileM DBImpl}
    (hprogram : db.put_lock key record = some program) : Moves db disk program := by
  unfold DBImpl.put_lock at hprogram
  split at hprogram
  · cases hprogram
  split at hprogram
  · cases hprogram
  split at hprogram
  · cases hprogram
    exact .quiet rfl (.inl rfl) rfl
  split at hprogram
  · cases hprogram
  cases hprogram
  exact ⟨_, _, .step .allocate (.step (.new_mem _) (.step (.add_wal _) (.pure _))),
    .rotate (allocate_next _) rfl rfl rfl, rfl⟩

theorem Moves.put_write {program : FileM DBImpl} (hprogram : db.put_write = some program) :
    Moves db disk program := by
  unfold DBImpl.put_write at hprogram
  split at hprogram
  · cases hprogram
    exact ⟨_, _, .step (.put _ _ _) (.pure _), .put_write rfl rfl rfl, rfl⟩
  · cases hprogram

theorem Moves.minor_prepare {program : FileM DBImpl} (hprogram : db.minor_prepare = some program) :
    Moves db disk program := by
  unfold DBImpl.minor_prepare at hprogram
  split at hprogram
  · cases hprogram
    split
    · exact .quiet rfl (.inr rfl) rfl
    · exact ⟨_, _, .step .allocate (.pure _), .minor_prepare (allocate_next _) rfl rfl rfl, rfl⟩
  · cases hprogram

theorem Moves.minor_build {ok : Bool} {program : FileM DBImpl}
    (hprogram : db.minor_build ok = some program) : Moves db disk program := by
  unfold DBImpl.minor_build at hprogram
  split at hprogram
  · rename_i ctx hprepared
    cases hprogram
    rcases Acts.write_sst disk db.levels.manifest ctx.new_sst_id
      (.of_map ctx.flushing_imm.table) ok with ⟨reader, hopened, hacts⟩ | hacts
    · exact ⟨_, _, .last hacts rfl, .minor_build hprepared hopened rfl rfl rfl, by rw [afterAll_stale]; rfl⟩
    · exact ⟨_, _, .last hacts rfl, .minor_build_fail hprepared rfl rfl rfl, by rw [afterAll_stale]; rfl⟩
  · cases hprogram

theorem Moves.minor_install {program : FileM DBImpl} (hprogram : db.minor_install = some program) :
    Moves db disk program := by
  unfold DBImpl.minor_install at hprogram
  split at hprogram
  · rename_i ctx reader hbuilt
    cases hprogram
    cases reader with
    | none => exact .quiet rfl (.inr rfl) rfl
    | some reader =>
      refine ⟨_, _, .step (.add_sst _ _) (.step (.remove_wal_edit _) (.step (.remove_wal _) (.pure _))),
        .minor_install hbuilt rfl ?_ rfl, rfl⟩
      split <;> rfl
  · cases hprogram

theorem Moves.compact_prepare {owner : Owner} {order : IterationOrder (Nat × UInt32)}
    {program : FileM DBImpl} (hprogram : db.compact_prepare owner order = some program) :
    Moves db disk program := by
  unfold DBImpl.compact_prepare at hprogram
  split at hprogram
  · cases hprogram
  cases hprogram
  have hdecline : Moves db disk
      (Pure.pure { db with levels := db.levels, flusher := db.flusher.after owner }) :=
    .quiet rfl (db.flusher.moves_after owner) rfl
  unfold Levels.prepare_l0_to_l1
  by_cases hl0 : db.levels.l0 = []
  · simp only [if_pos hl0]
    exact hdecline
  simp only [if_neg hl0, merge_records_isEmpty hl0]
  split
  · exact hdecline
  · refine ⟨_, _, .last (.step .allocate (.pure _)) rfl,
      .compact_prepare ⟨hl0, rfl, rfl, rfl, rfl, rfl, rfl⟩ (congrArg some (allocate_next _)) rfl ?_ rfl, rfl⟩
    cases owner with
    | flusher => exact .inr rfl
    | caller => exact .inl rfl

theorem Moves.compact_build {index : Nat} {ok : Bool} {program : FileM DBImpl}
    (hprogram : db.compact_build index ok = some program) : Moves db disk program := by
  unfold DBImpl.compact_build at hprogram
  split at hprogram
  · rename_i owner ctx hcall
    cases hprogram
    by_cases hhas : ctx.has_output = true
    · rw [if_pos hhas]
      cases hid : ctx.new_sst_id with
      | none =>
        rw [build_l0_to_l1_sst_without_id hid]
        exact ⟨[], _, .pure _, .compact_abort hcall rfl (db.flusher.moves_after owner) rfl, rfl⟩
      | some id =>
        rw [build_l0_to_l1_sst_eq_write hhas hid]
        rcases Acts.write_sst disk db.levels.manifest id
          (.of_map ctx.output_records) ok with ⟨reader, hopened, hacts⟩ | hacts
        · exact ⟨_, _, .last hacts rfl, .compact_build hcall hid hopened rfl rfl rfl,
            by rw [afterAll_stale]; rfl⟩
        · exact ⟨_, _, .last hacts rfl, .compact_fail hcall hid rfl (db.flusher.moves_after owner) rfl,
            by rw [afterAll_stale]; rfl⟩
    · rw [if_neg hhas]
      exact ⟨[], _, .pure _, .compact_skip hcall rfl rfl rfl, rfl⟩
  · cases hprogram

/-- What `compact_install` does when nothing is installed. -/
theorem Moves.compact_rejected {index : Nat} {owner : Owner} {ctx : L0ToL1Ctx} {reader : Option SSTableReader}
    (hcall : db.calls[index]? = some ⟨owner, ctx, some reader⟩) {install : FileM (Levels × Bool)}
    (hinstall : install = Pure.pure (db.levels, false)) :
    Moves db disk (do
      let (levels, installed) ← install
      if !installed then
        match ctx.new_sst_id with
        | some id => Program.emit (.remove_sst id)
        | none => Pure.pure ()
      return { db with
        levels := levels, calls := db.calls.eraseIdx index, flusher := db.flusher.after owner }) := by
  have hmoves := db.flusher.moves_after owner
  subst hinstall
  cases hid : ctx.new_sst_id with
  | none => exact ⟨[], _, .pure _, .compact_abort hcall rfl hmoves rfl, rfl⟩
  | some id =>
    exact ⟨_, _, .skip (.step (.remove_sst id) (.pure _)), .compact_reject hcall hid rfl hmoves rfl, rfl⟩

theorem Moves.compact_install {index : Nat} {program : FileM DBImpl}
    (hprogram : db.compact_install index = some program) : Moves db disk program := by
  unfold DBImpl.compact_install at hprogram
  split at hprogram
  · rename_i owner ctx reader hcall
    cases hprogram
    have hmoves := db.flusher.moves_after owner
    cases hunchanged : db.levels.inputs_unchanged ctx with
    | false => exact .compact_rejected hcall (Levels.install_of_changed hunchanged)
    | true =>
      by_cases hempty : ctx.merged_l0_records.isEmpty = true ∨ ctx.has_output = false
      · rw [Levels.install_without_output hunchanged hempty]
        exact ⟨_, _, .last (.last (.consume_l0 _) rfl) rfl, .compact_consume hcall hunchanged rfl hmoves rfl, rfl⟩
      · obtain ⟨hmerged, hhas⟩ : ctx.merged_l0_records.isEmpty = false ∧ ctx.has_output = true := by
          simpa only [not_or, Bool.not_eq_true, Bool.not_eq_false] using hempty
        cases reader with
        | none => exact .compact_rejected hcall (Levels.install_without_reader hmerged hhas)
        | some reader =>
          rw [Levels.install_with_reader hunchanged hmerged hhas]
          exact ⟨_, _, .last (.step (.add_sst _ _) (.last (.consume_l0 _) rfl)) rfl,
            .compact_install hcall hunchanged rfl hmoves rfl, rfl⟩
  · cases hprogram

/-- Every action of a database is a move. -/
theorem DBImpl.moves (disk : Disk) {act : Act} {program : FileM DBImpl} (hprogram : db.program act = some program) :
    Moves db disk program := by
  cases act with
  | put_lock key record => exact .put_lock hprogram
  | put_write => exact .put_write hprogram
  | bg_wake =>
    simp only [DBImpl.program, DBImpl.bg_wake] at hprogram
    split at hprogram
    · split at hprogram
      · cases hprogram
        exact .quiet rfl (.inl rfl) rfl
      · split at hprogram
        · cases hprogram
          exact .quiet rfl (.inr rfl) rfl
        · cases hprogram
    · cases hprogram
  | bg_reset =>
    simp only [DBImpl.program, DBImpl.bg_reset] at hprogram
    split at hprogram
    · cases hprogram
      exact .quiet rfl (.inl rfl) rfl
    · cases hprogram
  | minor_prepare => exact .minor_prepare hprogram
  | minor_build ok => exact .minor_build hprogram
  | minor_install => exact .minor_install hprogram
  | compact_prepare owner order => exact .compact_prepare hprogram
  | compact_build index ok => exact .compact_build hprogram
  | compact_install index => exact .compact_install hprogram
  | stop =>
    simp only [DBImpl.program, DBImpl.stop] at hprogram
    split at hprogram
    · cases hprogram
    · cases hprogram
      exact .quiet rfl (.inl rfl) rfl
  | last_flush =>
    simp only [DBImpl.program, DBImpl.last_flush] at hprogram
    split at hprogram
    · split at hprogram
      · cases hprogram
        exact .quiet rfl (.inr rfl) rfl
      · cases hprogram
    · cases hprogram

end

end NovaKV
