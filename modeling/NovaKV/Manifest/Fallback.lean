import NovaKV.Manifest.Session

open Std
open NovaKV.Lib

namespace NovaKV

/-- One recording call whose append may fail without leaving bytes in the log. The
snapshot that `RecordEdit` then falls back to is written. -/
structure FallbackStep where
  call : ManifestCall FileNumber
  append_ok : Bool
  persist_ok : Bool
  truncate_ok : Bool
  order : IterationOrder FileNumber
  falls_back : append_ok = false → persist_ok = true

def FallbackStep.io (step : FallbackStep) : EditIo :=
  { append_ok := step.append_ok, persist_ok := step.persist_ok, truncate_ok := step.truncate_ok }

/-- The manager after a sequence of calls. -/
def ManifestManager.after (self : ManifestManager FileNumber) (steps : List FallbackStep) :
    ManifestManager FileNumber :=
  steps.foldl (fun manager step => (manager.call step.io step.call).1) self

/-- The manifest files after a sequence of calls. -/
def ManifestManager.files_after (self : ManifestManager FileNumber) (files : ManifestFiles) :
    List FallbackStep → ManifestFiles
  | [] => files
  | step :: steps =>
    let (next, effects) := self.call step.io step.call
    next.files_after ((effects.map (ManifestFileEffect.mk step.order)).foldl ManifestFiles.apply files)
      steps

/-- An edit made in memory, and whether its record reached the log. -/
structure LedgerEntry where
  edit : ManifestEdit FileNumber
  logged : Bool

/-- Recording this call brings the log to the checkpoint threshold, and the
checkpoint both persists and truncates. -/
def ManifestManager.truncates (self : ManifestManager FileNumber) (step : FallbackStep) : Bool :=
  step.append_ok && decide (kManifestCheckpointThreshold ≤ self.edits_since_checkpoint + 1) &&
    step.persist_ok && step.truncate_ok

/-- The edits made since the log was last truncated. -/
def ManifestManager.ledger (self : ManifestManager FileNumber) (entries : List LedgerEntry) :
    List FallbackStep → List LedgerEntry
  | [] => entries
  | step :: steps =>
    let next := (self.call step.io step.call).1
    match step.call.edit? self.state with
    | none => next.ledger entries steps
    | some edit =>
      next.ledger (if self.truncates step then [] else entries ++ [⟨edit, step.append_ok⟩]) steps

def edits_of (entries : List LedgerEntry) : List (ManifestEdit FileNumber) :=
  entries.map LedgerEntry.edit

def logged_of (entries : List LedgerEntry) : List (ManifestEdit FileNumber) :=
  (entries.filter LedgerEntry.logged).map LedgerEntry.edit

/-- For the counter, every table and every log: the last edit of it in the log
writes what the last edit of it writes. -/
def LastWritesLogged (entries : List LedgerEntry) : Prop :=
  ∀ c v, manifestModel.written (logged_of entries) c = some v →
    manifestModel.written (edits_of entries) c = some v

theorem edits_of_concat (entries : List LedgerEntry) (entry : LedgerEntry) :
    edits_of (entries ++ [entry]) = edits_of entries ++ [entry.edit] := by
  simp [edits_of]

theorem logged_of_concat (entries : List LedgerEntry) (edit : ManifestEdit FileNumber)
    (logged : Bool) : logged_of (entries ++ [⟨edit, logged⟩]) =
      logged_of entries ++ if logged then [edit] else [] := by
  cases logged <;> simp [logged_of]

theorem mem_edits_of_logged {entries : List LedgerEntry} {edit : ManifestEdit FileNumber}
    (h : edit ∈ logged_of entries) : edit ∈ edits_of entries := by
  obtain ⟨entry, hentry, rfl⟩ := List.mem_map.mp h
  exact List.mem_map.mpr ⟨entry, List.mem_of_mem_filter hentry, rfl⟩

/-- The snapshot is as new as the state on every cell that the log leaves alone,
and the log holds the logged part of the ledger. -/
structure ManifestFiles.Trails (files : ManifestFiles) (state : ManifestState FileNumber)
    (entries : List LedgerEntry) : Prop where
  made : ∃ base : ManifestState FileNumber, base.apply_edits (edits_of entries) = state
  log : files.log.getD [] = (logged_of entries).flatMap ManifestEdit.encode
  contents : ∃ (order : IterationOrder FileNumber) (snapshot : ManifestState FileNumber),
    files.manifest = some (persist_state order snapshot) ∧ snapshot.CountsFit ∧
      ∀ c, manifestModel.written (logged_of entries) c = none → snapshot.read c = state.read c

/-- What recovery finds in such files is the state in memory exactly when the
log's last writes are the last writes. -/
theorem ManifestFiles.Trails.recover_iff {files : ManifestFiles} {state : ManifestState FileNumber}
    {entries : List LedgerEntry} (h : files.Trails state entries) :
    (ManifestManager.recover files).map ManifestManager.state = some state ↔
      LastWritesLogged entries := by
  obtain ⟨⟨base, rfl⟩, hlog, order, snapshot, hmanifest, hfit, hrest⟩ := h
  have hrep : files.Represents (snapshot.apply_edits (logged_of entries)) [] :=
    ⟨replay_record_nil, order, snapshot, logged_of entries, hmanifest, hfit, by simpa using hlog, rfl⟩
  rw [hrep.recover_eq, Option.map_some, Option.some.injEq]
  exact manifestModel.applyAll_logged_eq_iff (fun _ => mem_edits_of_logged) hrest

theorem ManifestFiles.Trails.append {files : ManifestFiles} {state : ManifestState FileNumber}
    {entries : List LedgerEntry} (h : files.Trails state entries) (edit : ManifestEdit FileNumber) :
    (files.append_log edit.encode).Trails (state.apply_edit edit) (entries ++ [⟨edit, true⟩]) := by
  obtain ⟨⟨base, rfl⟩, hlog, order, snapshot, hmanifest, hfit, hrest⟩ := h
  refine ⟨⟨base, ?_⟩, ?_, order, snapshot, hmanifest, hfit, ?_⟩
  · rw [edits_of_concat, ManifestState.apply_edits_concat]
  · simp [ManifestFiles.append_log, logged_of_concat, hlog]
  · intro c hnone
    rw [logged_of_concat, if_pos rfl, OverwriteModel.written_concat] at hnone
    by_cases hcell : edit.cell = c
    · simp [manifestModel, hcell] at hnone
    · rw [if_neg (by simpa [manifestModel] using hcell)] at hnone
      rw [hrest c hnone, ManifestState.read_apply_edit_other edit _ c (Ne.symm hcell)]

/-- A failed append leaves the log alone and writes a snapshot of the new state. -/
theorem ManifestFiles.Trails.fall_back {files : ManifestFiles} {state : ManifestState FileNumber}
    {entries : List LedgerEntry} (h : files.Trails state entries) (edit : ManifestEdit FileNumber)
    (hfit : (state.apply_edit edit).CountsFit) (order : IterationOrder FileNumber) :
    (files.apply ⟨order, .rename_snapshot (state.apply_edit edit)⟩).Trails (state.apply_edit edit)
      (entries ++ [⟨edit, false⟩]) := by
  obtain ⟨⟨base, rfl⟩, hlog, _⟩ := h
  refine ⟨⟨base, ?_⟩, ?_, order, _, rfl, hfit, fun _ _ => rfl⟩
  · rw [edits_of_concat, ManifestState.apply_edits_concat]
  · simpa [ManifestFiles.apply, logged_of_concat] using hlog

theorem ManifestFiles.Trails.rename {files : ManifestFiles} {state : ManifestState FileNumber}
    {entries : List LedgerEntry} (h : files.Trails state entries) (hfit : state.CountsFit)
    (order : IterationOrder FileNumber) :
    (files.apply ⟨order, .rename_snapshot state⟩).Trails state entries :=
  ⟨h.made, h.log, order, state, rfl, hfit, fun _ _ => rfl⟩

theorem ManifestFiles.trails_truncated (files : ManifestFiles) {state : ManifestState FileNumber}
    (hfit : state.CountsFit) (order : IterationOrder FileNumber) :
    ((files.apply ⟨order, .rename_snapshot state⟩).apply ⟨order, .truncate_log⟩).Trails state [] :=
  ⟨⟨state, rfl⟩, rfl, order, state, rfl, hfit, fun _ _ => rfl⟩

/-- One call keeps the files in step with the ledger. The call makes no edit, or
its append fails and a snapshot is written, or the append succeeds and a checkpoint
follows as far as its own outcomes let it. -/
theorem ManifestFiles.Trails.step {files : ManifestFiles} {manager : ManifestManager FileNumber}
    {entries : List LedgerEntry} (h : files.Trails manager.state entries) (step : FallbackStep)
    (hfit : (manager.call step.io step.call).1.state.CountsFit) :
    ((((manager.call step.io step.call).2.map (ManifestFileEffect.mk step.order)).foldl
        ManifestFiles.apply files)).Trails (manager.call step.io step.call).1.state
      (match step.call.edit? manager.state with
        | none => entries
        | some edit => if manager.truncates step then [] else entries ++ [⟨edit, step.append_ok⟩]) := by
  rw [ManifestManager.call_eq] at hfit ⊢
  cases hedit : step.call.edit? manager.state with
  | none => exact h
  | some edit =>
    simp only [hedit] at hfit ⊢
    cases happend : step.append_ok with
    | false =>
      have hpersist := step.falls_back happend
      simp only [ManifestManager.record_edit, FallbackStep.io, happend, ManifestManager.persist,
        hpersist, ManifestManager.truncates] at hfit ⊢
      exact h.fall_back edit hfit step.order
    | true =>
      have hlogged := h.append edit
      have hstate : ({ manager with state := manager.state.apply_edit edit }.record_edit step.io
          edit).1.state = manager.state.apply_edit edit :=
        (ManifestManager.record_edit_effects _ _ _ (by simp [FallbackStep.io, happend])).1
      rw [hstate] at hfit ⊢
      have hrenamed := hlogged.rename hfit step.order
      have htruncated := (files.append_log edit.encode).trails_truncated hfit step.order
      simp only [ManifestManager.record_edit, FallbackStep.io, happend, ManifestManager.truncates,
        ManifestManager.maybe_checkpoint, ManifestManager.persist, ManifestManager.truncate_log]
      by_cases hbelow : manager.edits_since_checkpoint + 1 < kManifestCheckpointThreshold
      · have hshort : ¬ kManifestCheckpointThreshold ≤ manager.edits_since_checkpoint + 1 :=
          UInt32.not_le.mpr hbelow
        simpa [hbelow, hshort, ManifestFiles.apply] using hlogged
      · have hreached : kManifestCheckpointThreshold ≤ manager.edits_since_checkpoint + 1 :=
          UInt32.not_lt.mp hbelow
        cases hpersist : step.persist_ok with
        | false => simpa [hbelow, hreached, ManifestFiles.apply] using hlogged
        | true =>
          cases step.truncate_ok with
          | false => simpa [hbelow, hreached, ManifestFiles.apply] using hrenamed
          | true => simpa [hbelow, hreached, ManifestFiles.apply] using htruncated

/-- Any number of calls keeps the files in step with the ledger. -/
theorem ManifestFiles.Trails.run {files : ManifestFiles} {manager : ManifestManager FileNumber}
    {entries : List LedgerEntry} (h : files.Trails manager.state entries)
    (steps : List FallbackStep)
    (hfit : ∀ before, before <+: steps → (manager.after before).state.CountsFit) :
    (manager.files_after files steps).Trails (manager.after steps).state
      (manager.ledger entries steps) := by
  induction steps generalizing files manager entries with
  | nil => exact h
  | cons step steps ih =>
    have hnext := h.step step (by
      simpa [ManifestManager.after] using hfit [step] ⟨steps, rfl⟩)
    have hrest := ih hnext (by
      intro before hbefore
      simpa [ManifestManager.after] using
        hfit (step :: before) (List.cons_prefix_cons.mpr ⟨rfl, hbefore⟩))
    simp only [ManifestManager.files_after, ManifestManager.ledger]
    cases hedit : step.call.edit? manager.state with
    | none => simpa only [hedit, ManifestManager.after, List.foldl_cons] using hrest
    | some edit => simpa only [hedit, ManifestManager.after, List.foldl_cons] using hrest

/-- Falling back to a snapshot. A manager starts on a snapshot and a log that hold
its state, and any of its appends may fail and be replaced by a snapshot. A fresh
manager then recovers the state in memory exactly when, for every part of the
manifest, the last edit of it that the log holds writes what the last edit of it
writes: the log that the fallback leaves in place undoes everything else. -/
theorem ManifestManager.fallback_recovers_iff (self : ManifestManager FileNumber)
    (order : IterationOrder FileNumber) (snapshot : ManifestState FileNumber) (log : Option Bytes)
    (edits : List (ManifestEdit FileNumber))
    (hlog : log.getD [] = edits.flatMap ManifestEdit.encode)
    (hstate : self.state = snapshot.apply_edits edits) (hsnapshot : snapshot.CountsFit)
    (steps : List FallbackStep)
    (hfit : ∀ before, before <+: steps → (self.after before).state.CountsFit) :
    (recover (self.files_after ⟨some (persist_state order snapshot), log⟩ steps)).map
        ManifestManager.state = some (self.after steps).state ↔
      LastWritesLogged (self.ledger (edits.map (LedgerEntry.mk · true)) steps) := by
  have hedits : edits_of (edits.map (LedgerEntry.mk · true)) = edits := by
    simp [edits_of, Function.comp_def]
  have hlogged : logged_of (edits.map (LedgerEntry.mk · true)) = edits := by
    simp [logged_of, List.filter_map, Function.comp_def]
  have hstart : ManifestFiles.Trails ⟨some (persist_state order snapshot), log⟩ self.state
      (edits.map (LedgerEntry.mk · true)) := by
    refine ⟨⟨snapshot, by rw [hedits, hstate]⟩, by rw [hlogged, hlog], order, snapshot, rfl,
      hsnapshot, ?_⟩
    intro c hnone
    rw [hlogged] at hnone
    have hread := manifestModel.read_applyAll edits snapshot c
    rw [hnone, Option.getD_none] at hread
    rw [hstate]
    exact hread.symm
  exact (hstart.run steps hfit).recover_iff

/-- An allocation with the given outcome of its append. -/
def allocation (append_ok : Bool) : FallbackStep :=
  { call := .allocate_file_number, append_ok, persist_ok := true, truncate_ok := true,
    order := .forward, falls_back := fun _ => rfl }

/-- A failed append is recovered when a later append of the same part succeeds. -/
theorem fallback_recovers_two_allocations :
    (ManifestManager.recover (ManifestManager.new.files_after
        ⟨some (persist_state .forward .initial), none⟩ [allocation false, allocation true])).map
      ManifestManager.state =
        some (ManifestManager.new.after [allocation false, allocation true]).state := by
  have hfit : ∀ before, before <+: [allocation false, allocation true] →
      (ManifestManager.new.after before).state.CountsFit := by
    intro before hbefore
    rw [List.prefix_iff_eq_take] at hbefore
    generalize before.length = count at hbefore
    subst hbefore
    rcases count with _ | _ | count <;>
      simp [ManifestState.CountsFit, ManifestManager.after, ManifestManager.new, allocation,
        ManifestManager.call, ManifestManager.allocate_file_number, ManifestManager.record_edit,
        FallbackStep.io, ManifestManager.maybe_checkpoint, kManifestCheckpointThreshold,
        ManifestState.initial]
  refine (ManifestManager.fallback_recovers_iff .new .forward .initial none [] rfl rfl
    (by simp [ManifestState.CountsFit, ManifestState.initial]) _ hfit).mpr ?_
  have hledger : ManifestManager.new.ledger [] [allocation false, allocation true] =
      [⟨.SetNextFileNumber 1, false⟩, ⟨.SetNextFileNumber 2, true⟩] := rfl
  intro c v hwritten
  rw [List.map_nil, hledger] at hwritten ⊢
  cases c <;> simp_all [logged_of, edits_of, OverwriteModel.written, manifestModel,
    ManifestEdit.cell, ManifestEdit.value]

/-- One logged allocation, then one whose append fails: the number that only the
snapshot holds is replaced by the older one in the log. -/
theorem fallback_undone_by_older_log :
    ¬ ∀ steps : List FallbackStep,
      (ManifestManager.recover (ManifestManager.new.files_after
          ⟨some (persist_state .forward .initial), none⟩ steps)).map ManifestManager.state =
        some (ManifestManager.new.after steps).state := by
  intro hall
  have heq := congrArg (Option.map ManifestState.next_file_number)
    (hall [allocation true, allocation false])
  rw [Option.map_map] at heq
  have hrecovered : (ManifestManager.recover (ManifestManager.new.files_after
      ⟨some (persist_state .forward .initial), none⟩ [allocation true, allocation false])).map
        (ManifestState.next_file_number ∘ ManifestManager.state) = some 1 := by decide +kernel
  have hmemory : (ManifestManager.new.after [allocation true, allocation false]).state.next_file_number
      = 2 := rfl
  rw [hrecovered, Option.map_some, hmemory] at heq
  exact absurd heq (by decide)

end NovaKV
