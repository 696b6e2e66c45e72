import NovaKV.Manifest.RoundTrip

open Std
open NovaKV.Lib

namespace NovaKV

/-- One recording call of a session, with the outcomes of the checkpoint it may
trigger and the order in which that snapshot would list the logs. The append
itself succeeds. -/
structure ManifestStep where
  call : ManifestCall FileNumber
  persist_ok : Bool
  truncate_ok : Bool
  order : IterationOrder FileNumber

def ManifestStep.io (step : ManifestStep) : EditIo :=
  { persist_ok := step.persist_ok, truncate_ok := step.truncate_ok }

/-- A file effect together with the log order a snapshot uses. -/
structure ManifestFileEffect where
  order : IterationOrder FileNumber
  effect : ManifestEffect FileNumber

/-- The edit whose record an effect appends. -/
def ManifestFileEffect.appended (effect : ManifestFileEffect) : Option (ManifestEdit FileNumber) :=
  match effect.effect with
  | .append_edit edit => some edit
  | _ => none

@[simp] theorem ManifestFileEffect.appended_append_edit (order : IterationOrder FileNumber)
    (edit : ManifestEdit FileNumber) : appended ⟨order, .append_edit edit⟩ = some edit := rfl

@[simp] theorem ManifestFileEffect.appended_rename_snapshot (order : IterationOrder FileNumber)
    (snapshot : ManifestState FileNumber) : appended ⟨order, .rename_snapshot snapshot⟩ = none := rfl

@[simp] theorem ManifestFileEffect.appended_truncate_log (order : IterationOrder FileNumber) :
    appended ⟨order, .truncate_log⟩ = none := rfl

def ManifestFiles.append_log (files : ManifestFiles) (bytes : Bytes) : ManifestFiles :=
  { files with log := some (files.log.getD [] ++ bytes) }

def ManifestFiles.apply (files : ManifestFiles) (effect : ManifestFileEffect) : ManifestFiles :=
  match effect.effect with
  | .append_edit edit => files.append_log edit.encode
  | .rename_snapshot snapshot =>
    { files with manifest := some (persist_state effect.order snapshot) }
  | .truncate_log => { files with log := some [] }

/-- The file effects of a sequence of calls, in order. -/
def ManifestManager.file_effects (self : ManifestManager FileNumber) :
    List ManifestStep → List ManifestFileEffect
  | [] => []
  | step :: steps =>
    let (next, effects) := self.call step.io step.call
    effects.map (ManifestFileEffect.mk step.order) ++ next.file_effects steps

/-- A session ends after some number of file effects. When the next effect is
an append, a proper prefix of its record may still reach the log. -/
structure ManifestSession where
  steps : List ManifestStep
  effects_done : Nat
  torn_bytes : Nat

def ManifestSession.done (session : ManifestSession) (manager : ManifestManager FileNumber) :
    List ManifestFileEffect :=
  (manager.file_effects session.steps).take session.effects_done

/-- The bytes of the interrupted append that reached the log. -/
def ManifestSession.torn (session : ManifestSession) (manager : ManifestManager FileNumber) : Bytes :=
  match (manager.file_effects session.steps)[session.effects_done]?.bind ManifestFileEffect.appended with
  | some edit => edit.encode.dropLast.take session.torn_bytes
  | none => []

/-- The edits of a session whose record was written completely. -/
def ManifestSession.edits (session : ManifestSession) (manager : ManifestManager FileNumber) :
    List (ManifestEdit FileNumber) :=
  (session.done manager).filterMap ManifestFileEffect.appended

/-- The files a session leaves behind. -/
def ManifestSession.leave (session : ManifestSession) (manager : ManifestManager FileNumber)
    (files : ManifestFiles) : ManifestFiles :=
  let after := (session.done manager).foldl ManifestFiles.apply files
  if (session.torn manager).isEmpty then after else after.append_log (session.torn manager)

/-- Run a session on the files of a directory: a new manager recovers and makes
its calls until the session stops. -/
def ManifestFiles.run_session (files : ManifestFiles) (session : ManifestSession) :
    Option (ManifestFiles × List (ManifestEdit FileNumber)) :=
  (ManifestManager.recover files).map fun manager =>
    (session.leave manager files, session.edits manager)

def ManifestFiles.run_sessions (files : ManifestFiles) :
    List ManifestSession → Option (ManifestFiles × List (ManifestEdit FileNumber))
  | [] => some (files, [])
  | session :: sessions => do
    let (files, first) ← files.run_session session
    let (files, rest) ← files.run_sessions sessions
    some (files, first ++ rest)

/-- Both counts of a snapshot fit their 32-bit fields. -/
def ManifestState.CountsFit (state : ManifestState FileNumber) : Prop :=
  state.sst_levels.size < 2 ^ 32 ∧ state.live_wals.size < 2 ^ 32

/-- The files hold a snapshot and a log of complete records, followed by a tail
at which replay stops, and together stand for the given state. -/
structure ManifestFiles.Represents (files : ManifestFiles) (state : ManifestState FileNumber)
    (tail : Bytes) : Prop where
  stops : replay_record tail = .stop
  contents : ∃ (order : IterationOrder FileNumber) (snapshot : ManifestState FileNumber)
    (edits : List (ManifestEdit FileNumber)),
    files.manifest = some (persist_state order snapshot) ∧ snapshot.CountsFit ∧
      files.log.getD [] = edits.flatMap ManifestEdit.encode ++ tail ∧
      snapshot.apply_edits edits = state

/-- Files that represent a state are recovered to that state. -/
theorem ManifestFiles.Represents.recover_eq {files : ManifestFiles}
    {state : ManifestState FileNumber} {tail : Bytes} (h : files.Represents state tail) :
    ManifestManager.recover files = some { state, edits_since_checkpoint := 0 } := by
  obtain ⟨hstop, order, snapshot, edits, hmanifest, hfit, hlog, rfl⟩ := h
  obtain ⟨manifest, log⟩ := files
  subst hmanifest
  have hload := load_state_persist_state .initial snapshot order hfit.1 hfit.2
  cases log with
  | none =>
    have hnil : edits = [] := by
      have hempty : edits.flatMap ManifestEdit.encode = [] :=
        (List.append_eq_nil_iff.mp hlog.symm).1
      have hlength := length_le_flatMap_encode edits
      rw [hempty] at hlength
      exact List.length_eq_zero_iff.mp (Nat.le_zero.mp hlength)
    subst hnil
    simp [ManifestManager.recover, ManifestManager.load, ManifestManager.new, hload,
      ManifestManager.replay_log]
  | some bytes =>
    have hbytes : bytes = edits.flatMap ManifestEdit.encode ++ tail := hlog
    subst hbytes
    simp [ManifestManager.recover, ManifestManager.load, ManifestManager.new, hload,
      ManifestManager.replay_log_torn _ _ edits hstop]

theorem ManifestFiles.Represents.append {files : ManifestFiles} {state : ManifestState FileNumber}
    (h : files.Represents state []) (edit : ManifestEdit FileNumber) :
    (files.append_log edit.encode).Represents (state.apply_edit edit) [] := by
  obtain ⟨hstop, order, snapshot, edits, hmanifest, hfit, hlog, rfl⟩ := h
  refine ⟨hstop, order, snapshot, edits ++ [edit], hmanifest, hfit, ?_, ?_⟩
  · simp [ManifestFiles.append_log, hlog]
  · exact ManifestState.apply_edits_concat snapshot edits edit

theorem ManifestFiles.Represents.append_torn {files : ManifestFiles}
    {state : ManifestState FileNumber} (h : files.Represents state []) {torn : Bytes}
    (hstop : replay_record torn = .stop) : (files.append_log torn).Represents state torn := by
  obtain ⟨_, order, snapshot, edits, hmanifest, hfit, hlog, hstate⟩ := h
  refine ⟨hstop, order, snapshot, edits, hmanifest, hfit, ?_, hstate⟩
  simp [ManifestFiles.append_log, hlog]

/-- Between the rename of a snapshot and the truncation of the log, the log is
replayed over a snapshot that already contains it. -/
theorem ManifestFiles.Represents.rename {files : ManifestFiles} {state : ManifestState FileNumber}
    (h : files.Represents state []) (hfit : state.CountsFit) (order : IterationOrder FileNumber) :
    (files.apply ⟨order, .rename_snapshot state⟩).Represents state [] := by
  obtain ⟨hstop, _, snapshot, edits, _, _, hlog, rfl⟩ := h
  exact ⟨hstop, order, _, edits, rfl, hfit, hlog, snapshot.apply_edits_idem edits⟩

theorem ManifestFiles.represents_truncated (files : ManifestFiles) {state : ManifestState FileNumber}
    (hfit : state.CountsFit) (order : IterationOrder FileNumber) :
    ((files.apply ⟨order, .rename_snapshot state⟩).apply ⟨order, .truncate_log⟩).Represents state [] :=
  ⟨replay_record_nil, order, state, [], rfl, hfit, rfl, rfl⟩

end NovaKV
