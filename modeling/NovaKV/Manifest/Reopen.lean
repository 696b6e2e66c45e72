import NovaKV.Manifest.Session
import NovaKV.Manifest.TornTail

open Std
open NovaKV.Lib

namespace NovaKV

/-- The edits a sequence of calls appends to the log. -/
def ManifestManager.recorded (self : ManifestManager FileNumber) (steps : List ManifestStep) :
    List (ManifestEdit FileNumber) :=
  (self.file_effects steps).filterMap ManifestFileEffect.appended

/-- The files after a sequence of calls that all complete. -/
def ManifestManager.perform (self : ManifestManager FileNumber) (files : ManifestFiles)
    (steps : List ManifestStep) : ManifestFiles :=
  (self.file_effects steps).foldl ManifestFiles.apply files

/-- Recovery does not distinguish an absent log from an empty one. -/
theorem ManifestManager.recover_congr {files other : ManifestFiles}
    (hmanifest : files.manifest = other.manifest) (hlog : files.log.getD [] = other.log.getD []) :
    recover files = recover other := by
  have hreplay : ∀ manager : ManifestManager FileNumber,
      manager.replay_log files = manager.replay_log other := by
    intro manager
    have hempty : ∀ log : Option Bytes, ManifestManager.replay_log manager ⟨files.manifest, log⟩ =
        manager.replay_log ⟨files.manifest, some (log.getD [])⟩ := by
      intro log
      cases log <;> simp [replay_log, replay_loop]
    obtain ⟨manifest, log⟩ := files
    obtain ⟨manifest', log'⟩ := other
    subst hmanifest
    rw [hempty log, hempty log', hlog]
  have hload : new.load files = new.load other := by simp only [load, hmanifest]
  rw [recover, recover, hload]
  cases new.load other with
  | mk loaded manager => simp only [hreplay]

/-- Below the checkpoint threshold a call that records an edit only appends it. -/
theorem ManifestManager.file_effects_cons_below {self : ManifestManager FileNumber}
    {step : ManifestStep} (steps : List ManifestStep) {edit : ManifestEdit FileNumber}
    (hedit : step.call.edit? self.state = some edit)
    (hbelow : self.edits_since_checkpoint + 1 < kManifestCheckpointThreshold) :
    self.file_effects (step :: steps) = ⟨step.order, .append_edit edit⟩ ::
      (ManifestManager.mk (self.state.apply_edit edit)
        (self.edits_since_checkpoint + 1)).file_effects steps := by
  simp [file_effects, call_eq, hedit, record_edit, ManifestStep.io, maybe_checkpoint, hbelow]

theorem ManifestManager.file_effects_cons_silent {self : ManifestManager FileNumber}
    {step : ManifestStep} (steps : List ManifestStep) (hnone : step.call.edit? self.state = none) :
    self.file_effects (step :: steps) = self.file_effects steps := by
  simp [file_effects, call_eq, hnone]

private theorem one_le_recorded_cons {self : ManifestManager FileNumber} {step : ManifestStep}
    (steps : List ManifestStep) {edit : ManifestEdit FileNumber}
    (hedit : step.call.edit? self.state = some edit) :
    1 ≤ (self.recorded (step :: steps)).length := by
  obtain ⟨_, rest, heffects, _⟩ := ManifestManager.record_edit_effects
    { self with state := self.state.apply_edit edit } step.io edit rfl
  simp only [ManifestManager.recorded, ManifestManager.file_effects, ManifestManager.call_eq, hedit,
    heffects]
  simp

/-- Fewer edits than the threshold leave the snapshot alone and append exactly
their records. -/
theorem ManifestManager.perform_below_threshold (steps : List ManifestStep)
    (self : ManifestManager FileNumber) (files : ManifestFiles)
    (hfew : self.edits_since_checkpoint.toNat + (self.recorded steps).length <
      kManifestCheckpointThreshold.toNat) :
    (self.perform files steps).manifest = files.manifest ∧
      (self.perform files steps).log.getD [] =
        files.log.getD [] ++ (self.recorded steps).flatMap ManifestEdit.encode := by
  induction steps generalizing self files with
  | nil => simp [recorded, perform, file_effects]
  | cons step steps ih =>
    cases hedit : step.call.edit? self.state with
    | none =>
      simp only [recorded, perform, file_effects_cons_silent steps hedit] at hfew ⊢
      exact ih self files hfew
    | some edit =>
      have hone := one_le_recorded_cons steps hedit
      have hnext : (self.edits_since_checkpoint + 1).toNat = self.edits_since_checkpoint.toNat + 1 := by
        have hthreshold := kManifestCheckpointThreshold.toNat_lt
        rw [UInt32.toNat_add, UInt32.toNat_one, Nat.mod_eq_of_lt (by omega)]
      have heffects := file_effects_cons_below steps hedit (by rw [UInt32.lt_iff_toNat_lt, hnext]; omega)
      simp only [recorded, perform, heffects, List.filterMap_cons,
        ManifestFileEffect.appended_append_edit, List.length_cons, List.foldl_cons,
        List.flatMap_cons] at hfew ⊢
      obtain ⟨hmanifest, hlog⟩ := ih ⟨self.state.apply_edit edit, self.edits_since_checkpoint + 1⟩
        (files.append_log edit.encode) (by simp only [recorded, hnext]; omega)
      refine ⟨hmanifest, ?_⟩
      simp only [perform, recorded] at hlog
      simp only [ManifestFiles.apply, hlog]
      simp [ManifestFiles.append_log]

/-- Replaying complete records, a nonempty torn record and another complete
record returns false. -/
theorem replay_loop_poisoned (edits : List (ManifestEdit FileNumber))
    (edit next : ManifestEdit FileNumber) {torn : Bytes} (rest : Bytes)
    (state : ManifestState FileNumber) (hinit : torn <+: edit.encode)
    (hproper : torn ≠ edit.encode) (hnonempty : torn ≠ []) :
    (replay_loop (edits.flatMap ManifestEdit.encode ++ (torn ++ (next.encode ++ rest))).length state
      (edits.flatMap ManifestEdit.encode ++ (torn ++ (next.encode ++ rest)))).1 = false := by
  obtain ⟨fuel, hfuel⟩ : ∃ fuel, (edits.flatMap ManifestEdit.encode ++
      (torn ++ (next.encode ++ rest))).length = edits.length + (fuel + 2) := by
    have hedits := length_le_flatMap_encode edits
    have hnext := next.encode_length
    refine ⟨(edits.flatMap ManifestEdit.encode ++
      (torn ++ (next.encode ++ rest))).length - edits.length - 2, ?_⟩
    simp only [List.length_append]
    omega
  rw [hfuel, replay_loop_encode]
  rcases replay_record_poisoned edit next rest hinit hproper hnonempty with
    hfail | ⟨mixed, after, hmixed, hfail⟩
  · simp [replay_loop, hfail]
  · simp [replay_loop, hmixed, hfail]

/-- A torn record at the end of the log is harmless exactly as long as nothing is
appended after it. Opening the directory always succeeds; later edits, fewer
than the checkpoint threshold, are recovered together with the complete records
if and only if the torn part is empty or there are no later edits. -/
theorem ManifestManager.torn_tail_recovers_iff (snapshot : ManifestState FileNumber)
    (order : IterationOrder FileNumber) (edits : List (ManifestEdit FileNumber))
    (edit : ManifestEdit FileNumber) (torn : Bytes) (hfit : snapshot.CountsFit)
    (hinit : torn <+: edit.encode) (hproper : torn ≠ edit.encode) :
    ∃ manager, recover ⟨some (persist_state order snapshot),
        some (edits.flatMap ManifestEdit.encode ++ torn)⟩ = some manager ∧
      ∀ steps, (manager.recorded steps).length < kManifestCheckpointThreshold.toNat →
        ((∃ reopened, recover (manager.perform ⟨some (persist_state order snapshot),
            some (edits.flatMap ManifestEdit.encode ++ torn)⟩ steps) = some reopened ∧
          reopened.state = snapshot.apply_edits (edits ++ manager.recorded steps)) ↔
        torn = [] ∨ manager.recorded steps = []) := by
  generalize hfiles : ManifestFiles.mk (some (persist_state order snapshot))
    (some (edits.flatMap ManifestEdit.encode ++ torn)) = files
  have hrep : files.Represents (snapshot.apply_edits edits) torn := by
    rw [← hfiles]
    exact ⟨replay_record_torn edit hinit hproper, order, snapshot, edits, rfl, hfit, rfl, rfl⟩
  refine ⟨_, hrep.recover_eq, fun steps hfew => ?_⟩
  obtain ⟨hmanifest, hlog⟩ := perform_below_threshold steps
    ⟨snapshot.apply_edits edits, 0⟩ files (by simpa using hfew)
  generalize (ManifestManager.mk (snapshot.apply_edits edits) 0).recorded steps = later at hlog ⊢
  generalize (ManifestManager.mk (snapshot.apply_edits edits) 0).perform files steps = after
    at hmanifest hlog ⊢
  have hbytes : after.log.getD [] =
      edits.flatMap ManifestEdit.encode ++ (torn ++ later.flatMap ManifestEdit.encode) := by
    rw [hlog, ← hfiles]
    simp
  have hafter : after.manifest = some (persist_state order snapshot) := by rw [hmanifest, ← hfiles]
  constructor
  · rintro ⟨reopened, hreopen, _⟩
    by_contra hnot
    obtain ⟨hnonempty, hlater⟩ := not_or.mp hnot
    obtain ⟨next, rest, rfl⟩ := List.exists_cons_of_ne_nil hlater
    have hpoison := replay_loop_poisoned edits edit next (rest.flatMap ManifestEdit.encode) snapshot
      hinit hproper hnonempty
    rw [List.flatMap_cons] at hbytes
    have hsame : recover after = recover ⟨some (persist_state order snapshot), some (after.log.getD [])⟩ :=
      recover_congr hafter rfl
    rw [hsame, hbytes] at hreopen
    simp only [recover, load, new, load_state_persist_state _ snapshot order hfit.1 hfit.2,
      replay_log, hpoison] at hreopen
    simp at hreopen
  · intro hharmless
    have hstops : after.Represents (snapshot.apply_edits (edits ++ later)) torn := by
      refine ⟨replay_record_torn edit hinit hproper, order, snapshot, edits ++ later, hafter, hfit, ?_, rfl⟩
      rw [hbytes]
      rcases hharmless with rfl | rfl <;> simp
    exact ⟨_, hstops.recover_eq, rfl⟩

/-- Three bytes of a torn header, with one file number allocated after reopening. -/
theorem torn_tail_recovers_iff_three_bytes :
    ∃ manager, ManifestManager.recover ⟨some (persist_state .forward .initial),
        some [0x78, 0x56, 0x34]⟩ = some manager ∧
      ∀ steps, (manager.recorded steps).length < kManifestCheckpointThreshold.toNat →
        ((∃ reopened, ManifestManager.recover (manager.perform
            ⟨some (persist_state .forward .initial), some [0x78, 0x56, 0x34]⟩ steps) = some reopened ∧
          reopened.state = ManifestState.initial.apply_edits ([] ++ manager.recorded steps)) ↔
        ([0x78, 0x56, 0x34] : Bytes) = [] ∨ manager.recorded steps = []) :=
  ManifestManager.torn_tail_recovers_iff .initial .forward [] (.AddWAL 1) [0x78, 0x56, 0x34]
    (by simp [ManifestState.CountsFit, ManifestState.initial]) (by decide) (by decide)

/-- One byte of a torn record and one allocation after reopening: the next open
fails, although the allocation was recorded. -/
theorem torn_tail_poisons_allocation :
    ¬ ∀ (torn : Bytes) (edit : ManifestEdit FileNumber), torn <+: edit.encode → torn ≠ edit.encode →
      ∀ manager, ManifestManager.recover ⟨some (persist_state .forward .initial), some torn⟩ =
          some manager →
        ∀ steps, (manager.recorded steps).length < kManifestCheckpointThreshold.toNat →
          ∃ reopened, ManifestManager.recover (manager.perform
              ⟨some (persist_state .forward .initial), some torn⟩ steps) = some reopened ∧
            reopened.state = ManifestState.initial.apply_edits (manager.recorded steps) := by
  intro hclaim
  obtain ⟨reopened, hreopen, _⟩ := hclaim [0x78] (.AddWAL 1) (by decide) (by decide)
    ⟨.initial, 0⟩ rfl [⟨.allocate_file_number, true, true, .forward⟩] (by decide)
  have hfails : (ManifestManager.recover (ManifestManager.perform ⟨.initial, 0⟩
      ⟨some (persist_state .forward .initial), some [0x78]⟩
      [⟨.allocate_file_number, true, true, .forward⟩])).isSome = false := by
    decide
  rw [hreopen] at hfails
  simp at hfails

end NovaKV
