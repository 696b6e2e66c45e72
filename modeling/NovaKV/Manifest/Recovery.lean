import NovaKV.Manifest.Session

open Std
open NovaKV.Lib

namespace NovaKV

/-- What a call whose append succeeds may do: nothing, or one appended edit that
is also applied in memory, followed by some part of a checkpoint. -/
theorem ManifestManager.call_cases (self : ManifestManager FileNumber) (step : ManifestStep) :
    self.call step.io step.call = (self, []) ∨
      ∃ edit rest, (self.call step.io step.call).1.state = self.state.apply_edit edit ∧
        (self.call step.io step.call).2 = .append_edit edit :: rest ∧
        (rest = [] ∨ rest = [.rename_snapshot (self.state.apply_edit edit)] ∨
          rest = [.rename_snapshot (self.state.apply_edit edit), .truncate_log]) := by
  rw [ManifestManager.call_eq]
  cases step.call.edit? self.state with
  | none => exact .inl rfl
  | some edit =>
    obtain ⟨hstate, rest, heffects, hrest⟩ := ManifestManager.record_edit_effects
      { self with state := self.state.apply_edit edit } step.io edit rfl
    exact .inr ⟨edit, rest, hstate, heffects, hrest⟩

/-- A sequence of effects keeps the files in step with the edits it appends. -/
private def TakesEffect (files : ManifestFiles) (state : ManifestState FileNumber)
    (effects : List ManifestFileEffect) : Prop :=
  (effects.foldl ManifestFiles.apply files).Represents
    (state.apply_edits (effects.filterMap ManifestFileEffect.appended)) []

private theorem takesEffect_checkpoint {files : ManifestFiles} {state : ManifestState FileNumber}
    (h : files.Represents state []) (order : IterationOrder FileNumber)
    {edit : ManifestEdit FileNumber} {rest : List (ManifestEffect FileNumber)}
    (hrest : rest = [] ∨ rest = [.rename_snapshot (state.apply_edit edit)] ∨
      rest = [.rename_snapshot (state.apply_edit edit), .truncate_log])
    (hfit : (state.apply_edit edit).CountsFit) (count : Nat) :
    TakesEffect files state
      (((ManifestEffect.append_edit edit :: rest).map (ManifestFileEffect.mk order)).take count) := by
  have happend := h.append edit
  have hrename := happend.rename hfit order
  have htruncate := (files.append_log edit.encode).represents_truncated hfit order
  rcases hrest with rfl | rfl | rfl <;> rcases count with _ | _ | _ | count <;>
    simp_all [TakesEffect, ManifestFiles.apply, List.filterMap_cons]

private theorem takesEffect_append {files : ManifestFiles} {state : ManifestState FileNumber}
    {first second : List ManifestFileEffect}
    (h : TakesEffect (first.foldl ManifestFiles.apply files)
      (state.apply_edits (first.filterMap ManifestFileEffect.appended)) second) :
    TakesEffect files state (first ++ second) := by
  simpa only [TakesEffect, List.foldl_append, List.filterMap_append,
    ManifestState.apply_edits_append] using h

/-- Stopping the calls of a session after any number of file effects leaves
files that represent exactly the appended edits. The induction is on the calls;
a stop inside one call leaves a prefix of its append, rename and truncation. -/
private theorem takesEffect_file_effects (steps : List ManifestStep)
    (manager : ManifestManager FileNumber) (files : ManifestFiles) (count : Nat)
    (h : files.Represents manager.state [])
    (hfit : ∀ n, (manager.state.apply_edits ((((manager.file_effects steps).take count).filterMap
      ManifestFileEffect.appended).take n)).CountsFit) :
    TakesEffect files manager.state ((manager.file_effects steps).take count) := by
  induction steps generalizing manager files count with
  | nil => simpa [ManifestManager.file_effects, TakesEffect] using h
  | cons step steps ih =>
    simp only [ManifestManager.file_effects] at hfit ⊢
    rcases manager.call_cases step with hnone | ⟨edit, rest, hstate, heffects, hrest⟩
    · rw [hnone] at hfit ⊢
      simp only [List.map_nil, List.nil_append] at hfit ⊢
      exact ih manager files count h hfit
    · cases count with
      | zero => simpa [TakesEffect] using h
      | succ count =>
        have hedit : (manager.state.apply_edit edit).CountsFit := by
          have := hfit 1
          simpa [heffects] using this
        have hcall := fun n => takesEffect_checkpoint h step.order hrest hedit n
        have happended : ((ManifestEffect.append_edit edit :: rest).map
            (ManifestFileEffect.mk step.order)).filterMap ManifestFileEffect.appended = [edit] := by
          rcases hrest with rfl | rfl | rfl <;> simp
        rw [heffects] at hfit ⊢
        rw [List.take_append] at hfit ⊢
        by_cases hinside : count + 1 < (ManifestEffect.append_edit edit :: rest).length
        · have hzero : count + 1 - ((ManifestEffect.append_edit edit :: rest).map
              (ManifestFileEffect.mk step.order)).length = 0 := by
            rw [List.length_map]
            omega
          rw [hzero, List.take_zero, List.append_nil]
          exact hcall _
        · rw [List.take_of_length_le (by rw [List.length_map]; omega)] at hfit ⊢
          have hwhole := hcall (rest.length + 1)
          rw [List.take_of_length_le (by simp)] at hwhole
          simp only [TakesEffect, happended, ManifestState.apply_edits_cons,
            ManifestState.apply_edits_nil] at hwhole
          apply takesEffect_append
          simp only [happended, ManifestState.apply_edits_cons, ManifestState.apply_edits_nil]
          rw [← hstate] at hwhole ⊢
          apply ih _ _ _ hwhole
          intro n
          have := hfit (n + 1)
          simpa only [List.filterMap_append, happended, List.singleton_append, List.take_succ_cons,
            ManifestState.apply_edits_cons, ← hstate] using this

theorem ManifestSession.torn_stops (session : ManifestSession) (manager : ManifestManager FileNumber) :
    replay_record (session.torn manager) = .stop := by
  unfold torn
  split
  · next edit _ =>
    have hlength : 0 < edit.encode.length := by
      rw [edit.encode_length]
      omega
    apply replay_record_torn edit ((List.take_prefix _ _).trans (List.dropLast_prefix _))
    intro heq
    have := congrArg List.length heq
    simp only [List.length_take, List.length_dropLast] at this
    omega
  · exact replay_record_nil

theorem ManifestSession.torn_eq_nil (session : ManifestSession) (manager : ManifestManager FileNumber)
    (hwhole : session.torn_bytes = 0) : session.torn manager = [] := by
  unfold torn
  split <;> simp [hwhole]

/-- One session on files that represent a state succeeds and leaves files that
represent the state after its completely written edits. -/
theorem ManifestFiles.Represents.run_session {files : ManifestFiles}
    {state : ManifestState FileNumber} (h : files.Represents state []) (session : ManifestSession)
    (hfit : ∀ after edits, files.run_session session = some (after, edits) →
      ∀ n, (state.apply_edits (edits.take n)).CountsFit) :
    ∃ after edits tail, files.run_session session = some (after, edits) ∧
      after.Represents (state.apply_edits edits) tail ∧ (session.torn_bytes = 0 → tail = []) := by
  have hrun : files.run_session session =
      some (session.leave ⟨state, 0⟩ files, session.edits ⟨state, 0⟩) := by
    simp [ManifestFiles.run_session, h.recover_eq]
  have hdone := takesEffect_file_effects session.steps ⟨state, 0⟩ files session.effects_done h
    (hfit _ _ hrun)
  refine ⟨_, _, session.torn ⟨state, 0⟩, hrun, ?_, session.torn_eq_nil _⟩
  by_cases htorn : session.torn ⟨state, 0⟩ = []
  · simp only [ManifestSession.leave, htorn, List.isEmpty_nil, if_true]
    exact hdone
  · simp only [ManifestSession.leave, List.isEmpty_iff, htorn, if_false]
    exact hdone.append_torn (session.torn_stops _)

/-- Any number of sessions without a torn append keeps the files in step. -/
private theorem run_sessions_represents (sessions : List ManifestSession) (files : ManifestFiles)
    (state : ManifestState FileNumber) (h : files.Represents state [])
    (hwhole : ∀ session ∈ sessions, session.torn_bytes = 0)
    (hfit : ∀ history after edits, history <+: sessions →
      files.run_sessions history = some (after, edits) →
        ∀ n, (state.apply_edits (edits.take n)).CountsFit) :
    ∃ after edits, files.run_sessions sessions = some (after, edits) ∧
      after.Represents (state.apply_edits edits) [] := by
  induction sessions generalizing files state with
  | nil => exact ⟨files, [], rfl, h⟩
  | cons session sessions ih =>
    obtain ⟨middle, first, tail, hfirst, hmiddle, htail⟩ := h.run_session session (by
      intro after edits hrun n
      have hone : files.run_sessions [session] = some (after, edits) := by
        simp [ManifestFiles.run_sessions, hrun]
      exact hfit [session] after edits ⟨sessions, rfl⟩ hone n)
    rw [htail (hwhole session (by simp))] at hmiddle
    obtain ⟨after, rest, hrest, hafter⟩ := ih middle (state.apply_edits first) hmiddle
      (fun s hs => hwhole s (by simp [hs])) (by
        intro history after edits hinit hrun n
        have hlonger : files.run_sessions (session :: history) = some (after, first ++ edits) := by
          simp [ManifestFiles.run_sessions, hfirst, hrun]
        have := hfit (session :: history) after _ (List.cons_prefix_cons.mpr ⟨rfl, hinit⟩)
          hlonger (first.length + n)
        rwa [List.take_length_add_append, ManifestState.apply_edits_append] at this)
    refine ⟨after, first ++ rest, ?_, ?_⟩
    · simp [ManifestFiles.run_sessions, hfirst, hrest]
    · rwa [ManifestState.apply_edits_append]

theorem ManifestFiles.run_sessions_concat {files middle after : ManifestFiles}
    {sessions : List ManifestSession} {last : ManifestSession}
    {first rest : List (ManifestEdit FileNumber)}
    (hfirst : files.run_sessions sessions = some (middle, first))
    (hlast : middle.run_session last = some (after, rest)) :
    files.run_sessions (sessions ++ [last]) = some (after, first ++ rest) := by
  induction sessions generalizing files first with
  | nil =>
    simp only [run_sessions, Option.some.injEq, Prod.mk.injEq] at hfirst
    obtain ⟨rfl, rfl⟩ := hfirst
    simp [run_sessions, hlast]
  | cons session sessions ih =>
    simp only [run_sessions, Option.bind_eq_bind, Option.bind_eq_some_iff, Option.some.injEq,
      Prod.mk.injEq, Prod.exists] at hfirst
    obtain ⟨next, edits, hsession, middle', edits', hsessions, rfl, rfl⟩ := hfirst
    simp [run_sessions, hsession, ih hsessions]

/-- A snapshot and a log recover the manifest. Starting from a persisted snapshot
with an empty log, after any number of sessions, each stopped after any number
of file effects, and with the last append cut at any byte, a new manager loads
and replays successfully. Its state is the snapshot changed by exactly the edits
whose record was written completely. -/
theorem ManifestManager.recover_run_sessions (snapshot : ManifestState FileNumber)
    (order : IterationOrder FileNumber) (log : Option Bytes) (hlog : log = none ∨ log = some [])
    (sessions : List ManifestSession) (last : ManifestSession)
    (hwhole : ∀ session ∈ sessions, session.torn_bytes = 0)
    (hfit : ∀ history files edits, history <+: sessions ++ [last] →
      ManifestFiles.run_sessions ⟨some (persist_state order snapshot), log⟩ history =
          some (files, edits) →
        ∀ n, (snapshot.apply_edits (edits.take n)).CountsFit) :
    ∃ files edits manager,
      ManifestFiles.run_sessions ⟨some (persist_state order snapshot), log⟩ (sessions ++ [last]) =
          some (files, edits) ∧
        ManifestManager.recover files = some manager ∧
        manager.state = snapshot.apply_edits edits := by
  have hstart : ManifestFiles.Represents ⟨some (persist_state order snapshot), log⟩ snapshot [] := by
    refine ⟨replay_record_nil, order, snapshot, [], rfl, ?_, ?_, rfl⟩
    · simpa using hfit [] _ _ (List.nil_prefix) rfl 0
    · rcases hlog with rfl | rfl <;> rfl
  obtain ⟨middle, first, hmiddle, hrep⟩ := run_sessions_represents sessions _ snapshot hstart hwhole
    (fun history after edits hinit => hfit history after edits
      (hinit.trans (List.prefix_append _ _)))
  obtain ⟨after, rest, tail, hlast, hafter, _⟩ := hrep.run_session last (by
    intro after edits hrun n
    have hall := hfit (sessions ++ [last]) after (first ++ edits) (List.prefix_refl _) 
      (ManifestFiles.run_sessions_concat hmiddle hrun) (first.length + n)
    rwa [List.take_length_add_append, ManifestState.apply_edits_append] at hall)
  exact ⟨after, first ++ rest, _, ManifestFiles.run_sessions_concat hmiddle hlast,
    hafter.recover_eq, (ManifestState.apply_edits_append _ _ _).symm⟩

/-- A first session that allocates a number, and a second one that is cut three
bytes into its first record. -/
def tornSecondSession : List ManifestSession × ManifestSession :=
  ([⟨[⟨.allocate_file_number, true, true, .forward⟩], 1, 0⟩],
    ⟨[⟨.add_wal 1, true, true, .forward⟩], 0, 3⟩)

private theorem tornSecondSession_edits (history : List ManifestSession)
    (hinit : history <+: tornSecondSession.1 ++ [tornSecondSession.2]) :
    (ManifestFiles.run_sessions ⟨some (persist_state .forward .initial), none⟩ history).map Prod.snd =
        some [] ∨
      (ManifestFiles.run_sessions ⟨some (persist_state .forward .initial), none⟩ history).map Prod.snd =
        some [.SetNextFileNumber 1] := by
  rw [List.prefix_iff_eq_take] at hinit
  generalize history.length = count at hinit
  subst hinit
  match count with
  | 0 => exact .inl (by decide)
  | 1 => exact .inr (by decide)
  | count + 2 =>
    rw [List.take_of_length_le (by simp [tornSecondSession])]
    exact .inr (by decide)

theorem recover_tornSecondSession :
    ∃ files edits manager,
      ManifestFiles.run_sessions ⟨some (persist_state .forward .initial), none⟩
          (tornSecondSession.1 ++ [tornSecondSession.2]) = some (files, edits) ∧
        ManifestManager.recover files = some manager ∧
        manager.state = ManifestState.initial.apply_edits edits := by
  apply ManifestManager.recover_run_sessions .initial .forward none (.inl rfl) tornSecondSession.1
    tornSecondSession.2 (by simp [tornSecondSession])
  intro history files edits hinit hrun n
  have hedits := tornSecondSession_edits history hinit
  simp only [hrun, Option.map_some, Option.some.injEq] at hedits
  rcases hedits with rfl | rfl <;> cases n <;>
    simp [ManifestState.CountsFit, ManifestState.initial, ManifestState.apply_edit]

end NovaKV
