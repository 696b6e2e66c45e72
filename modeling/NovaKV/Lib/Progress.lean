import Mathlib

namespace NovaKV.Lib

/-- A run of steps, each of which can be made when its turn comes. -/
def runSteps {S E : Type} (step : S → E → Option S) : S → List E → Option S
  | state, [] => some state
  | state, event :: events => (step state event).bind fun next => runSteps step next events

/-- The state of an endless run before the event at a position. -/
def stateAt {S E : Type} (step : S → E → S) (first : S) (events : Nat → E) : Nat → S
  | 0 => first
  | position + 1 => step (stateAt step first events position) (events position)

/-- Weak fairness: what can be done from some time on without a break is done at some
time after it. -/
def WeaklyFair {S E K : Type} (enabled : K → S → Prop) (performs : K → S → E → Prop) (states : Nat → S)
    (events : Nat → E) : Prop :=
  ∀ activity start, (∀ position, start ≤ position → enabled activity (states position)) →
    ∃ position, start ≤ position ∧ performs activity (states position) (events position)

/-- An invariant under which every step goes down in rank. -/
structure Descends {S E : Type} (step : S → E → Option S) (invariant : S → Prop) (rank : S → Nat) : Prop where
  keeps : ∀ {state event next}, invariant state → step state event = some next → invariant next
  down : ∀ {state event next}, invariant state → step state event = some next → rank next < rank state

namespace Descends

section

variable {S E : Type} {step : S → E → Option S} {invariant : S → Prop} {rank : S → Nat} {state last : S}
  {events : List E}

/-- A run keeps the invariant and is no longer than the rank that it uses up. -/
theorem run (h : Descends step invariant rank) (hstate : invariant state)
    (hrun : runSteps step state events = some last) : invariant last ∧ rank last + events.length ≤ rank state := by
  induction events generalizing state with
  | nil =>
    cases hrun
    exact ⟨hstate, Nat.le_refl _⟩
  | cons event events ih =>
    obtain ⟨next, hstep, hrest⟩ := Option.bind_eq_some_iff.mp hrun
    obtain ⟨hlast, hle⟩ := ih (h.keeps hstate hstep) hrest
    refine ⟨hlast, ?_⟩
    have hdown := h.down hstate hstep
    rw [List.length_cons]
    omega

/-- There is a run to a state where no step can be made. -/
theorem exists_final (h : Descends step invariant rank) (hstate : invariant state) :
    ∃ events last, runSteps step state events = some last ∧ ∀ event, step last event = none := by
  induction hrank : rank state using Nat.strong_induction_on generalizing state with
  | _ bound ih =>
    subst hrank
    by_cases hfinal : ∀ event, step state event = none
    · exact ⟨[], state, rfl, hfinal⟩
    · rw [not_forall] at hfinal
      obtain ⟨event, hevent⟩ := hfinal
      obtain ⟨next, hstep⟩ := Option.ne_none_iff_exists'.mp hevent
      obtain ⟨events, last, hrun, hlast⟩ := ih _ (h.down hstate hstep) (h.keeps hstate hstep) rfl
      refine ⟨event :: events, last, ?_, hlast⟩
      rw [runSteps, hstep]
      exact hrun

end

end Descends

/-- Activities that lead to a goal. Short of it one of them can be performed, and this
goes down in rank. A step that does not go down does not go up either, and all that
could be performed before it still can. -/
structure Settles {S E K R : Type} [Preorder R] (step : S → E → S) (invariant goal : S → Prop)
    (enabled : K → S → Prop) (performs : K → S → E → Prop) (rank : S → R) : Prop where
  keeps : ∀ {state event}, invariant state → invariant (step state event)
  some_enabled : ∀ {state}, invariant state → ¬ goal state → ∃ activity, enabled activity state
  able : ∀ {activity state}, invariant state → enabled activity state → ∃ event, performs activity state event
  down : ∀ {activity state event}, invariant state → enabled activity state → performs activity state event →
    rank (step state event) < rank state
  calm : ∀ {state} event, invariant state → rank (step state event) < rank state ∨
    rank (step state event) ≤ rank state ∧ ∀ activity, enabled activity state → enabled activity (step state event)

namespace Settles

section

variable {S E K R : Type} [Preorder R] [WellFoundedLT R] {step : S → E → S} {invariant goal : S → Prop}
  {enabled : K → S → Prop} {performs : K → S → E → Prop} {rank : S → R} {state : S} {events : Nat → E}

omit [WellFoundedLT R] in
theorem invariant_stateAt (h : Settles step invariant goal enabled performs rank) (hstate : invariant state)
    (position : Nat) : invariant (stateAt step state events position) := by
  induction position with
  | zero => exact hstate
  | succ position ih => exact h.keeps ih

/-- A fair run reaches the goal. -/
theorem eventually (h : Settles step invariant goal enabled performs rank) (hstate : invariant state)
    (hfair : WeaklyFair enabled performs (stateAt step state events) events) :
    ∃ position, goal (stateAt step state events position) := by
  by_contra hnever
  rw [not_exists] at hnever
  -- From a position of least rank on, nothing goes down any more.
  obtain ⟨least, ⟨start, rfl⟩, hleast⟩ := wellFounded_lt.has_min
    (Set.range fun position => rank (stateAt step state events position)) ⟨_, 0, rfl⟩
  obtain ⟨activity, hactivity⟩ := h.some_enabled (h.invariant_stateAt hstate start) (hnever start)
  have hstays : ∀ later, rank (stateAt step state events (start + later)) ≤ rank (stateAt step state events start) ∧
      enabled activity (stateAt step state events (start + later)) := by
    intro later
    induction later with
    | zero => exact ⟨le_refl _, hactivity⟩
    | succ later ih =>
      rcases h.calm (events (start + later)) (h.invariant_stateAt hstate (start + later)) with hdown | hcalm
      · exact absurd (hdown.trans_le ih.1) (hleast _ ⟨start + later + 1, rfl⟩)
      · exact ⟨hcalm.1.trans ih.1, hcalm.2 activity ih.2⟩
  obtain ⟨position, hle, hperforms⟩ := hfair activity start fun position hle => by
    obtain ⟨later, rfl⟩ := Nat.exists_eq_add_of_le hle
    exact (hstays later).2
  obtain ⟨later, rfl⟩ := Nat.exists_eq_add_of_le hle
  obtain ⟨hrank, henabled⟩ := hstays later
  have hdown := h.down (h.invariant_stateAt hstate (start + later)) henabled hperforms
  exact hleast _ ⟨start + later + 1, rfl⟩ (hdown.trans_le hrank)

/-- There are events that lead to the goal. -/
theorem exists_schedule (h : Settles step invariant goal enabled performs rank) (hstate : invariant state) :
    ∃ events : List E, goal (events.foldl step state) := by
  induction hrank : rank state using WellFoundedLT.induction generalizing state with
  | ind bound ih =>
    subst hrank
    by_cases hgoal : goal state
    · exact ⟨[], hgoal⟩
    · obtain ⟨activity, hactivity⟩ := h.some_enabled hstate hgoal
      obtain ⟨event, hevent⟩ := h.able hstate hactivity
      obtain ⟨events, hevents⟩ := ih _ (h.down hstate hactivity hevent) (h.keeps hstate) rfl
      exact ⟨event :: events, hevents⟩

end

end Settles

end NovaKV.Lib
