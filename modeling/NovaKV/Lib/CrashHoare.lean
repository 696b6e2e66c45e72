import Mathlib

namespace NovaKV.Lib

/-- What one effect does to the state that survives a crash. -/
class Effect (ε σ : Type) where
  apply : σ → ε → σ

/-- A program that reads a state and performs effects on it, one at a time: its
result and its effects, oldest first. -/
def Program (σ ε α : Type) := σ → α × List ε

section

variable {σ ε α β : Type} [Effect ε σ]

def applyAll (state : σ) (effects : List ε) : σ := effects.foldl Effect.apply state

@[simp] theorem applyAll_nil (state : σ) : applyAll state ([] : List ε) = state := rfl

@[simp] theorem applyAll_cons (state : σ) (effect : ε) (effects : List ε) :
    applyAll state (effect :: effects) = applyAll (Effect.apply state effect) effects := rfl

theorem applyAll_append (state : σ) (first second : List ε) :
    applyAll state (first ++ second) = applyAll (applyAll state first) second := by
  simp [applyAll]

/-- A crash before any of no effects. -/
theorem forall_prefix_nil {crash : List ε → Prop} : (∀ done, done <+: [] → crash done) ↔ crash [] := by
  simp only [List.prefix_nil, forall_eq]

/-- A crash among the effects comes before the first one, or among the rest. -/
theorem forall_prefix_cons {effect : ε} {effects : List ε} {crash : List ε → Prop} :
    (∀ done, done <+: effect :: effects → crash done) ↔
      crash [] ∧ ∀ done, done <+: effects → crash (effect :: done) := by
  constructor
  · intro h
    refine ⟨h [] List.nil_prefix, ?_⟩
    intro done hdone
    exact h (effect :: done) (List.cons_prefix_cons.mpr ⟨rfl, hdone⟩)
  · rintro ⟨hnil, hcons⟩ done hdone
    rcases List.prefix_cons_iff.mp hdone with rfl | ⟨rest, rfl, hrest⟩
    · exact hnil
    · exact hcons rest hrest

instance : Monad (Program σ ε) where
  pure a := fun _ => (a, [])
  bind program next := fun state =>
    let (a, effects) := program state
    let (b, rest) := next a (applyAll state effects)
    (b, effects ++ rest)

/-- Perform one effect. -/
def Program.emit (effect : ε) : Program σ ε Unit := fun _ => ((), [effect])

/-- Look at the state as the effects so far have left it. -/
def Program.read : Program σ ε σ := fun state => (state, [])

/-- The state a completed program leaves. -/
def Program.final (program : Program σ ε α) (state : σ) : σ := applyAll state (program state).2

theorem Program.bind_def (program : Program σ ε α) (next : α → Program σ ε β) (state : σ) :
    (program >>= next) state = ((next (program state).1 (program.final state)).1,
      (program state).2 ++ (next (program state).1 (program.final state)).2) := rfl

@[simp] theorem Program.pure_def (a : α) (state : σ) : (pure a : Program σ ε α) state = (a, []) := rfl

/-- Crash Hoare triple: started where `pre` holds, the program ends where `post`
holds, and `crash` holds of the state after every prefix of its effects. -/
def CrashTriple (pre : σ → Prop) (program : Program σ ε α) (post : α → σ → Prop)
    (crash : σ → Prop) : Prop :=
  ∀ state, pre state →
    (∀ done, done <+: (program state).2 → crash (applyAll state done)) ∧
      post (program state).1 (program.final state)

variable {pre : σ → Prop} {crash : σ → Prop}

theorem CrashTriple.pure {a : α} {post : α → σ → Prop}
    (h : ∀ state, pre state → crash state ∧ post a state) :
    CrashTriple pre (Pure.pure a : Program σ ε α) post crash := by
  intro state hpre
  obtain ⟨hcrash, hpost⟩ := h state hpre
  refine ⟨?_, hpost⟩
  intro done hdone
  rw [Program.pure_def, List.prefix_nil] at hdone
  subst hdone
  exact hcrash

theorem CrashTriple.emit {effect : ε} {post : Unit → σ → Prop}
    (h : ∀ state, pre state → crash state ∧ crash (Effect.apply state effect) ∧
      post () (Effect.apply state effect)) :
    CrashTriple pre (Program.emit effect) post crash := by
  intro state hpre
  obtain ⟨hbefore, hafter, hpost⟩ := h state hpre
  exact ⟨forall_prefix_cons.mpr ⟨hbefore, forall_prefix_nil.mpr hafter⟩, hpost⟩

theorem CrashTriple.read {post : σ → σ → Prop} (h : ∀ state, pre state → crash state ∧ post state state) :
    CrashTriple pre (Program.read : Program σ ε σ) post crash := by
  intro state hpre
  obtain ⟨hcrash, hpost⟩ := h state hpre
  refine ⟨?_, hpost⟩
  intro done hdone
  have hnil : done = [] := List.prefix_nil.mp hdone
  subst hnil
  exact hcrash

/-- Sequencing: the first program establishes what the second one starts from, and
both keep the crash condition. -/
theorem CrashTriple.bind {program : Program σ ε α} {next : α → Program σ ε β}
    {mid : α → σ → Prop} {post : β → σ → Prop}
    (hfirst : CrashTriple pre program mid crash)
    (hnext : ∀ a, CrashTriple (mid a) (next a) post crash) :
    CrashTriple pre (program >>= next) post crash := by
  intro state hpre
  obtain ⟨hcrash, hmid⟩ := hfirst state hpre
  obtain ⟨hcrash', hpost⟩ := hnext _ _ hmid
  refine ⟨?_, ?_⟩
  · intro done hdone
    rw [Program.bind_def] at hdone
    rcases List.prefix_or_prefix_of_prefix hdone (List.prefix_append _ _) with hfirst | ⟨rest, rfl⟩
    · exact hcrash done hfirst
    · rw [applyAll_append]
      exact hcrash' rest ((List.prefix_append_right_inj _).mp hdone)
  · rw [Program.final, Program.bind_def, applyAll_append]
    exact hpost

theorem CrashTriple.consequence {pre' : σ → Prop} {post post' : α → σ → Prop} {crash' : σ → Prop}
    {program : Program σ ε α} (h : CrashTriple pre program post crash)
    (hpre : ∀ state, pre' state → pre state) (hpost : ∀ a state, post a state → post' a state)
    (hcrash : ∀ state, crash state → crash' state) : CrashTriple pre' program post' crash' := by
  intro state hstate
  obtain ⟨hdone, hfinal⟩ := h state (hpre state hstate)
  exact ⟨fun done hinit => hcrash _ (hdone done hinit), hpost _ _ hfinal⟩

/-- Started where the view `f` of the state is `t`, the program ends with a result
and a view that satisfy `post`. -/
def Program.Yields {τ : Type} (program : Program σ ε α) (f : σ → τ) (t : τ) (post : α → τ → Prop) :
    Prop :=
  ∀ state, f state = t → post (program state).1 (f (program.final state))

theorem Program.Yields.pure {τ : Type} {f : σ → τ} {t : τ} {a : α} {post : α → τ → Prop} (h : post a t) :
    (Pure.pure a : Program σ ε α).Yields f t post := by
  rintro state rfl
  exact h

theorem Program.Yields.emit {τ : Type} {f : σ → τ} {t t' : τ} {effect : ε} {post : Unit → τ → Prop}
    (heffect : ∀ state : σ, f state = t → f (Effect.apply state effect) = t') (h : post () t') :
    (Program.emit effect : Program σ ε Unit).Yields f t post := by
  intro state hstate
  rw [← heffect state hstate] at h
  exact h

theorem Program.Yields.read {τ : Type} {f : σ → τ} {t : τ} {post : σ → τ → Prop}
    (h : ∀ state, f state = t → post state t) : (Program.read : Program σ ε σ).Yields f t post := by
  rintro state rfl
  exact h state rfl

/-- Sequencing, with the rest of the program as the first part's postcondition. -/
theorem Program.Yields.seq {τ : Type} {f : σ → τ} {t : τ} {program : Program σ ε α}
    {next : α → Program σ ε β} {post : β → τ → Prop}
    (h : program.Yields f t fun a t' => (next a).Yields f t' post) : (program >>= next).Yields f t post := by
  intro state hstate
  have hnext := h state hstate _ rfl
  rw [Program.final, Program.bind_def, applyAll_append]
  exact hnext

/-- `Yields` with a crash condition: it holds of the view after every prefix of the effects. -/
def Program.Endures {τ : Type} (program : Program σ ε α) (f : σ → τ) (t : τ) (post : α → τ → Prop)
    (crash : τ → Prop) : Prop :=
  CrashTriple (fun state => f state = t) program (fun a state => post a (f state)) fun state => crash (f state)

section

variable {τ : Type} {f : σ → τ} {t : τ} {crash : τ → Prop}

theorem Program.Endures.pure {a : α} {post : α → τ → Prop} (hcrash : crash t) (hpost : post a t) :
    (Pure.pure a : Program σ ε α).Endures f t post crash := by
  apply CrashTriple.pure
  rintro state rfl
  exact ⟨hcrash, hpost⟩

theorem Program.Endures.emit {effect : ε} {t' : τ} {post : Unit → τ → Prop}
    (heffect : ∀ state : σ, f state = t → f (Effect.apply state effect) = t') (hbefore : crash t)
    (hafter : crash t') (hpost : post () t') :
    (Program.emit effect : Program σ ε Unit).Endures f t post crash := by
  apply CrashTriple.emit
  intro state hstate
  rw [heffect state hstate, hstate]
  exact ⟨hbefore, hafter, hpost⟩

theorem Program.Endures.read {post : σ → τ → Prop} (hcrash : crash t)
    (hpost : ∀ state, f state = t → post state t) :
    (Program.read : Program σ ε σ).Endures f t post crash := by
  apply CrashTriple.read
  rintro state rfl
  exact ⟨hcrash, hpost state rfl⟩

theorem Program.Endures.bind {program : Program σ ε α} {next : α → Program σ ε β} {mid : α → τ → Prop}
    {post : β → τ → Prop} (hfirst : program.Endures f t mid crash)
    (hnext : ∀ a t', mid a t' → (next a).Endures f t' post crash) :
    (program >>= next).Endures f t post crash := by
  refine CrashTriple.bind hfirst ?_
  intro a state hmid
  exact hnext a (f state) hmid state rfl

/-- Sequencing, with the rest of the program as the first part's postcondition. -/
theorem Program.Endures.seq {program : Program σ ε α} {next : α → Program σ ε β} {post : β → τ → Prop}
    (h : program.Endures f t (fun a t' => (next a).Endures f t' post crash) crash) :
    (program >>= next).Endures f t post crash :=
  h.bind fun _ _ hnext => hnext

theorem Program.Endures.mono {program : Program σ ε α} {post post' : α → τ → Prop} {crash' : τ → Prop}
    (h : program.Endures f t post crash) (hpost : ∀ a t', post a t' → post' a t')
    (hcrash : ∀ t', crash t' → crash' t') : program.Endures f t post' crash' :=
  CrashTriple.consequence h (fun _ => id) (fun a state => hpost a (f state)) (fun state => hcrash (f state))

end

/-- Whatever the state, the program's result satisfies `post`. -/
def Program.Returns (program : Program σ ε α) (post : α → Prop) : Prop := ∀ state, post (program state).1

theorem Program.Returns.pure {a : α} {post : α → Prop} (h : post a) :
    (Pure.pure a : Program σ ε α).Returns post :=
  fun _ => h

theorem Program.Returns.bind {program : Program σ ε α} {next : α → Program σ ε β} {mid : α → Prop}
    {post : β → Prop} (hfirst : program.Returns mid) (hnext : ∀ a, mid a → (next a).Returns post) :
    (program >>= next).Returns post :=
  fun state => hnext _ (hfirst state) _

/-- Sequencing after a program whose result does not matter. -/
theorem Program.Returns.seq {program : Program σ ε α} {next : α → Program σ ε β} {post : β → Prop}
    (hnext : ∀ a, (next a).Returns post) : (program >>= next).Returns post :=
  fun _ => hnext _ _

/-- A crash on the way may leave a state with the property. -/
def Program.Reaches (program : Program σ ε α) (state : σ) (hit : σ → Prop) : Prop :=
  ∃ done, done <+: (program state).2 ∧ hit (applyAll state done)

theorem Program.Reaches.done {program : Program σ ε α} {state : σ} {hit : σ → Prop}
    (h : hit (program.final state)) : program.Reaches state hit :=
  ⟨(program state).2, List.prefix_refl _, h⟩

theorem Program.Reaches.mono {program : Program σ ε α} {state : σ} {hit hit' : σ → Prop}
    (h : program.Reaches state hit) (hhit : ∀ state, hit state → hit' state) :
    program.Reaches state hit' := by
  obtain ⟨done, hdone, hstate⟩ := h
  exact ⟨done, hdone, hhit _ hstate⟩

theorem Program.Reaches.first {program : Program σ ε α} {next : α → Program σ ε β} {state : σ}
    {hit : σ → Prop} (h : program.Reaches state hit) : (program >>= next).Reaches state hit := by
  obtain ⟨done, hdone, hhit⟩ := h
  exact ⟨done, hdone.trans (List.prefix_append _ _), hhit⟩

theorem Program.Reaches.rest {program : Program σ ε α} {next : α → Program σ ε β} {state : σ}
    {hit : σ → Prop} (h : (next (program state).1).Reaches (program.final state) hit) :
    (program >>= next).Reaches state hit := by
  obtain ⟨done, hdone, hhit⟩ := h
  refine ⟨(program state).2 ++ done, ?_, ?_⟩
  · rw [Program.bind_def]
    exact (List.prefix_append_right_inj _).mpr hdone
  · rw [applyAll_append]
    exact hhit

end

end NovaKV.Lib
