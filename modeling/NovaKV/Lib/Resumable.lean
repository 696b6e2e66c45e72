import Mathlib

namespace NovaKV.Lib

/-- One turn of a machine that reads a stream as it arrives: it waits for more
input, gives up, or uses up some of the input, with or without an output. -/
inductive Turn (σ ω : Type) where
  | wait
  | fail (state : σ)
  | advance (state : σ) (used : Nat)
  | output (value : ω) (state : σ) (used : Nat)

/-- The number of symbols a turn uses up. -/
def Turn.used {σ ω : Type} : Turn σ ω → Option Nat
  | .wait => none
  | .fail _ => none
  | .advance _ used => some used
  | .output _ _ used => some used

/-- A machine that can stop at the end of any piece of its input: a turn that does
not wait is the same however the input goes on. -/
structure Resumable (α σ ω : Type) where
  turn : σ → List α → Turn σ ω
  used_pos : ∀ state input used, (turn state input).used = some used → 0 < used
  used_le : ∀ state input used, (turn state input).used = some used → used ≤ input.length
  resumes : ∀ state input more, turn state input ≠ .wait → turn state (input ++ more) = turn state input

namespace Resumable

variable {α σ ω : Type} (M : Resumable α σ ω)

/-- Turns without output. -/
inductive Advances : σ → List α → σ → List α → Prop
  | refl (state : σ) (input : List α) : Advances state input state input
  | step {state next last : σ} {input rest : List α} {used : Nat}
      (turn : M.turn state input = .advance next used)
      (later : Advances next (input.drop used) last rest) : Advances state input last rest

/-- How reading ends: waiting or failed. -/
inductive End where
  | waiting
  | failed
  deriving DecidableEq

/-- Reading all of an input: the outputs, how it ends, the state and the input left. -/
inductive Reads : σ → List α → List ω → End → σ → List α → Prop
  | wait {state : σ} {input : List α} (turn : M.turn state input = .wait) :
      Reads state input [] .waiting state input
  | fail {state next : σ} {input : List α} (turn : M.turn state input = .fail next) :
      Reads state input [] .failed next input
  | advance {state next last : σ} {input rest : List α} {used : Nat} {outputs : List ω} {how : End}
      (turn : M.turn state input = .advance next used)
      (later : Reads next (input.drop used) outputs how last rest) :
      Reads state input outputs how last rest
  | output {state next last : σ} {input rest : List α} {used : Nat} {value : ω} {outputs : List ω}
      {how : End} (turn : M.turn state input = .output value next used)
      (later : Reads next (input.drop used) outputs how last rest) :
      Reads state input (value :: outputs) how last rest

variable {M} {state next last last' : σ} {input rest rest' more : List α} {used : Nat} {value : ω}
  {outputs outputs' : List ω} {how how' : End}

theorem advance_append (h : M.turn state input = .advance next used) :
    M.turn state (input ++ more) = .advance next used ∧
      (input ++ more).drop used = input.drop used ++ more := by
  refine ⟨?_, List.drop_append_of_le_length (M.used_le state input used (by rw [h]; rfl))⟩
  rw [M.resumes state input more (by rw [h]; nofun), h]

theorem output_append (h : M.turn state input = .output value next used) :
    M.turn state (input ++ more) = .output value next used ∧
      (input ++ more).drop used = input.drop used ++ more := by
  refine ⟨?_, List.drop_append_of_le_length (M.used_le state input used (by rw [h]; rfl))⟩
  rw [M.resumes state input more (by rw [h]; nofun), h]

theorem Advances.trans (h : M.Advances state input next rest) (h' : M.Advances next rest last rest') :
    M.Advances state input last rest' := by
  induction h with
  | refl => exact h'
  | step hturn _ ih => exact .step hturn (ih h')

theorem Advances.reads (h : M.Advances state input next rest) (h' : M.Reads next rest outputs how last rest') :
    M.Reads state input outputs how last rest' := by
  induction h with
  | refl => exact h'
  | step hturn _ ih => exact .advance hturn (ih h')

/-- A turn without output leaves less input. -/
theorem drop_length_lt (hused : (M.turn state input).used = some used) :
    (input.drop used).length < input.length := by
  have hpos := M.used_pos state input used hused
  have hle := M.used_le state input used hused
  rw [List.length_drop]
  omega

/-- Two readings of the same input agree. -/
theorem Reads.unique (h : M.Reads state input outputs how last rest)
    (h' : M.Reads state input outputs' how' last' rest') :
    outputs = outputs' ∧ how = how' ∧ last = last' ∧ rest = rest' := by
  induction h generalizing outputs' with
  | wait hturn =>
    cases h' with
    | wait => exact ⟨rfl, rfl, rfl, rfl⟩
    | fail hturn' => rw [hturn] at hturn'; cases hturn'
    | advance hturn' => rw [hturn] at hturn'; cases hturn'
    | output hturn' => rw [hturn] at hturn'; cases hturn'
  | fail hturn =>
    cases h' with
    | wait hturn' => rw [hturn] at hturn'; cases hturn'
    | fail hturn' =>
      rw [hturn] at hturn'
      cases hturn'
      exact ⟨rfl, rfl, rfl, rfl⟩
    | advance hturn' => rw [hturn] at hturn'; cases hturn'
    | output hturn' => rw [hturn] at hturn'; cases hturn'
  | advance hturn _ ih =>
    cases h' with
    | wait hturn' => rw [hturn] at hturn'; cases hturn'
    | fail hturn' => rw [hturn] at hturn'; cases hturn'
    | advance hturn' hlater =>
      rw [hturn] at hturn'
      cases hturn'
      exact ih hlater
    | output hturn' => rw [hturn] at hturn'; cases hturn'
  | output hturn _ ih =>
    cases h' with
    | wait hturn' => rw [hturn] at hturn'; cases hturn'
    | fail hturn' => rw [hturn] at hturn'; cases hturn'
    | advance hturn' => rw [hturn] at hturn'; cases hturn'
    | output hturn' hlater =>
      rw [hturn] at hturn'
      cases hturn'
      obtain ⟨rfl, hrest⟩ := ih hlater
      exact ⟨rfl, hrest⟩

/-- A reading that has failed stays where it is, whatever follows. -/
theorem Reads.append_of_failed (h : M.Reads state input outputs .failed last rest) (more : List α) :
    M.Reads state (input ++ more) outputs .failed last (rest ++ more) := by
  generalize hhow : End.failed = how at h
  induction h with
  | wait => cases hhow
  | @fail state next input hturn =>
    exact .fail (by rw [M.resumes state input more (by rw [hturn]; nofun), hturn])
  | advance hturn _ ih =>
    obtain ⟨happend, hdrop⟩ := advance_append hturn
    exact .advance happend (hdrop ▸ ih hhow)
  | output hturn _ ih =>
    obtain ⟨happend, hdrop⟩ := output_append hturn
    exact .output happend (hdrop ▸ ih hhow)

/-- A reading that waits goes on when more input arrives, as if all of it had been
there from the start. -/
theorem Reads.append_of_waiting (h : M.Reads state input outputs .waiting next rest)
    (hmore : M.Reads next (rest ++ more) outputs' how last rest') :
    M.Reads state (input ++ more) (outputs ++ outputs') how last rest' := by
  generalize hwaiting : End.waiting = first at h
  induction h with
  | wait => exact hmore
  | fail => cases hwaiting
  | advance hturn _ ih =>
    obtain ⟨happend, hdrop⟩ := advance_append hturn
    exact .advance happend (hdrop ▸ ih hmore hwaiting)
  | output hturn _ ih =>
    obtain ⟨happend, hdrop⟩ := output_append hturn
    exact .output happend (hdrop ▸ ih hmore hwaiting)

/-- The turns without output end the same way, whatever they have gone through. -/
theorem Advances.last_unique (h : M.Advances state input next rest) (h' : M.Advances state input last rest')
    (hstop : ∀ s n, M.turn next rest ≠ .advance s n) (hstop' : ∀ s n, M.turn last rest' ≠ .advance s n) :
    next = last ∧ rest = rest' := by
  induction h with
  | refl =>
    cases h' with
    | refl => exact ⟨rfl, rfl⟩
    | step hturn => exact absurd hturn (hstop _ _)
  | step hturn _ ih =>
    cases h' with
    | refl => exact absurd hturn (hstop' _ _)
    | step hturn' hlater =>
      rw [hturn] at hturn'
      cases hturn'
      exact ih hlater hstop

end Resumable

end NovaKV.Lib
