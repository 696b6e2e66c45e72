import NovaKV.Network.Dispatch

open Std
open NovaKV.Lib

namespace NovaKV

/-- The bytes sent so far are a front part of the responses in order. -/
def Journal.InOrder (self : Journal) : Prop := ∃ count all, self.Stream count all ∧ self.sent <+: all

/-- No two connections that have not been removed share a socket. -/
def Journals.Separate (self : Journals) : Prop :=
  ∀ generation other fd, (self generation).fd = some fd → (self generation).removed = false →
    (self other).fd = some fd → (self other).removed = false → generation = other

/-- What a log says about the bytes that clients get. At every moment the bytes sent on
a connection are a front part of its responses in the order of its requests, with the
reply to a protocol error behind them. The response to a request is computed for the
command of that request, and only once. Bytes go to the socket that the connection
was opened on, while neither it has been removed nor another one is on that socket. -/
structure Streams (log : List Observation) : Prop where
  in_order : ∀ before, before <+: log → ∀ generation, (Journals.empty.after before generation).InOrder
  separate : ∀ before, before <+: log → (Journals.empty.after before).Separate
  opened : ∀ before generation fd, before ++ [.opened generation fd] <+: log →
    Journals.empty.after before generation = .empty
  parsed : ∀ before generation command, before ++ [.parsed generation command] <+: log →
    (Journals.empty.after before generation).failed = false
  protocol_error : ∀ before generation, before ++ [.protocol_error generation] <+: log →
    (Journals.empty.after before generation).failed = false
  responded : ∀ before task response, before ++ [.responded task response] <+: log →
    (Journals.empty.after before task.generation).requests[task.seq]? = some task.command ∧
      (Journals.empty.after before task.generation).responses.lookup task.seq = none
  sent : ∀ before generation fd bytes, before ++ [.sent generation fd bytes] <+: log →
    (Journals.empty.after before generation).fd = some fd ∧
      (Journals.empty.after before generation).removed = false

section

variable {journals : Journals} {log : List Observation} {observation : Observation}

/-- In a lawful log, every observation meets its condition when it is made. -/
theorem Lawful.last {before : List Observation} (h : Lawful journals log) (hlog : before ++ [observation] <+: log) :
    observation.Lawful (journals.after before) := by
  obtain ⟨later, rfl⟩ := hlog
  rw [List.append_assoc] at h
  exact h.at rfl

theorem Lawful.of_isPrefix {before : List Observation} (h : Lawful journals log) (hlog : before <+: log) :
    Lawful journals before := by
  obtain ⟨later, rfl⟩ := hlog
  exact (lawful_append.mp h).1

theorem Observation.Lawful.in_order (hlawful : observation.Lawful journals)
    (h : ∀ generation, (journals generation).InOrder) (generation : Nat) :
    (journals.record observation generation).InOrder := by
  by_cases hgeneration : observation.generation = generation
  · subst hgeneration
    rw [Journals.record_self]
    have hresp : ∀ seq response, (journals observation.generation).resp seq = some response →
        ((journals observation.generation).record observation).resp seq = some response :=
      fun _ _ => hlawful.resp
    cases observation with
    | sent generation fd bytes =>
      obtain ⟨-, -, count, all, hstream, hprefix⟩ := hlawful
      exact ⟨count, all, hstream.mono hresp, hprefix⟩
    | _ =>
      obtain ⟨count, all, hstream, hprefix⟩ := h _
      exact ⟨count, all, hstream.mono hresp, hprefix⟩
  · rw [Journals.record_other hgeneration]
    exact h generation

/-- An observation opens a connection on a socket that is free, or leaves its socket alone. -/
theorem Observation.Lawful.separate (hlawful : observation.Lawful journals) (h : journals.Separate) :
    (journals.record observation).Separate := by
  have hcases : ∀ generation fd, (journals.record observation generation).fd = some fd →
      (journals.record observation generation).removed = false →
      observation = .opened generation fd ∨
        ((journals generation).fd = some fd ∧ (journals generation).removed = false) := by
    intro generation fd hfd hremoved
    by_cases hgeneration : observation.generation = generation
    · subst hgeneration
      rw [Journals.record_self] at hfd hremoved
      cases observation with
      | opened generation fd =>
        cases hfd
        exact .inl rfl
      | removed generation reason => cases hremoved
      | _ => exact .inr ⟨hfd, hremoved⟩
    · rw [Journals.record_other hgeneration] at hfd hremoved
      exact .inr ⟨hfd, hremoved⟩
  intro generation other fd hfd hlive hfd' hlive'
  rcases hcases generation fd hfd hlive with rfl | ⟨hold, hkept⟩
  · rcases hcases other fd hfd' hlive' with heq | ⟨hold, hkept⟩
    · cases heq
      rfl
    · rw [hlawful.2 other hold] at hkept
      cases hkept
  · rcases hcases other fd hfd' hlive' with rfl | ⟨hold', hkept'⟩
    · rw [hlawful.2 generation hold] at hkept
      cases hkept
    · exact h generation other fd hold hkept hold' hkept'

theorem Lawful.in_order (hlawful : Lawful journals log) (h : ∀ generation, (journals generation).InOrder)
    (generation : Nat) : (journals.after log generation).InOrder := by
  induction log generalizing journals with
  | nil => exact h generation
  | cons observation log ih => exact ih hlawful.2 (hlawful.1.in_order h)

theorem Lawful.separate (hlawful : Lawful journals log) (h : journals.Separate) : (journals.after log).Separate := by
  induction log generalizing journals with
  | nil => exact h
  | cons observation log ih => exact ih hlawful.2 (hlawful.1.separate h)

/-- In every run, however the reads are cut, in whatever order the workers finish, and
however connections fail, close and reuse sockets, each client gets the responses to
its own requests in order, each one once, and nothing else. -/
theorem TcpServer.run_streams (events : List ServerEvent) : Streams (TcpServer.run events).log := by
  have hlawful := (TcpServer.run_keeps events).lawful
  refine ⟨?_, ?_, ?_, ?_, ?_, ?_, ?_⟩
  · intro before hbefore
    exact (hlawful.of_isPrefix hbefore).in_order fun _ => ⟨0, [], Journal.Stream.nil _, List.nil_prefix⟩
  · intro before hbefore
    exact (hlawful.of_isPrefix hbefore).separate nofun
  · exact fun before generation fd hlog => (hlawful.last hlog).1
  · exact fun before generation command hlog => (hlawful.last hlog).1
  · exact fun before generation hlog => (hlawful.last hlog).1
  · exact fun before task response hlog => hlawful.last hlog
  · intro before generation fd bytes hlog
    obtain ⟨hfd, hremoved, -⟩ := hlawful.last hlog
    exact ⟨hfd, hremoved⟩

end

end NovaKV
