import NovaKV.Network.Server

open Std
open NovaKV.Lib

namespace NovaKV

/-- What has happened on one connection: its socket, the requests parsed on it,
whether a protocol error came after them, whether it was closed to further requests
and removed, the responses computed, by request, and the bytes that the socket has
taken. -/
structure Journal where
  fd : Option Nat
  requests : List (List Bytes)
  failed : Bool
  closing : Bool
  removed : Bool
  responses : List (Nat × Bytes)
  sent : Bytes

def Journal.empty : Journal := ⟨none, [], false, false, false, [], []⟩

/-- The connection that an observation is about. -/
def Observation.generation : Observation → Nat
  | .opened generation _ => generation
  | .parsed generation _ => generation
  | .protocol_error generation => generation
  | .closing generation => generation
  | .responded task _ => task.generation
  | .sent generation _ _ => generation
  | .removed generation _ => generation

/-- An observation about the connection of the journal. -/
def Journal.record (self : Journal) : Observation → Journal
  | .opened _ fd => { self with fd := some fd }
  | .parsed _ command => { self with requests := self.requests ++ [command] }
  | .protocol_error _ => { self with failed := true }
  | .closing _ => { self with closing := true }
  | .responded task response => { self with responses := self.responses ++ [(task.seq, response)] }
  | .sent _ _ bytes => { self with sent := self.sent ++ bytes }
  | .removed _ _ => { self with removed := true }

/-- The journals of all connections, by generation. -/
abbrev Journals := Nat → Journal

def Journals.empty : Journals := fun _ => .empty

def Journals.record (self : Journals) (observation : Observation) : Journals := fun generation =>
  if observation.generation = generation then (self generation).record observation else self generation

def Journals.after (self : Journals) (log : List Observation) : Journals := log.foldl Journals.record self

/-- The response to the request with a number: what a worker computed for it, or after
the last request the reply to the protocol error. -/
def Journal.resp (self : Journal) (seq : Nat) : Option Bytes :=
  if seq < self.requests.length then self.responses.lookup seq
  else if self.failed ∧ seq = self.requests.length then some protocol_error_reply
  else none

/-- How many responses the connection is owed in all. -/
def Journal.total (self : Journal) : Nat := self.requests.length + if self.failed then 1 else 0

/-- The bytes are the first `count` responses, one after another. -/
def Journal.Stream (self : Journal) (count : Nat) (bytes : Bytes) : Prop :=
  ∃ replies : List Bytes, replies.length = count ∧ (∀ i < count, self.resp i = replies[i]?) ∧
    bytes = replies.flatten

/-- An error of the socket or of epoll. -/
def CloseReason.is_error : CloseReason → Bool
  | .event_error => true
  | .write_failed => true
  | .epoll_failed => true
  | _ => false

/-- What an observation has to meet, given what happened before: a connection has a
generation of its own and a socket that no other one has; nothing is parsed once it is
closed to requests; a response is that of the request's command and the only one; the
bytes sent continue the responses in order; and a connection closed to requests is
removed only after an error or with all responses sent. -/
def Observation.Lawful (journals : Journals) : Observation → Prop
  | .opened generation fd => journals generation = .empty ∧
    ∀ other, (journals other).fd = some fd → (journals other).removed = true
  | .parsed generation _ => (journals generation).failed = false ∧ (journals generation).closing = false
  | .protocol_error generation =>
    (journals generation).failed = false ∧ (journals generation).closing = false
  | .closing _ => True
  | .responded task _ => (journals task.generation).requests[task.seq]? = some task.command ∧
    (journals task.generation).responses.lookup task.seq = none
  | .sent generation fd bytes => (journals generation).fd = some fd ∧
    (journals generation).removed = false ∧
    ∃ count all, (journals generation).Stream count all ∧ (journals generation).sent ++ bytes <+: all
  | .removed generation reason => (journals generation).closing = true →
    reason.is_error = true ∨ (journals generation).Stream (journals generation).total (journals generation).sent

/-- Every observation of a log meets its condition. -/
def Lawful : Journals → List Observation → Prop
  | _, [] => True
  | journals, observation :: log => observation.Lawful journals ∧ Lawful (journals.record observation) log

/-- A connection counts what its journal counts. -/
structure Connection.Matches (conn : Connection) (journal : Journal) : Prop where
  total : conn.next_request_seq = journal.total
  closing : conn.closing = journal.closing
  failed : journal.failed = true → journal.closing = true
  answered : ∀ seq, journal.requests.length ≤ seq → journal.responses.lookup seq = none

/-- The responses that are to come on a connection, when the numbers `waiting` are those
of the requests on their way through the workers. -/
structure Connection.Tracked (conn : Connection) (journal : Journal) (waiting : Nat → Prop) : Prop where
  write_le : conn.next_write_seq ≤ conn.next_request_seq
  stream : journal.Stream conn.next_write_seq (journal.sent ++ conn.output_buffer.readable)
  pending : ∀ (seq : Nat) (response : Bytes), conn.pending_responses[seq]? = some response →
    conn.next_write_seq ≤ seq ∧ seq < conn.next_request_seq ∧ journal.resp seq = some response
  awaited : ∀ seq, waiting seq →
    conn.next_write_seq ≤ seq ∧ seq < conn.next_request_seq ∧ conn.pending_responses[seq]? = none
  covered : ∀ seq, conn.next_write_seq ≤ seq → seq < conn.next_request_seq →
    conn.pending_responses[seq]?.isSome ∨ waiting seq

section

variable {journal : Journal} {journals : Journals} {log : List Observation} {count : Nat} {bytes : Bytes}

theorem Journals.after_append (self : Journals) (first second : List Observation) :
    self.after (first ++ second) = (self.after first).after second := List.foldl_append

theorem lawful_append {first second : List Observation} :
    Lawful journals (first ++ second) ↔ Lawful journals first ∧ Lawful (journals.after first) second := by
  induction first generalizing journals with
  | nil => exact ⟨fun h => ⟨trivial, h⟩, fun h => h.2⟩
  | cons observation first ih => rw [List.cons_append, Lawful, Lawful, ih, and_assoc]; rfl

/-- In a lawful log, every observation meets its condition when it is made. -/
theorem Lawful.at {before later : List Observation} {observation : Observation} (h : Lawful journals log)
    (hlog : log = before ++ observation :: later) : observation.Lawful (journals.after before) := by
  rw [hlog, lawful_append] at h
  exact h.2.1

theorem Journals.record_other {observation : Observation} {generation : Nat}
    (h : observation.generation ≠ generation) :
    journals.record observation generation = journals generation := if_neg h

theorem Journals.record_self (observation : Observation) :
    journals.record observation observation.generation =
      (journals observation.generation).record observation := if_pos rfl

theorem Journals.after_other {generation : Nat} (h : ∀ observation ∈ log, observation.generation ≠ generation) :
    journals.after log generation = journals generation := by
  induction log generalizing journals with
  | nil => rfl
  | cons observation log ih =>
    have hrest : (journals.record observation).after log generation = journals.record observation generation :=
      ih fun other hother => h other (List.mem_cons_of_mem _ hother)
    exact hrest.trans (record_other (h observation List.mem_cons_self))

theorem Journals.after_self {generation : Nat} (h : ∀ observation ∈ log, observation.generation = generation) :
    journals.after log generation = log.foldl Journal.record (journals generation) := by
  induction log generalizing journals with
  | nil => rfl
  | cons observation log ih =>
    have hfirst := h observation List.mem_cons_self
    subst hfirst
    have hrest : (journals.record observation).after log observation.generation =
        log.foldl Journal.record (journals.record observation observation.generation) :=
      ih fun other hother => h other (List.mem_cons_of_mem _ hother)
    rw [record_self] at hrest
    exact hrest

theorem Journal.Stream.nil (journal : Journal) : journal.Stream 0 [] := ⟨[], rfl, by simp, rfl⟩

/-- The next response. -/
theorem Journal.Stream.next (h : journal.Stream count bytes) {response : Bytes}
    (hresponse : journal.resp count = some response) : journal.Stream (count + 1) (bytes ++ response) := by
  obtain ⟨replies, hlength, hreplies, rfl⟩ := h
  refine ⟨replies ++ [response], by simp [hlength], ?_, by simp⟩
  intro i hi
  rcases Nat.lt_succ_iff_lt_or_eq.mp hi with hlt | rfl
  · rw [List.getElem?_append_left (by omega), hreplies i hlt]
  · rw [List.getElem?_append_right (by omega), hresponse, hlength]
    simp

/-- A journal that keeps its responses keeps their stream. -/
theorem Journal.Stream.mono {later : Journal} (h : journal.Stream count bytes)
    (hresp : ∀ seq response, journal.resp seq = some response → later.resp seq = some response) :
    later.Stream count bytes := by
  obtain ⟨replies, hlength, hreplies, hbytes⟩ := h
  refine ⟨replies, hlength, ?_, hbytes⟩
  intro i hi
  have hsome : journal.resp i = some replies[i] := by
    rw [hreplies i hi, List.getElem?_eq_getElem (by omega)]
  rw [hresp i _ hsome, List.getElem?_eq_getElem (by omega)]

/-- Without a protocol error only requests have responses. -/
theorem Journal.resp_of_open (hopen : journal.failed = false) {seq : Nat} {response : Bytes}
    (h : journal.resp seq = some response) :
    seq < journal.requests.length ∧ journal.responses.lookup seq = some response := by
  unfold resp at h
  split_ifs at h with hlt hfailed
  · exact ⟨hlt, h⟩
  · rw [hopen] at hfailed
    cases hfailed.1

theorem Journal.resp_of_lt {seq : Nat} (h : seq < journal.requests.length) :
    journal.resp seq = journal.responses.lookup seq := if_pos h

theorem Journal.resp_responded {seq : Nat} {response : Bytes} (h : journal.resp seq = some response)
    (added : Nat × Bytes) :
    { journal with responses := journal.responses ++ [added] }.resp seq = some response := by
  unfold resp at h ⊢
  dsimp only
  split_ifs at h ⊢
  · rw [List.lookup_append, h, Option.some_or]
  · exact h

/-- A lawful observation keeps the responses that there are. -/
theorem Observation.Lawful.resp {observation : Observation} (h : observation.Lawful journals) {seq : Nat}
    {response : Bytes} (hresp : (journals observation.generation).resp seq = some response) :
    ((journals observation.generation).record observation).resp seq = some response := by
  cases observation with
  | parsed generation command =>
    obtain ⟨hlt, hlookup⟩ := Journal.resp_of_open h.1 hresp
    refine (Journal.resp_of_lt ?_).trans hlookup
    simp only [Journal.record, List.length_append]
    exact Nat.lt_add_right _ hlt
  | protocol_error generation =>
    obtain ⟨hlt, hlookup⟩ := Journal.resp_of_open h.1 hresp
    have hfailed : Journal.resp { journals generation with failed := true } seq =
        (journals generation).responses.lookup seq := Journal.resp_of_lt hlt
    exact hfailed.trans hlookup
  | responded task bytes => exact Journal.resp_responded hresp _
  | _ => exact hresp

theorem Lawful.resp (h : Lawful journals log) {generation seq : Nat} {response : Bytes}
    (hresp : (journals generation).resp seq = some response) :
    (journals.after log generation).resp seq = some response := by
  induction log generalizing journals with
  | nil => exact hresp
  | cons observation log ih =>
    refine ih h.2 ?_
    by_cases hgeneration : observation.generation = generation
    · subst hgeneration
      rw [Journals.record_self]
      exact h.1.resp hresp
    · rw [Journals.record_other hgeneration]
      exact hresp

end

end NovaKV
