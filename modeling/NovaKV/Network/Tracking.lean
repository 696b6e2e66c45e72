import NovaKV.Network.Journal

open Std
open NovaKV.Lib

namespace NovaKV

section

variable {self : Connection} {journal : Journal} {waiting : Nat → Prop}

/-- The fields of a connection that sending does not touch. -/
def Connection.SameRequests (self other : Connection) : Prop :=
  other.fd = self.fd ∧ other.generation = self.generation ∧ other.closing = self.closing ∧
    other.next_request_seq = self.next_request_seq

theorem Connection.append_ready_loop_same (fuel : Nat) (self : Connection) :
    self.SameRequests (append_ready_loop fuel self) := by
  obtain ⟨-, -, hclosing, hseq, hfd, hgeneration⟩ := append_ready_loop_reading fuel self
  exact ⟨hfd, hgeneration, hclosing, hseq⟩

/-- Appending a response to the output keeps the stream. -/
theorem Connection.Tracked.append (h : self.Tracked journal waiting) {response : Bytes}
    (hnext : self.pending_responses[self.next_write_seq]? = some response) :
    Connection.Tracked
      { self with
        output_buffer := self.output_buffer.append response
        pending_responses := self.pending_responses.erase self.next_write_seq
        next_write_seq := self.next_write_seq + 1 } journal waiting := by
  obtain ⟨-, hlt, hresponse⟩ := h.pending _ _ hnext
  refine ⟨hlt, ?_, ?_, ?_, ?_⟩
  · dsimp only
    rw [NetworkBuffer.readable_append, ← List.append_assoc]
    exact h.stream.next hresponse
  · intro seq other hother
    rw [ExtTreeMap.getElem?_erase] at hother
    split at hother
    · cases hother
    · rename_i hne
      obtain ⟨hle, hseq⟩ := h.pending seq other hother
      have hne : self.next_write_seq ≠ seq := by simpa using hne
      exact ⟨by dsimp only; omega, hseq⟩
  · intro seq hseq
    obtain ⟨hle, hseq, hnone⟩ := h.awaited seq hseq
    have hne : self.next_write_seq ≠ seq := by
      rintro rfl
      rw [hnone] at hnext
      cases hnext
    refine ⟨by dsimp only; omega, hseq, ?_⟩
    rw [ExtTreeMap.getElem?_erase, hnone, ite_self]
  · intro seq hle hseq
    have hne : ¬ compare self.next_write_seq seq = .eq := by
      rw [LawfulEqCmp.compare_eq_iff_eq]
      dsimp only at hle
      omega
    rw [ExtTreeMap.getElem?_erase, if_neg hne]
    exact h.covered seq (by dsimp only at hle; omega) hseq

theorem Connection.Tracked.append_ready_loop (h : self.Tracked journal waiting) (fuel : Nat) :
    (append_ready_loop fuel self).Tracked journal waiting := by
  induction fuel generalizing self with
  | zero => exact h
  | succ fuel ih =>
    rw [Connection.append_ready_loop]
    split
    · exact h
    · rename_i response hnext
      exact ih (h.append hnext)

theorem Connection.Tracked.append_ready (h : self.Tracked journal waiting) :
    self.append_ready.Tracked journal waiting := h.append_ready_loop _

/-- What the loop leaves is not the next response. -/
theorem Connection.append_ready_loop_next {fuel : Nat} (hfuel : self.pending_responses.size ≤ fuel) :
    (append_ready_loop fuel self).pending_responses[(append_ready_loop fuel self).next_write_seq]? = none := by
  induction fuel generalizing self with
  | zero =>
    have hempty : self.pending_responses = ∅ := by
      rw [← ExtTreeMap.isEmpty_iff, ExtTreeMap.isEmpty_eq_size_beq_zero, beq_iff_eq]
      omega
    simp [append_ready_loop, hempty]
  | succ fuel ih =>
    rw [append_ready_loop]
    split
    · assumption
    · rename_i response hnext
      apply ih
      have hmem : self.pending_responses.contains self.next_write_seq = true :=
        ExtTreeMap.mem_iff_isSome_getElem?.mpr (by simp [hnext])
      rw [ExtTreeMap.size_erase, if_pos hmem]
      omega

theorem Connection.append_ready_next (self : Connection) :
    self.append_ready.pending_responses[self.append_ready.next_write_seq]? = none :=
  append_ready_loop_next (Nat.le_refl _)

/-- The loop appends something, or does nothing. -/
theorem Connection.append_ready_loop_cases (fuel : Nat) (self : Connection) :
    append_ready_loop fuel self = self ∨ self.next_write_seq < (append_ready_loop fuel self).next_write_seq := by
  induction fuel generalizing self with
  | zero => exact .inl rfl
  | succ fuel ih =>
    rw [append_ready_loop]
    split
    · exact .inl rfl
    · refine .inr ?_
      rcases ih _ with hsame | hlt
      · rw [hsame]
        exact Nat.lt_succ_self _
      · exact Nat.lt_of_succ_lt hlt

/-- A worker's response arrives. -/
theorem Connection.Tracked.complete (h : self.Tracked journal waiting) {seq : Nat} {response : Bytes}
    (hwaiting : waiting seq) (hresponse : journal.resp seq = some response) :
    Connection.Tracked
      { self with pending_responses := self.pending_responses.insertIfNew seq response } journal
      fun other => waiting other ∧ other ≠ seq := by
  obtain ⟨hle, hlt, hnone⟩ := h.awaited seq hwaiting
  have hnew : seq ∉ self.pending_responses := by
    rw [ExtTreeMap.mem_iff_isSome_getElem?, hnone]
    exact Bool.false_ne_true
  have hget : ∀ other, (self.pending_responses.insertIfNew seq response)[other]? =
      if seq = other then some response else self.pending_responses[other]? := by
    intro other
    rw [ExtTreeMap.getElem?_insertIfNew]
    by_cases hother : seq = other
    · subst hother
      simp [hnew]
    · simp [hother]
  refine ⟨h.write_le, h.stream, ?_, ?_, ?_⟩
  · intro other found hfound
    rw [hget] at hfound
    split at hfound
    · rename_i hother
      cases hfound
      exact hother ▸ ⟨hle, hlt, hresponse⟩
    · exact h.pending other found hfound
  · rintro other ⟨hother, hne⟩
    rw [hget, if_neg hne.symm]
    exact h.awaited other hother
  · intro other hother hlast
    rw [hget]
    by_cases hne : seq = other
    · simp [hne]
    · rw [if_neg hne]
      rcases h.covered other hother hlast with hsome | hwait
      · exact .inl hsome
      · exact .inr ⟨hwait, Ne.symm hne⟩

/-- New requests are on their way. -/
theorem Connection.Tracked.parse (h : self.Tracked journal waiting) {later : Journal} (count : Nat)
    (hresp : ∀ seq response, journal.resp seq = some response → later.resp seq = some response)
    (hsent : later.sent = journal.sent) (parser : RESPParser) (input_buffer : NetworkBuffer) :
    Connection.Tracked
      { self with
        parser := parser
        input_buffer := input_buffer
        next_request_seq := self.next_request_seq + count } later
      fun seq => waiting seq ∨ self.next_request_seq ≤ seq ∧ seq < self.next_request_seq + count := by
  refine ⟨Nat.le_add_right_of_le h.write_le, ?_, ?_, ?_, ?_⟩
  · rw [hsent]
    exact h.stream.mono hresp
  · intro seq response hpending
    obtain ⟨hle, hlt, hresponse⟩ := h.pending seq response hpending
    exact ⟨hle, Nat.lt_add_right _ hlt, hresp seq response hresponse⟩
  · rintro seq (hwait | ⟨hle, hlt⟩)
    · obtain ⟨hle, hlt, hnone⟩ := h.awaited seq hwait
      exact ⟨hle, Nat.lt_add_right _ hlt, hnone⟩
    · refine ⟨h.write_le.trans hle, hlt, ?_⟩
      cases hpending : self.pending_responses[seq]? with
      | none => rfl
      | some response =>
        have hbound := (h.pending seq response hpending).2.1
        omega
  · intro seq hle hlt
    by_cases hold : seq < self.next_request_seq
    · exact (h.covered seq hle hold).imp_right .inl
    · exact .inr (.inr ⟨by omega, hlt⟩)

/-- The reply to a protocol error takes its place behind all requests. -/
theorem Connection.Tracked.fail_connection_protocol (h : self.Tracked journal waiting) {later : Journal}
    (hresp : ∀ seq response, journal.resp seq = some response → later.resp seq = some response)
    (hsent : later.sent = journal.sent) (hreply : later.resp self.next_request_seq = some protocol_error_reply) :
    self.fail_connection_protocol.Tracked later waiting := by
  have hparsed := h.parse 1 hresp hsent self.parser self.input_buffer
  have hcomplete := hparsed.complete (.inr ⟨Nat.le_refl _, Nat.lt_succ_self _⟩) hreply
  have hwaiting : (fun seq => (waiting seq ∨ self.next_request_seq ≤ seq ∧ seq < self.next_request_seq + 1) ∧
      seq ≠ self.next_request_seq) = waiting := by
    funext seq
    refine propext ⟨?_, ?_⟩
    · rintro ⟨hwait | hlast, hne⟩
      · exact hwait
      · omega
    · exact fun hwait => ⟨.inl hwait, (h.awaited seq hwait).2.1.ne⟩
  rw [hwaiting] at hcomplete
  apply Connection.Tracked.append_ready
  exact ⟨hcomplete.write_le, hcomplete.stream, hcomplete.pending, hcomplete.awaited, hcomplete.covered⟩

/-- The socket takes some of the output. -/
theorem Connection.Tracked.send (h : self.Tracked journal waiting) {sent : Bytes} {output_buffer : NetworkBuffer}
    (hsent : sent ++ output_buffer.readable = self.output_buffer.readable) :
    Connection.Tracked { self with output_buffer := output_buffer } { journal with sent := journal.sent ++ sent }
      waiting := by
  refine ⟨h.write_le, ?_, h.pending, h.awaited, h.covered⟩
  obtain ⟨replies, hlength, hreplies, hbytes⟩ := h.stream
  refine ⟨replies, hlength, hreplies, ?_⟩
  dsimp only
  rw [List.append_assoc, hsent, hbytes]

/-- A connection that is drained has been sent all its responses. -/
theorem Connection.Tracked.drained (h : self.Tracked journal waiting) (hmatches : self.Matches journal)
    (hdrained : self.drained = true) : journal.Stream journal.total journal.sent := by
  simp only [Connection.drained, Bool.and_eq_true, beq_iff_eq] at hdrained
  obtain ⟨⟨hempty, -⟩, hseq⟩ := hdrained
  have hnone : self.output_buffer.readable = [] := by
    rw [← List.length_eq_zero_iff, NetworkBuffer.readable_length, hempty]
  have hstream := h.stream
  rwa [hnone, List.append_nil, hseq, hmatches.total] at hstream

/-- The loop of `HandleWrite` sends a front part of the output, and changes nothing else. -/
theorem TcpServer.write_loop_eq (writes : List SocketWrite) (conn : Connection) :
    (write_loop writes conn).conn = { conn with output_buffer := (write_loop writes conn).conn.output_buffer } ∧
      (write_loop writes conn).sent ++ (write_loop writes conn).conn.output_buffer.readable =
        conn.output_buffer.readable := by
  induction writes generalizing conn with
  | nil => exact ⟨rfl, rfl⟩
  | cons write writes ih =>
    simp only [write_loop.eq_def (write :: writes)]
    split
    · exact ⟨rfl, rfl⟩
    cases write with
    | wrote n =>
      dsimp only
      split
      · exact ⟨rfl, rfl⟩
      · obtain ⟨hconn, hsent⟩ := ih { conn with output_buffer := conn.output_buffer.retrieve n }
        refine ⟨hconn, ?_⟩
        dsimp only at hsent ⊢
        rw [List.append_assoc, hsent, NetworkBuffer.readable_retrieve, List.take_append_drop]
    | interrupted => exact ih conn
    | unavailable => exact ⟨rfl, rfl⟩
    | failed => exact ⟨rfl, rfl⟩

theorem Connection.read_loop_same (accepts : Nat → Bool) (fuel : Nat) (self : Connection) :
    (read_loop accepts fuel self).conn.fd = self.fd ∧
      (read_loop accepts fuel self).conn.generation = self.generation := by
  induction fuel generalizing self with
  | zero => exact ⟨rfl, rfl⟩
  | succ fuel ih =>
    rw [read_loop]
    dsimp only
    split
    · split
      · exact ih _
      · exact ⟨rfl, rfl⟩
    · exact ⟨rfl, rfl⟩
    · exact ⟨fail_connection_protocol_fd _, fail_connection_protocol_generation _⟩

/-- One read: the commands it completes are enqueued, and either the thread pool
refuses one, or all go through and a protocol error may follow. -/
theorem Connection.receive_cases (accepts : Nat → Bool) (data : Bytes) (hopen : self.closing = false) :
    ∃ commands, (self.receive accepts data).tasks = self.tasks_of commands ∧
      (self.receive accepts data).conn.fd = self.fd ∧
      (self.receive accepts data).conn.generation = self.generation ∧
      ((self.receive accepts data).enqueue_failed = true ∨ (self.receive accepts data).enqueue_failed = false ∧
        ∃ (parser : RESPParser) (input_buffer : NetworkBuffer) (conn : Connection),
          conn = { self with
            parser := parser
            input_buffer := input_buffer
            next_request_seq := self.next_request_seq + commands.length } ∧
          ((self.receive accepts data).conn = conn ∨
            (self.receive accepts data).conn = conn.fail_connection_protocol)) := by
  rw [receive, if_neg (by simp [hopen])]
  dsimp only
  obtain ⟨commands, htasks, hcases⟩ :=
    @read_loop_cases { self with input_buffer := self.input_buffer.read_from_fd data } accepts _ (Nat.lt_succ_self _)
  obtain ⟨hfd, hgeneration⟩ := read_loop_same accepts
    ((self.input_buffer.read_from_fd data).readable_bytes + 1)
    { self with input_buffer := self.input_buffer.read_from_fd data }
  refine ⟨commands, htasks, hfd, hgeneration, ?_⟩
  rcases hcases with ⟨hfailed, -⟩ | ⟨how, last, buffer, -, hresult⟩
  · exact .inl hfailed
  · rw [hresult]
    cases how with
    | waiting => exact .inr ⟨rfl, last, buffer, _, rfl, .inl rfl⟩
    | failed => exact .inr ⟨rfl, last, buffer, _, rfl, .inr rfl⟩

end

end NovaKV
