import NovaKV.Network.Draining

open Std
open NovaKV.Lib

namespace NovaKV

/-- A connection that is registered for these events will go on: what is in the output
can be written or waits for a response, and a connection that can be closed is told so. -/
structure Connection.Flows (conn : Connection) (registered : Interest) : Prop where
  next : conn.pending_responses[conn.next_write_seq]? = none
  output : conn.output_buffer.readable_bytes ≠ 0 →
    registered.EPOLLOUT = true ∨ conn.next_write_seq < conn.next_request_seq
  drained : conn.closing = true → conn.drained = true → registered.EPOLLOUT = true

/-- All connections go on, but for those that are to be closed at once. -/
def TcpServer.Registered (self : TcpServer) (skip : List Nat) : Prop :=
  ∀ (fd : Nat) (conn : Connection), self.connections[fd]? = some conn → fd ∉ skip →
    ∃ registered, self.epoll[fd]? = some registered ∧ conn.Flows registered

/-- What is in the output of a connection can be written, or will be after a response
that a worker still has to compute or that waits in the queue. And a connection that is
closing is not drained, or it can be written, and will be closed then. -/
def TcpServer.NoneStranded (self : TcpServer) : Prop :=
  ∀ (fd : Nat) (conn : Connection), self.connections[fd]? = some conn →
    ∃ registered, self.epoll[fd]? = some registered ∧
      (conn.output_buffer.readable_bytes ≠ 0 → registered.EPOLLOUT = true ∨
        ∃ seq, conn.next_write_seq ≤ seq ∧ seq < conn.next_request_seq ∧
          (conn.generation, seq) ∈ tickets (self.tasks ++ self.busy) self.completed_queue) ∧
      (conn.closing = true → conn.drained = false ∨ registered.EPOLLOUT = true)

section

variable {self : TcpServer} {fd : Nat} {conn conn' : Connection} {skip : List Nat} {registered : Interest}

theorem TcpServer.Registered.maybe_finish_shutdown (h : self.Registered skip) :
    self.maybe_finish_shutdown.Registered skip := by
  unfold TcpServer.maybe_finish_shutdown
  split <;> exact h

theorem TcpServer.Registered.close_connection (h : self.Registered (fd :: skip)) (reason : CloseReason) :
    (self.close_connection fd reason).server.Registered skip := by
  unfold TcpServer.close_connection
  cases hconn : self.connections[fd]? with
  | none =>
    intro other found hfound hskip
    refine h other found hfound ?_
    rw [List.mem_cons, not_or]
    refine ⟨?_, hskip⟩
    rintro rfl
    cases hconn.symm.trans hfound
  | some conn =>
    refine TcpServer.Registered.maybe_finish_shutdown ?_
    intro other found hfound hskip
    rw [ExtTreeMap.getElem?_erase] at hfound ⊢
    split at hfound
    · cases hfound
    · rename_i hne
      have hother : fd ≠ other := by simpa using hne
      rw [if_neg hne]
      exact h other found hfound (by simp [hother.symm, hskip])

/-- A connection that changes is registered anew, or left alone. -/
theorem TcpServer.Registered.set (h : self.Registered skip) (conn' : Connection) :
    TcpServer.Registered { self with connections := self.connections.insert fd conn' } (fd :: skip) := by
  intro other found hfound hskip
  rw [List.mem_cons, not_or] at hskip
  rw [ExtTreeMap.getElem?_insert, if_neg (by simpa using Ne.symm hskip.1)] at hfound
  exact h other found hfound hskip.2

theorem TcpServer.Registered.keep (h : self.Registered (fd :: skip)) (hconn : self.connections[fd]? = some conn)
    (hregistered : self.epoll[fd]? = some registered) (hflows : conn.Flows registered) : self.Registered skip := by
  intro other found hfound hskip
  by_cases hother : other = fd
  · subst hother
    cases hconn.symm.trans hfound
    exact ⟨registered, hregistered, hflows⟩
  · exact h other found hfound (by simp [hother, hskip])

theorem TcpServer.Registered.register (h : self.Registered (fd :: skip)) (hconn : self.connections[fd]? = some conn)
    {events : Interest} (hflows : conn.Flows events) :
    TcpServer.Registered { self with epoll := self.epoll.insert fd events } skip := by
  have hothers : TcpServer.Registered { self with epoll := self.epoll.insert fd events } (fd :: skip) := by
    intro other found hfound hskip
    have hne : fd ≠ other := fun heq => hskip (heq ▸ List.mem_cons_self)
    obtain ⟨registered, hregistered, hflows⟩ := h other found hfound hskip
    refine ⟨registered, ?_, hflows⟩
    rw [ExtTreeMap.getElem?_insert, if_neg (by simpa using hne)]
    exact hregistered
  exact hothers.keep hconn ExtTreeMap.getElem?_insert_self hflows

theorem TcpServer.Registered.update_epoll_event (h : self.Registered (fd :: skip))
    (hconn : self.connections[fd]? = some conn) {events : Interest} (hflows : conn.Flows events) (ok : Bool) :
    (self.update_epoll_event fd events ok).server.Registered skip := by
  unfold TcpServer.update_epoll_event
  split
  · exact h.register hconn hflows
  · exact h.close_connection _

theorem TcpServer.Registered.weaken (h : self.Registered skip) (fd : Nat) : self.Registered (fd :: skip) :=
  fun other found hfound hskip => h other found hfound fun hmem => hskip (List.mem_cons_of_mem _ hmem)

/-- New requests do not block the output. -/
theorem Connection.Flows.request (h : conn.Flows registered) (hopen : conn.closing = false) (parser : RESPParser)
    (input_buffer : NetworkBuffer) (count : Nat) :
    Connection.Flows
      { conn with
        parser := parser
        input_buffer := input_buffer
        next_request_seq := conn.next_request_seq + count } registered := by
  refine ⟨h.next, fun houtput => (h.output houtput).imp_right (Nat.lt_add_right count), ?_⟩
  intro hclosing
  rw [hopen] at hclosing
  cases hclosing

/-- After a protocol error the output can be written, or the error reply waits for
the responses in front of it. -/
theorem Connection.flows_fail_connection_protocol (hle : conn.next_write_seq ≤ conn.next_request_seq)
    {before : Connection} (hbefore : before.next_write_seq = conn.next_write_seq) :
    conn.fail_connection_protocol.Flows (TcpServer.failed_events before conn.fail_connection_protocol) := by
  have hcases : conn.fail_connection_protocol.next_write_seq = conn.next_write_seq ∨
      conn.next_write_seq < conn.fail_connection_protocol.next_write_seq := by
    have hloop := append_ready_loop_cases
      (conn.pending_responses.insertIfNew conn.next_request_seq protocol_error_reply).size
      { conn with
        next_request_seq := conn.next_request_seq + 1
        pending_responses := conn.pending_responses.insertIfNew conn.next_request_seq protocol_error_reply
        closing := true
        input_buffer := conn.input_buffer.retrieve_all }
    rcases hloop with hsame | hgrown
    · have hnext := congrArg next_write_seq hsame
      exact .inl hnext
    · exact .inr hgrown
  have hnext := fail_connection_protocol_next conn
  refine ⟨append_ready_next _, ?_, ?_⟩
  · intro _
    rcases hcases with hsame | hgrown
    · exact .inr (by omega)
    · exact .inl (decide_eq_true (hbefore ▸ hgrown))
  · intro _ hdrained
    simp only [Connection.drained, Bool.and_eq_true, beq_iff_eq] at hdrained
    rcases hcases with hsame | hgrown
    · omega
    · exact decide_eq_true (hbefore ▸ hgrown)

theorem TcpServer.Registered.handle_read (h : self.Registered [])
    (hle : ∀ conn, self.connections[fd]? = some conn → conn.next_write_seq ≤ conn.next_request_seq)
    (read : SocketRead) (accepts : Nat → Bool) (ok : Bool) :
    (self.handle_read fd read accepts ok).server.Registered [] := by
  unfold TcpServer.handle_read
  cases hconn : self.connections[fd]? with
  | none => exact h
  | some conn =>
    dsimp only
    split
    · exact h
    rename_i hclosing
    have hopen : conn.closing = false := by simpa using hclosing
    cases read with
    | unavailable => exact h
    | failed => exact (h.weaken fd).close_connection _
    | data bytes =>
      dsimp only
      split
      · exact (h.weaken fd).close_connection _
      obtain ⟨commands, -, -, -, hcases⟩ := conn.receive_cases accepts bytes hopen
      have hset : TcpServer.Registered
          { self with
            connections := self.connections.insert fd (conn.receive accepts bytes).conn
            tasks := self.tasks ++ (conn.receive accepts bytes).tasks } [fd] :=
        h.set _
      rcases hcases with hrefused | ⟨haccepted, parser, input_buffer, counted, rfl, hresult⟩
      · rw [if_pos hrefused]
        exact hset.close_connection _
      rw [if_neg (by simp [haccepted])]
      have hget : (self.connections.insert fd (conn.receive accepts bytes).conn)[fd]? =
          some (conn.receive accepts bytes).conn := ExtTreeMap.getElem?_insert_self
      rcases hresult with hresult | hresult
      · rw [if_neg (by simp [hresult, hopen])]
        obtain ⟨registered, hregistered, hflows⟩ := h fd conn hconn List.not_mem_nil
        refine hset.keep hget hregistered ?_
        rw [hresult]
        exact hflows.request hopen parser input_buffer commands.length
      · rw [if_pos (by simp [hresult])]
        refine hset.update_epoll_event hget ?_ ok
        rw [hresult]
        exact Connection.flows_fail_connection_protocol (Nat.le_add_right_of_le (hle conn hconn)) rfl

theorem TcpServer.Registered.handle_write (h : self.Registered []) (writes : List SocketWrite) (ok : Bool) :
    (self.handle_write fd writes ok).server.Registered [] := by
  unfold TcpServer.handle_write
  cases hconn : self.connections[fd]? with
  | none => exact h
  | some conn =>
    obtain ⟨registered, hregistered, hnext, houtput, hdrained⟩ := h fd conn hconn List.not_mem_nil
    obtain ⟨hsame, hsent⟩ := write_loop_eq writes conn
    have hset : TcpServer.Registered
        { self with connections := self.connections.insert fd (write_loop writes conn).conn } [fd] :=
      h.set _
    have hget : (self.connections.insert fd (write_loop writes conn).conn)[fd]? =
        some (write_loop writes conn).conn := ExtTreeMap.getElem?_insert_self
    have hwritten : (write_loop writes conn).conn.pending_responses[(write_loop writes conn).conn.next_write_seq]? =
        none := by
      rw [hsame]
      exact hnext
    dsimp only [Outcome.andThen]
    split
    · exact hset.close_connection _
    split
    · rename_i hleft
      refine hset.keep hget hregistered ⟨hwritten, ?_, ?_⟩
      · intro _
        have hbefore : conn.output_buffer.readable_bytes ≠ 0 := by
          rw [← NetworkBuffer.readable_length] at hleft ⊢
          rw [← hsent, List.length_append]
          omega
        rw [hsame]
        exact houtput hbefore
      · intro _ hempty
        simp only [Connection.drained, Bool.and_eq_true, beq_iff_eq] at hempty
        exact absurd hempty.1.1 hleft
    rename_i hleft
    have hempty : (write_loop writes conn).conn.output_buffer.readable_bytes = 0 := by simpa using hleft
    split
    · split
      · exact hset.close_connection _
      · rename_i hnot
        exact hset.update_epoll_event hget ⟨hwritten, fun hsome => absurd hempty hsome, fun _ hdone => absurd hdone hnot⟩ ok
    · rename_i hnot
      exact hset.update_epoll_event hget
        ⟨hwritten, fun hsome => absurd hempty hsome, fun hclosing => absurd hclosing hnot⟩ ok

theorem TcpServer.Registered.complete_one (h : self.Registered []) (task : CompletedTask) (ok : Bool) :
    (self.complete_one task ok).server.Registered [] := by
  unfold TcpServer.complete_one
  cases hconn : self.connections[task.fd]? with
  | none => exact h
  | some conn =>
    dsimp only
    split
    · exact h
    obtain ⟨registered, hregistered, hnext, houtput, hdrained⟩ := h task.fd conn hconn List.not_mem_nil
    have hready := Connection.append_ready_next
      { conn with pending_responses := conn.pending_responses.insertIfNew task.seq task.response }
    have hcases := Connection.append_ready_loop_cases
      (conn.pending_responses.insertIfNew task.seq task.response).size
      { conn with pending_responses := conn.pending_responses.insertIfNew task.seq task.response }
    split
    · exact (h.set _).update_epoll_event ExtTreeMap.getElem?_insert_self
        ⟨hready, fun _ => .inl rfl, fun _ _ => rfl⟩ ok
    · rename_i hnot
      have hsame := hcases.resolve_right hnot
      refine (h.set _).keep ExtTreeMap.getElem?_insert_self hregistered ⟨hready, ?_, ?_⟩
      · rw [Connection.append_ready, hsame]
        exact houtput
      · intro _ hempty
        rw [Connection.append_ready, hsame] at hempty
        simp [Connection.drained] at hempty

theorem TcpServer.Registered.complete_loop (tasks : List (CompletedTask × Bool)) (h : self.Registered []) :
    (TcpServer.complete_loop tasks self).server.Registered [] := by
  induction tasks generalizing self with
  | nil => exact h.maybe_finish_shutdown
  | cons task tasks ih => exact ih (h.complete_one task.1 task.2)

theorem TcpServer.Registered.close_loop (to_close : List (Nat × CloseReason))
    (h : self.Registered (to_close.map Prod.fst)) : (TcpServer.close_loop to_close self).server.Registered [] := by
  induction to_close generalizing self with
  | nil => exact h.maybe_finish_shutdown
  | cons entry rest ih => exact ih (h.close_connection entry.2)

/-- `Stop` registers a connection, or closes it later. -/
theorem TcpServer.Registered.stop_one (h : self.Registered skip) (hfresh : fd ∉ skip) (ok : Bool) :
    (self.stop_one fd ok).1.server.Registered
      (skip ++ ((self.stop_one fd ok).2.map fun reason => (fd, reason)).toList.map Prod.fst) := by
  unfold TcpServer.stop_one
  cases hconn : self.connections[fd]? with
  | none => simpa using h
  | some conn =>
    obtain ⟨registered, hregistered, hnext, houtput, hdrained⟩ := h fd conn hconn hfresh
    have hset := @TcpServer.Registered.set self fd skip h
      { conn with closing := true, input_buffer := conn.input_buffer.retrieve_all }
    have hlast : TcpServer.Registered
        { self with
          connections := self.connections.insert fd
            { conn with closing := true, input_buffer := conn.input_buffer.retrieve_all } } (skip ++ [fd]) := by
      intro other found hfound hskip
      exact hset other found hfound (by simpa [and_comm] using hskip)
    dsimp only
    split
    · exact hlast
    rename_i hnot
    split
    · rw [Option.map_none, Option.toList_none, List.map_nil, List.append_nil]
      exact hset.register ExtTreeMap.getElem?_insert_self
        ⟨hnext, fun _ => .inl rfl, fun _ hdone => absurd hdone hnot⟩
    · exact hlast

theorem TcpServer.stop_one_fd (self : TcpServer) (fd : Nat) (ok : Bool) {other : Nat}
    (h : other ∈ ((self.stop_one fd ok).2.map fun reason => (fd, reason)).toList.map Prod.fst) : other = fd := by
  simp only [List.mem_map, Option.mem_toList, Option.map_eq_some_iff] at h
  obtain ⟨_, ⟨_, -, rfl⟩, rfl⟩ := h
  rfl

theorem TcpServer.Registered.stop_loop (ok : Nat → Bool) (fds : List Nat) {to_close : List (Nat × CloseReason)}
    (h : self.Registered (to_close.map Prod.fst)) (hdistinct : fds.Nodup)
    (hfresh : ∀ fd ∈ fds, fd ∉ to_close.map Prod.fst) :
    (TcpServer.stop_loop ok fds to_close self).server.Registered [] := by
  induction fds generalizing self to_close with
  | nil => exact h.close_loop to_close
  | cons fd fds ih =>
    rw [List.nodup_cons] at hdistinct
    refine @ih (self.stop_one fd (ok fd)).1.server _ ?_ hdistinct.2 ?_
    · rw [List.map_append]
      exact h.stop_one (hfresh fd List.mem_cons_self) (ok fd)
    · intro other hother
      rw [List.map_append, List.mem_append, not_or]
      refine ⟨hfresh other (List.mem_cons_of_mem _ hother), ?_⟩
      intro hnew
      cases self.stop_one_fd fd (ok fd) hnew
      exact hdistinct.1 hother

theorem TcpServer.Registered.accept_loop (accepted : List Accepted) (h : self.Registered []) :
    (TcpServer.accept_loop accepted self).server.Registered [] := by
  induction accepted generalizing self with
  | nil => exact h
  | cons accepted rest ih =>
    refine @ih (self.accept_one accepted).server ?_
    unfold TcpServer.accept_one
    dsimp only
    split
    · exact h
    split
    · exact h
    split
    · exact h
    · have hset := @TcpServer.Registered.set { self with next_generation := self.next_generation + 1 } accepted.fd []
        h (.new accepted.fd self.next_generation)
      refine hset.register ExtTreeMap.getElem?_insert_self ⟨?_, ?_, nofun⟩
      · simp [Connection.new]
      · intro hsome
        exact absurd rfl hsome

theorem TcpServer.Registered.step {done : List CompletedTask} {journals : Journals} (h : self.Registered [])
    (hserving : self.Serving done journals) (event : ServerEvent) : (self.step event).server.Registered [] := by
  cases event with
  | accept accepted =>
    unfold TcpServer.step TcpServer.handle_accept
    dsimp only
    split
    · exact h.accept_loop accepted
    · exact h
  | connection fd events read writes accepts read_ok write_ok =>
    unfold TcpServer.step TcpServer.handle_connection_event
    dsimp only
    split
    · exact h
    split
    · exact (h.weaken fd).close_connection _
    dsimp only [Outcome.andThen]
    have hread : TcpServer.Registered
        (if events.EPOLLIN then self.handle_read fd read accepts read_ok else ⟨self, []⟩).server [] := by
      split
      · exact h.handle_read (fun conn hconn => (hserving.clients.tracked fd conn hconn).write_le) read accepts read_ok
      · exact h
    split
    · exact hread.handle_write writes write_ok
    · exact hread
  | completions ok =>
    unfold TcpServer.step TcpServer.handle_worker_completions
    dsimp only
    split
    · exact h
    · exact Registered.complete_loop _ h
  | stop ok =>
    unfold TcpServer.step TcpServer.stop
    dsimp only
    split
    · exact h
    · exact Registered.stop_loop ok _ h ExtTreeMap.nodup_keys nofun
  | worker_start =>
    unfold TcpServer.step TcpServer.worker_start
    dsimp only
    split
    · exact h
    · split <;> exact h
  | worker_finish index response =>
    unfold TcpServer.step TcpServer.worker_finish
    dsimp only
    split <;> exact h

theorem TcpServer.run_registered (events : List ServerEvent) : (TcpServer.run events).server.Registered [] := by
  have hrun : ∀ outcome : Outcome, outcome.Keeps [] Journals.empty → outcome.server.Registered [] →
      (events.foldl (fun outcome event => outcome.andThen (·.step event)) outcome).server.Registered [] := by
    induction events with
    | nil => exact fun _ _ h => h
    | cons event events ih =>
      exact fun outcome hkeeps h =>
        ih _ (hkeeps.andThen fun hserving => hserving.step event) (h.step hkeeps.serving event)
  refine hrun _ TcpServer.serving_start.pure ?_
  intro fd conn hconn
  simp [TcpServer.start] at hconn

/-- In every run no response is stranded. -/
theorem TcpServer.run_none_stranded (events : List ServerEvent) : (TcpServer.run events).server.NoneStranded := by
  intro fd conn hconn
  obtain ⟨registered, hregistered, hnext, houtput, hdrained⟩ :=
    TcpServer.run_registered events fd conn hconn List.not_mem_nil
  have htracked := (TcpServer.run_keeps events).serving.clients.tracked fd conn hconn
  refine ⟨registered, hregistered, ?_, ?_⟩
  · intro hsome
    refine (houtput hsome).imp_right fun hlt => ?_
    refine ⟨conn.next_write_seq, Nat.le_refl _, hlt, ?_⟩
    have hcovered := htracked.covered _ (Nat.le_refl _) hlt
    rw [hnext] at hcovered
    simpa using hcovered
  · intro hclosing
    cases hdone : conn.drained with
    | false => exact .inl rfl
    | true => exact .inr (hdrained hclosing hdone)

end

end NovaKV
