import NovaKV.Network.ResponseStream

open Std
open NovaKV.Lib

namespace NovaKV

/-- What a log says about the connections that are closed to requests: nothing is parsed
on them, and they are removed with all their responses sent unless an error occurred. -/
structure Drains (log : List Observation) : Prop where
  parsed : ∀ before generation command, before ++ [.parsed generation command] <+: log →
    (Journals.empty.after before generation).closing = false
  protocol_error : ∀ before generation, before ++ [.protocol_error generation] <+: log →
    (Journals.empty.after before generation).closing = false
  removed : ∀ before generation reason, before ++ [.removed generation reason] <+: log →
    (Journals.empty.after before generation).closing = true → reason.is_error = false →
      (Journals.empty.after before generation).Stream (Journals.empty.after before generation).total
        (Journals.empty.after before generation).sent

/-- The server has connections only while it runs, and stops running only in a shutdown. -/
def TcpServer.Finished (self : TcpServer) : Prop :=
  self.running = false → self.stopping = true ∧ self.connections = ∅

section

variable {self : TcpServer} {fd : Nat} {conn : Connection}

theorem TcpServer.Finished.maybe_finish_shutdown (h : self.Finished) : self.maybe_finish_shutdown.Finished := by
  unfold TcpServer.maybe_finish_shutdown
  split
  · rename_i hdone
    simp only [Bool.and_eq_true, ExtTreeMap.isEmpty_iff] at hdone
    exact fun _ => ⟨hdone.1.1, hdone.2⟩
  · exact h

/-- There are connections while the server runs. -/
theorem TcpServer.Finished.running (h : self.Finished) (hconn : self.connections[fd]? = some conn) :
    self.running = true := by
  cases hrunning : self.running with
  | true => rfl
  | false =>
    rw [(h hrunning).2] at hconn
    simp at hconn

/-- What only happens while the server runs. -/
theorem TcpServer.Finished.of_running (hrunning : self.running = true) : self.Finished := by
  intro hstopped
  rw [hrunning] at hstopped
  cases hstopped

theorem TcpServer.Finished.close_connection (h : self.Finished) (reason : CloseReason) :
    (self.close_connection fd reason).server.Finished := by
  unfold TcpServer.close_connection
  cases hconn : self.connections[fd]? with
  | none => exact h
  | some conn =>
    have hrunning := h.running hconn
    exact TcpServer.Finished.maybe_finish_shutdown (of_running (by exact hrunning))

theorem TcpServer.Finished.update_epoll_event (h : self.Finished) (events : Interest) (ok : Bool) :
    (self.update_epoll_event fd events ok).server.Finished := by
  unfold TcpServer.update_epoll_event
  split
  · exact h
  · exact h.close_connection _

theorem TcpServer.Finished.handle_read (h : self.Finished) (read : SocketRead) (accepts : Nat → Bool) (ok : Bool) :
    (self.handle_read fd read accepts ok).server.Finished := by
  unfold TcpServer.handle_read
  cases hconn : self.connections[fd]? with
  | none => exact h
  | some conn =>
    have hrunning := h.running hconn
    dsimp only
    split
    · exact h
    cases read with
    | unavailable => exact h
    | failed => exact h.close_connection _
    | data bytes =>
      dsimp only
      split
      · exact h.close_connection _
      split
      · exact TcpServer.Finished.close_connection (of_running (by exact hrunning)) _
      split
      · exact TcpServer.Finished.update_epoll_event (of_running (by exact hrunning)) _ ok
      · exact of_running hrunning

theorem TcpServer.Finished.handle_write (h : self.Finished) (writes : List SocketWrite) (ok : Bool) :
    (self.handle_write fd writes ok).server.Finished := by
  unfold TcpServer.handle_write
  cases hconn : self.connections[fd]? with
  | none => exact h
  | some conn =>
    have hset : TcpServer.Finished
        { self with connections := self.connections.insert fd (write_loop writes conn).conn } :=
      of_running (h.running hconn)
    dsimp only [Outcome.andThen]
    split
    · exact hset.close_connection _
    split
    · exact hset
    split
    · split
      · exact hset.close_connection _
      · exact hset.update_epoll_event _ ok
    · exact hset.update_epoll_event _ ok

theorem TcpServer.Finished.complete_loop (tasks : List (CompletedTask × Bool)) (h : self.Finished) :
    (TcpServer.complete_loop tasks self).server.Finished := by
  induction tasks generalizing self with
  | nil => exact h.maybe_finish_shutdown
  | cons task tasks ih =>
    obtain ⟨task, ok⟩ := task
    refine @ih (self.complete_one task ok).server ?_
    unfold TcpServer.complete_one
    cases hconn : self.connections[task.fd]? with
    | none => exact h
    | some conn =>
      have hrunning := h.running hconn
      dsimp only
      split
      · exact h
      split
      · exact TcpServer.Finished.update_epoll_event (of_running (by exact hrunning)) _ ok
      · exact of_running hrunning

theorem TcpServer.Finished.close_loop (to_close : List (Nat × CloseReason)) (h : self.Finished) :
    (TcpServer.close_loop to_close self).server.Finished := by
  induction to_close generalizing self with
  | nil => exact h.maybe_finish_shutdown
  | cons entry rest ih => exact ih (h.close_connection entry.2)

theorem TcpServer.Finished.stop_loop (ok : Nat → Bool) (fds : List Nat) {to_close : List (Nat × CloseReason)}
    (h : self.Finished) : (TcpServer.stop_loop ok fds to_close self).server.Finished := by
  induction fds generalizing self to_close with
  | nil => exact h.close_loop to_close
  | cons fd fds ih =>
    refine @ih (self.stop_one fd (ok fd)).1.server _ ?_
    unfold TcpServer.stop_one
    cases hconn : self.connections[fd]? with
    | none => exact h
    | some conn =>
      have hrunning := h.running hconn
      dsimp only
      split
      · exact of_running hrunning
      split
      · exact of_running hrunning
      · exact of_running hrunning

theorem TcpServer.accept_loop_running (accepted : List Accepted) (self : TcpServer) :
    (accept_loop accepted self).server.running = self.running := by
  induction accepted generalizing self with
  | nil => rfl
  | cons accepted rest ih =>
    refine (ih (self.accept_one accepted).server).trans ?_
    unfold accept_one
    dsimp only
    split_ifs <;> rfl

theorem TcpServer.Finished.step (h : self.Finished) (event : ServerEvent) : (self.step event).server.Finished := by
  cases event with
  | accept accepted =>
    unfold TcpServer.step TcpServer.handle_accept
    dsimp only
    split
    · rename_i hopen
      rw [Bool.and_eq_true] at hopen
      exact of_running ((accept_loop_running accepted self).trans hopen.1)
    · exact h
  | connection fd events read writes accepts read_ok write_ok =>
    unfold TcpServer.step TcpServer.handle_connection_event
    dsimp only
    split
    · exact h
    split
    · exact h.close_connection _
    dsimp only [Outcome.andThen]
    have hread : TcpServer.Finished
        (if events.EPOLLIN then self.handle_read fd read accepts read_ok else ⟨self, []⟩).server := by
      split
      · exact h.handle_read read accepts read_ok
      · exact h
    split
    · exact hread.handle_write writes write_ok
    · exact hread
  | completions ok =>
    unfold TcpServer.step TcpServer.handle_worker_completions
    dsimp only
    split
    · exact h
    · exact Finished.complete_loop _ h
  | stop ok =>
    unfold TcpServer.step TcpServer.stop
    dsimp only
    split
    · exact h
    · rename_i hgoing
      refine Finished.stop_loop ok _ (of_running ?_)
      by_contra hstopped
      simp [hstopped] at hgoing
  | worker_start =>
    unfold TcpServer.step TcpServer.worker_start
    dsimp only
    split
    · exact h
    · split <;> exact h
  | worker_finish index response =>
    unfold TcpServer.step TcpServer.worker_finish
    dsimp only
    split <;> exact h

theorem TcpServer.run_finished (events : List ServerEvent) : (TcpServer.run events).server.Finished := by
  have hrun : ∀ outcome : Outcome, outcome.server.Finished →
      (events.foldl (fun outcome event => outcome.andThen (·.step event)) outcome).server.Finished := by
    induction events with
    | nil => exact fun _ h => h
    | cons event events ih => exact fun outcome h => ih _ (h.step event)
  exact hrun _ nofun

/-- In every run, a connection whose flag `closing` is set parses nothing more, and it
leaves the connections only with all its responses sent or after an error. A server
that has stopped running was stopping and has no connections. -/
theorem TcpServer.run_drains (events : List ServerEvent) :
    Drains (TcpServer.run events).log ∧
      (∀ (fd : Nat) (conn : Connection), (TcpServer.run events).server.connections[fd]? = some conn →
        conn.closing = (Journals.empty.after (TcpServer.run events).log conn.generation).closing) ∧
      (∀ generation fd, (Journals.empty.after (TcpServer.run events).log generation).fd = some fd →
        (Journals.empty.after (TcpServer.run events).log generation).removed = false →
        ∃ conn, (TcpServer.run events).server.connections[fd]? = some conn ∧ conn.generation = generation) ∧
      ((TcpServer.run events).server.running = false →
        (TcpServer.run events).server.stopping = true ∧ (TcpServer.run events).server.connections = ∅) := by
  obtain ⟨hlawful, hserving⟩ := TcpServer.run_keeps events
  refine ⟨⟨?_, ?_, ?_⟩, ?_, hserving.clients.live, TcpServer.run_finished events⟩
  · exact fun before generation command hlog => (hlawful.last hlog).2
  · exact fun before generation hlog => (hlawful.last hlog).2
  · intro before generation reason hlog hclosing hreason
    rcases hlawful.last hlog hclosing with herror | hstream
    · rw [hreason] at herror
      cases herror
    · exact hstream
  · intro fd conn hconn
    exact (hserving.clients.counted fd conn hconn).closing

end

end NovaKV
