import NovaKV.Lib.Progress
import NovaKV.Lib.SortedMap
import NovaKV.Network.Registered

open Std
open NovaKV.Lib

namespace NovaKV

/-- What goes on during a shutdown: workers take tasks and finish them, the event loop
takes their responses, and a socket takes output. -/
inductive Activity where
  | start
  | finish
  | complete
  | write (fd : Nat)

/-- A write that the socket does not put off. -/
def SocketWrite.Proceeds : SocketWrite → Prop
  | .wrote n => 0 < n
  | .failed => True
  | _ => False

namespace TcpServer

/-- Whether a socket is registered for `EPOLLOUT`. -/
def writable (self : TcpServer) (fd : Nat) : Bool := self.epoll[fd]?.any (·.EPOLLOUT)

def Enabled (self : TcpServer) : Activity → Prop
  | .start => self.tasks ≠ [] ∧ self.busy.length < kWorkers
  | .finish => self.busy ≠ []
  | .complete => self.running = true ∧ self.completed_queue ≠ []
  | .write fd => fd ∈ self.connections ∧ self.writable fd = true

/-- The events in which an activity goes on. A socket for which `epoll_wait` reports that
it can be written takes at least a byte, or the write fails. -/
def Performs (self : TcpServer) : Activity → ServerEvent → Prop
  | .start, .worker_start => True
  | .finish, .worker_finish index _ => index < self.busy.length
  | .complete, .completions _ => True
  | .write fd, .connection fd' events _ writes _ _ _ =>
    fd' = fd ∧ (events.EPOLLERR = true ∨ events.EPOLLHUP = true ∨
      events.EPOLLOUT = true ∧ ∃ write rest, writes = write :: rest ∧ write.Proceeds)
  | _, _ => False

/-- What a connection has left to do. -/
def left (self : TcpServer) (fd : Nat) (conn : Connection) : Nat :=
  conn.output_buffer.readable_bytes + (self.writable fd).toNat + 1

/-- What the connections have left to do. -/
def remaining (self : TcpServer) : Nat := totalWeight self.left self.connections

/-- What is left to do before the server is shut down. A step may add to what comes
later, when it takes from what comes first. -/
def rank (self : TcpServer) : ℕ ×ₗ ℕ ×ₗ ℕ :=
  toLex (2 * self.tasks.length + self.busy.length, toLex (self.completed_queue.length, self.remaining))

/-- The server after an event. -/
def advance (self : TcpServer) (event : ServerEvent) : TcpServer := (self.step event).server

/-- A server that is shutting down. -/
structure Winding (server : TcpServer) : Prop where
  stopping : server.stopping = true
  listening : server.listening = false
  closing : ∀ (fd : Nat) (conn : Connection), server.connections[fd]? = some conn → conn.closing = true
  finishes : server.connections = ∅ → server.running = false

/-- What has been handed to the workers and the event loop, which a part of an event
leaves alone. -/
structure SameWork (server next : TcpServer) : Prop where
  tasks : next.tasks = server.tasks
  busy : next.busy = server.busy
  completed_queue : next.completed_queue = server.completed_queue

/-- After a step that takes nothing from what is left to do, it is the same that can go on. -/
structure Calm (server next : TcpServer) : Prop where
  work : server.SameWork next
  running : next.running = server.running
  connections : ∀ fd, fd ∈ next.connections ↔ fd ∈ server.connections
  writable : ∀ fd, next.writable fd = server.writable fd
  remaining : next.remaining ≤ server.remaining

end TcpServer

section

variable {self next last : TcpServer} {fd : Nat} {conn conn' : Connection}

theorem TcpServer.SameWork.refl (self : TcpServer) : self.SameWork self := ⟨rfl, rfl, rfl⟩

theorem TcpServer.SameWork.trans (hfirst : self.SameWork next) (hsecond : next.SameWork last) :
    self.SameWork last :=
  ⟨hsecond.tasks.trans hfirst.tasks, hsecond.busy.trans hfirst.busy,
    hsecond.completed_queue.trans hfirst.completed_queue⟩

theorem TcpServer.maybe_finish_shutdown_sameWork (self : TcpServer) :
    self.SameWork self.maybe_finish_shutdown := by
  unfold TcpServer.maybe_finish_shutdown
  split <;> exact ⟨rfl, rfl, rfl⟩

theorem TcpServer.close_connection_sameWork (self : TcpServer) (fd : Nat) (reason : CloseReason) :
    self.SameWork (self.close_connection fd reason).server := by
  unfold TcpServer.close_connection
  cases self.connections[fd]? with
  | none => exact .refl self
  | some conn =>
    have herased : self.SameWork { self with
        epoll := self.epoll.erase fd, connections := self.connections.erase fd } := ⟨rfl, rfl, rfl⟩
    exact herased.trans (maybe_finish_shutdown_sameWork _)

theorem TcpServer.update_epoll_event_sameWork (self : TcpServer) (fd : Nat) (events : Interest) (ok : Bool) :
    self.SameWork (self.update_epoll_event fd events ok).server := by
  unfold TcpServer.update_epoll_event
  split
  · exact ⟨rfl, rfl, rfl⟩
  · exact self.close_connection_sameWork fd .epoll_failed

theorem TcpServer.complete_one_sameWork (self : TcpServer) (task : CompletedTask) (ok : Bool) :
    self.SameWork (self.complete_one task ok).server := by
  unfold TcpServer.complete_one
  cases self.connections[task.fd]? with
  | none => exact .refl self
  | some conn =>
    dsimp only
    split
    · exact .refl self
    have hset : ∀ conn' : Connection, self.SameWork
        { self with connections := self.connections.insert task.fd conn' } := fun _ => ⟨rfl, rfl, rfl⟩
    split
    · exact (hset _).trans (update_epoll_event_sameWork _ _ _ _)
    · exact hset _

theorem TcpServer.complete_loop_sameWork (tasks : List (CompletedTask × Bool)) (self : TcpServer) :
    self.SameWork (complete_loop tasks self).server := by
  induction tasks generalizing self with
  | nil => exact maybe_finish_shutdown_sameWork self
  | cons task tasks ih => exact (self.complete_one_sameWork task.1 task.2).trans (ih _)

/-- The server goes on shutting down when its connections change, if none of them opens
again and one is left. -/
theorem TcpServer.Winding.set (h : self.Winding) (hclosing : conn'.closing = true) (epoll : ExtTreeMap Nat Interest) :
    TcpServer.Winding { self with connections := self.connections.insert fd conn', epoll := epoll } where
  stopping := h.stopping
  listening := h.listening
  closing other found hfound := by
    rw [ExtTreeMap.getElem?_insert] at hfound
    split at hfound
    · cases hfound
      exact hclosing
    · exact h.closing other found hfound
  finishes hempty := absurd hempty ExtTreeMap.insert_ne_empty

theorem TcpServer.Winding.close_connection (h : self.Winding) (reason : CloseReason) :
    (self.close_connection fd reason).server.Winding := by
  unfold TcpServer.close_connection
  cases hconn : self.connections[fd]? with
  | none => exact h
  | some conn =>
    have hclosing : ∀ (other : Nat) (found : Connection), (self.connections.erase fd)[other]? = some found →
        found.closing = true := by
      intro other found hfound
      rw [ExtTreeMap.getElem?_erase] at hfound
      split at hfound
      · cases hfound
      · exact h.closing other found hfound
    dsimp only [TcpServer.maybe_finish_shutdown]
    split
    · exact ⟨h.stopping, h.listening, hclosing, fun _ => rfl⟩
    · rename_i hnot
      refine ⟨h.stopping, h.listening, hclosing, ?_⟩
      intro hempty
      have hdone : (self.connections.erase fd).isEmpty = true := ExtTreeMap.isEmpty_iff.mpr hempty
      simp [h.stopping, h.listening, hdone] at hnot

/-- With a connection, the server does not come to its end. -/
theorem TcpServer.Winding.maybe_finish_shutdown_eq (h : self.Winding) : self.maybe_finish_shutdown = self := by
  unfold TcpServer.maybe_finish_shutdown
  split
  · rename_i hdone
    simp only [Bool.and_eq_true, ExtTreeMap.isEmpty_iff] at hdone
    rw [← h.finishes hdone.2]
  · rfl

theorem TcpServer.Winding.complete_one (h : self.Winding) (task : CompletedTask) (ok : Bool) :
    (self.complete_one task ok).server.Winding := by
  unfold TcpServer.complete_one
  cases hconn : self.connections[task.fd]? with
  | none => exact h
  | some conn =>
    dsimp only
    split
    · exact h
    have hclosing : (Connection.append_ready { conn with
        pending_responses := conn.pending_responses.insertIfNew task.seq task.response }).closing = true :=
      (Connection.append_ready_loop_reading _ _).2.2.1.trans (h.closing task.fd conn hconn)
    split
    · unfold TcpServer.update_epoll_event
      split
      · exact h.set hclosing _
      · exact (h.set hclosing _).close_connection _
    · exact h.set hclosing _

theorem TcpServer.Winding.complete_loop (tasks : List (CompletedTask × Bool)) (h : self.Winding) :
    (TcpServer.complete_loop tasks self).server.Winding := by
  induction tasks generalizing self with
  | nil =>
    have hend : (TcpServer.complete_loop [] self).server = self := h.maybe_finish_shutdown_eq
    rw [hend]
    exact h
  | cons task tasks ih => exact ih (h.complete_one task.1 task.2)

/-- Nothing is read any more. -/
theorem TcpServer.Winding.handle_read_eq (h : self.Winding) (read : SocketRead) (accepts : Nat → Bool) (ok : Bool) :
    self.handle_read fd read accepts ok = ⟨self, []⟩ := by
  unfold TcpServer.handle_read
  cases hconn : self.connections[fd]? with
  | none => rfl
  | some conn =>
    dsimp only
    rw [if_pos (h.closing fd conn hconn)]

theorem TcpServer.writable_congr (hepoll : next.epoll[fd]? = self.epoll[fd]?) : next.writable fd = self.writable fd := by
  unfold TcpServer.writable
  rw [hepoll]

/-- What is left to do when one connection changes, or closes. -/
theorem TcpServer.remaining_set (hconn : self.connections[fd]? = some conn)
    (hnext : next.connections = self.connections.insert fd conn')
    (hepoll : ∀ other, other ≠ fd → next.epoll[other]? = self.epoll[other]?) :
    next.remaining + self.left fd conn = self.remaining + next.left fd conn' := by
  unfold TcpServer.remaining
  rw [hnext]
  refine totalWeight_insert hconn ?_ conn'
  intro other found hne
  unfold TcpServer.left
  rw [writable_congr (hepoll other hne)]

theorem TcpServer.remaining_close (hconn : self.connections[fd]? = some conn)
    (hnext : next.connections = self.connections.erase fd)
    (hepoll : ∀ other, other ≠ fd → next.epoll[other]? = self.epoll[other]?) : next.remaining < self.remaining := by
  have hsum : next.remaining + self.left fd conn = self.remaining := by
    unfold TcpServer.remaining
    rw [hnext]
    refine totalWeight_erase hconn ?_
    intro other found hne
    unfold TcpServer.left
    rw [writable_congr (hepoll other hne)]
  have hpos : 0 < self.left fd conn := Nat.succ_pos _
  omega

theorem TcpServer.SameWork.rank_lt (h : self.SameWork next) (hlt : next.remaining < self.remaining) :
    next.rank < self.rank := by
  unfold TcpServer.rank
  rw [h.tasks, h.busy, h.completed_queue]
  exact Prod.Lex.toLex_lt_toLex.mpr (.inr ⟨rfl, Prod.Lex.toLex_lt_toLex.mpr (.inr ⟨rfl, hlt⟩)⟩)

theorem TcpServer.Calm.rank_le (h : self.Calm next) : next.rank ≤ self.rank := by
  unfold TcpServer.rank
  rw [h.work.tasks, h.work.busy, h.work.completed_queue]
  exact Prod.Lex.toLex_le_toLex.mpr (.inr ⟨rfl, Prod.Lex.toLex_le_toLex.mpr (.inr ⟨rfl, h.remaining⟩)⟩)

theorem TcpServer.Calm.refl (self : TcpServer) : self.Calm self :=
  ⟨.refl self, rfl, fun _ => Iff.rfl, fun _ => rfl, Nat.le_refl _⟩

theorem TcpServer.Calm.enabled (h : self.Calm next) {activity : Activity} (henabled : self.Enabled activity) :
    next.Enabled activity := by
  cases activity with
  | start =>
    unfold Enabled at henabled ⊢
    rwa [h.work.tasks, h.work.busy]
  | finish =>
    unfold Enabled at henabled ⊢
    rwa [h.work.busy]
  | complete =>
    unfold Enabled at henabled ⊢
    rwa [h.work.completed_queue, h.running]
  | write fd => exact ⟨(h.connections fd).mpr henabled.1, (h.writable fd).trans henabled.2⟩

theorem TcpServer.maybe_finish_shutdown_maps (self : TcpServer) :
    self.maybe_finish_shutdown.connections = self.connections ∧ self.maybe_finish_shutdown.epoll = self.epoll := by
  unfold TcpServer.maybe_finish_shutdown
  split <;> exact ⟨rfl, rfl⟩

theorem TcpServer.close_connection_maps (hconn : self.connections[fd]? = some conn) (reason : CloseReason) :
    (self.close_connection fd reason).server.connections = self.connections.erase fd ∧
      (self.close_connection fd reason).server.epoll = self.epoll.erase fd := by
  unfold TcpServer.close_connection
  rw [hconn]
  exact maybe_finish_shutdown_maps _

/-- A connection that is closed is one thing less to do. -/
theorem TcpServer.close_connection_rank (hconn : self.connections[fd]? = some conn) (reason : CloseReason) :
    (self.close_connection fd reason).server.rank < self.rank := by
  obtain ⟨hconnections, hepoll⟩ := TcpServer.close_connection_maps hconn reason
  refine (self.close_connection_sameWork fd reason).rank_lt (remaining_close hconn hconnections ?_)
  intro other hne
  rw [hepoll, ExtTreeMap.getElem?_erase, if_neg (by simpa using hne.symm)]

/-- The first write that the socket does not put off fails or takes some of the output. -/
theorem TcpServer.write_loop_proceeds {write : SocketWrite} (hwrite : write.Proceeds) (writes : List SocketWrite)
    (houtput : conn.output_buffer.readable_bytes ≠ 0) :
    (write_loop (write :: writes) conn).failed = true ∨
      (write_loop (write :: writes) conn).conn.output_buffer.readable_bytes < conn.output_buffer.readable_bytes := by
  simp only [write_loop.eq_def (write :: writes), if_neg houtput]
  cases write with
  | wrote n =>
    have hpos : 0 < n := hwrite
    right
    dsimp only
    rw [if_neg (by omega)]
    obtain ⟨-, hsent⟩ := write_loop_eq writes { conn with output_buffer := conn.output_buffer.retrieve n }
    have hlength := congrArg List.length hsent
    rw [List.length_append, NetworkBuffer.readable_length, NetworkBuffer.readable_retrieve, List.length_drop,
      NetworkBuffer.readable_length] at hlength
    dsimp only
    omega
  | failed => exact .inl rfl
  | interrupted => cases hwrite
  | unavailable => cases hwrite

theorem TcpServer.mem_insert_iff (self : TcpServer) (hconn : self.connections[fd]? = some conn) (conn' : Connection)
    (other : Nat) : other ∈ self.connections.insert fd conn' ↔ other ∈ self.connections := by
  rw [ExtTreeMap.mem_insert]
  constructor
  · rintro (heq | hmem)
    · rw [← LawfulEqCmp.compare_eq_iff_eq.mp heq]
      exact ExtTreeMap.mem_iff_isSome_getElem?.mpr (by rw [hconn]; rfl)
    · exact hmem
  · exact .inr

/-- A connection that has nothing left to write is not registered for `EPOLLOUT` any
more. -/
theorem TcpServer.Winding.unregister (h : self.Winding) (hconn : self.connections[fd]? = some conn)
    (hclosing : conn'.closing = true)
    (hle : conn'.output_buffer.readable_bytes ≤ conn.output_buffer.readable_bytes)
    (hnext : next = { self with
      connections := self.connections.insert fd conn'
      epoll := self.epoll.insert fd ⟨false, false⟩ }) :
    next.Winding ∧ (next.rank < self.rank ∨ self.Calm next ∧ self.writable fd = false) := by
  subst hnext
  refine ⟨h.set hclosing _, ?_⟩
  have hothers : ∀ other, other ≠ fd → (self.epoll.insert fd ⟨false, false⟩)[other]? = self.epoll[other]? := by
    intro other hne
    rw [ExtTreeMap.getElem?_insert, if_neg (by simpa using hne.symm)]
  have hremaining := @remaining_set self
    { self with
      connections := self.connections.insert fd conn'
      epoll := self.epoll.insert fd ⟨false, false⟩ } fd conn _ hconn rfl hothers
  have hnone : ((self.epoll.insert fd ⟨false, false⟩)[fd]?.any fun registered => registered.EPOLLOUT) = false := by
    rw [ExtTreeMap.getElem?_insert_self]
    rfl
  simp only [left, writable, hnone] at hremaining
  cases hwritable : self.writable fd with
  | true =>
    refine .inl (SameWork.rank_lt ⟨rfl, rfl, rfl⟩ ?_)
    unfold writable at hwritable
    rw [hwritable] at hremaining
    simp only [Bool.toNat_true, Bool.toNat_false] at hremaining
    omega
  | false =>
    refine .inr ⟨⟨⟨rfl, rfl, rfl⟩, rfl, self.mem_insert_iff hconn _, ?_, ?_⟩, rfl⟩
    · intro other
      by_cases hother : other = fd
      · subst hother
        exact hnone.trans hwritable.symm
      · exact writable_congr (hothers other hother)
    · simp only [Bool.toNat_false] at hremaining
      omega

/-- What `HandleWrite` leads to while the server is shutting down: the connection is
closed, or it has less to do if a write went through or there was nothing to write. -/
theorem TcpServer.Winding.handle_write (h : self.Winding) (hconn : self.connections[fd]? = some conn)
    (writes : List SocketWrite) (ok : Bool) :
    (self.handle_write fd writes ok).server.Winding ∧
      ((self.handle_write fd writes ok).server.rank < self.rank ∨
        self.Calm (self.handle_write fd writes ok).server ∧
          (self.writable fd = true → ∀ write rest, writes = write :: rest → ¬ write.Proceeds)) := by
  obtain ⟨hsame, hsent⟩ := write_loop_eq writes conn
  have hlength := congrArg List.length hsent
  rw [List.length_append, NetworkBuffer.readable_length, NetworkBuffer.readable_length] at hlength
  have hclosing : (write_loop writes conn).conn.closing = true := by
    rw [hsame]
    exact h.closing fd conn hconn
  have hproceeds : ∀ write rest, writes = write :: rest → write.Proceeds → conn.output_buffer.readable_bytes ≠ 0 →
      (write_loop writes conn).failed = true ∨
        (write_loop writes conn).conn.output_buffer.readable_bytes < conn.output_buffer.readable_bytes := by
    rintro write rest rfl hwrite
    exact write_loop_proceeds hwrite rest
  unfold TcpServer.handle_write
  rw [hconn]
  dsimp only [Outcome.andThen]
  generalize write_loop writes conn = result at *
  have hset := @h.set self fd _ hclosing self.epoll
  have hget : (self.connections.insert fd result.conn)[fd]? = some result.conn := ExtTreeMap.getElem?_insert_self
  have hremaining := @remaining_set self { self with connections := self.connections.insert fd result.conn } fd conn _
    hconn rfl fun _ _ => rfl
  simp only [left, writable] at hremaining
  have hwritten : self.Calm { self with connections := self.connections.insert fd result.conn } :=
    ⟨⟨rfl, rfl, rfl⟩, rfl, self.mem_insert_iff hconn _, fun _ => rfl, by omega⟩
  have hclose : ∀ reason, (TcpServer.close_connection
      { self with connections := self.connections.insert fd result.conn } fd reason).server.rank < self.rank :=
    fun reason => (close_connection_rank hget reason).trans_le hwritten.rank_le
  split
  · exact ⟨hset.close_connection _, .inl (hclose _)⟩
  rename_i hok
  split
  · rename_i hleft
    refine ⟨hset, ?_⟩
    by_cases hless : result.conn.output_buffer.readable_bytes < conn.output_buffer.readable_bytes
    · exact .inl (hwritten.work.rank_lt (by omega))
    · refine .inr ⟨hwritten, ?_⟩
      intro _ write rest hwrites hwrite
      rcases hproceeds write rest hwrites hwrite (by omega) with hfailed | hlt
      · exact hok hfailed
      · exact hless hlt
  split
  · exact ⟨hset.close_connection _, .inl (hclose _)⟩
  unfold TcpServer.update_epoll_event
  split
  · obtain ⟨hwinding, hcases⟩ := h.unregister hconn hclosing (by omega) rfl
    refine ⟨hwinding, hcases.imp_right fun ⟨hcalm, hnone⟩ => ⟨hcalm, fun hwritable => ?_⟩⟩
    rw [hnone] at hwritable
    cases hwritable
  · exact ⟨hset.close_connection _, .inl (hclose _)⟩

/-- Where an event leads a server that is shutting down: closer to its end, or to a
state that is left as it was, with nothing performed that could go on. -/
def TcpServer.WindsTo (self : TcpServer) (event : ServerEvent) (next : TcpServer) : Prop :=
  next.Winding ∧ (next.rank < self.rank ∨
    self.Calm next ∧ ∀ activity, self.Enabled activity → ¬ self.Performs activity event)

theorem TcpServer.Winding.unchanged {event : ServerEvent} (h : self.Winding) (hnext : next = self)
    (hnone : ∀ activity, self.Enabled activity → ¬ self.Performs activity event) : self.WindsTo event next := by
  subst hnext
  exact ⟨h, .inr ⟨.refl next, hnone⟩⟩

theorem TcpServer.Winding.handle_connection_event (h : self.Winding) (hfinished : self.Finished) (events : Ready)
    (read : SocketRead) (writes : List SocketWrite) (accepts : Nat → Bool) (read_ok write_ok : Bool) :
    self.WindsTo (.connection fd events read writes accepts read_ok write_ok)
      (self.handle_connection_event fd events read writes accepts read_ok write_ok).server := by
  have hunchanged : ∀ outcome : Outcome, outcome.server = self → (fd ∈ self.connections → self.writable fd = true →
      ¬ self.Performs (.write fd) (.connection fd events read writes accepts read_ok write_ok)) →
      self.WindsTo (.connection fd events read writes accepts read_ok write_ok) outcome.server := by
    intro outcome hserver hnone
    refine h.unchanged hserver ?_
    intro activity henabled hperforms
    cases activity with
    | write fd' =>
      obtain ⟨rfl, hevents⟩ := hperforms
      exact hnone henabled.1 henabled.2 ⟨rfl, hevents⟩
    | _ => exact hperforms
  have hread : (if events.EPOLLIN then self.handle_read fd read accepts read_ok else ⟨self, []⟩) = ⟨self, []⟩ := by
    split
    · exact h.handle_read_eq read accepts read_ok
    · rfl
  unfold TcpServer.handle_connection_event
  cases hconn : self.connections[fd]? with
  | none =>
    have habsent : fd ∉ self.connections := by simp [ExtTreeMap.mem_iff_isSome_getElem?, hconn]
    rw [hread]
    have hclose : self.close_connection fd .event_error = ⟨self, []⟩ := by
      unfold TcpServer.close_connection
      rw [hconn]
    have hwrite : self.handle_write fd writes write_ok = ⟨self, []⟩ := by
      unfold TcpServer.handle_write
      rw [hconn]
    refine hunchanged _ ?_ fun hmem => absurd hmem habsent
    simp only [hclose, hwrite, Outcome.andThen]
    split
    · rfl
    · split
      · rfl
      · split <;> rfl
  | some conn =>
    rw [hread, if_neg (by simp [hfinished.running hconn])]
    split
    · exact ⟨h.close_connection _, .inl (close_connection_rank hconn _)⟩
    rename_i hevents
    rw [Bool.or_eq_true, not_or] at hevents
    dsimp only [Outcome.andThen]
    split
    · obtain ⟨hwinding, hcases⟩ := h.handle_write hconn writes write_ok
      refine ⟨hwinding, hcases.imp_right ?_⟩
      rintro ⟨hcalm, hnone⟩
      refine ⟨hcalm, fun activity henabled hperforms => ?_⟩
      cases activity with
      | write fd' =>
        obtain ⟨rfl, herr | hhup | ⟨-, write, rest, hwrites, hwrite⟩⟩ := hperforms
        · exact hevents.1 herr
        · exact hevents.2 hhup
        · exact hnone henabled.2 write rest hwrites hwrite
      | _ => exact hperforms
    · rename_i hout
      refine hunchanged ⟨self, []⟩ rfl ?_
      rintro - - ⟨-, herr | hhup | ⟨hset, -⟩⟩
      · exact hevents.1 herr
      · exact hevents.2 hhup
      · exact hout hset

theorem TcpServer.Winding.completions (h : self.Winding) (ok : Nat → Bool) :
    self.WindsTo (.completions ok) (self.step (.completions ok)).server := by
  unfold TcpServer.step TcpServer.handle_worker_completions
  dsimp only
  split
  · rename_i hstopped
    refine h.unchanged rfl ?_
    intro activity henabled hperforms
    cases activity with
    | complete => simp [henabled.1] at hstopped
    | _ => exact hperforms
  cases hqueue : self.completed_queue with
  | nil =>
    refine h.unchanged ?_ ?_
    · refine Eq.trans ?_ h.maybe_finish_shutdown_eq
      change TcpServer.maybe_finish_shutdown { self with completed_queue := [] } = _
      rw [← hqueue]
    · intro activity henabled hperforms
      cases activity with
      | complete => exact henabled.2 hqueue
      | _ => exact hperforms
  | cons task rest =>
    rw [← hqueue]
    generalize (self.completed_queue.mapIdx fun index task => (task, ok index)) = tasks
    have htaken : TcpServer.Winding { self with completed_queue := [] } :=
      ⟨h.stopping, h.listening, h.closing, h.finishes⟩
    obtain ⟨htasks, hbusy, hnone⟩ := complete_loop_sameWork tasks { self with completed_queue := [] }
    refine ⟨htaken.complete_loop tasks, .inl ?_⟩
    unfold TcpServer.rank
    rw [htasks, hbusy, hnone, hqueue]
    refine Prod.Lex.toLex_lt_toLex.mpr (.inr ⟨rfl, Prod.Lex.toLex_lt_toLex.mpr (.inl ?_)⟩)
    exact Nat.succ_pos _

theorem TcpServer.Winding.worker_start (h : self.Winding) :
    self.WindsTo .worker_start (self.step .worker_start).server := by
  unfold TcpServer.step TcpServer.worker_start
  cases htasks : self.tasks with
  | nil =>
    refine h.unchanged rfl ?_
    intro activity henabled hperforms
    cases activity with
    | start => exact henabled.1 htasks
    | _ => exact hperforms
  | cons task rest =>
    dsimp only
    split
    · refine ⟨⟨h.stopping, h.listening, h.closing, h.finishes⟩, .inl (Prod.Lex.toLex_lt_toLex.mpr (.inl ?_))⟩
      rw [htasks]
      simp only [List.length_cons, List.length_append, List.length_nil]
      omega
    · rename_i hfull
      refine h.unchanged rfl ?_
      intro activity henabled hperforms
      cases activity with
      | start => exact hfull henabled.2
      | _ => exact hperforms

theorem TcpServer.Winding.worker_finish (h : self.Winding) (index : Nat) (response : Bytes) :
    self.WindsTo (.worker_finish index response) (self.step (.worker_finish index response)).server := by
  unfold TcpServer.step TcpServer.worker_finish
  dsimp only
  split
  · rename_i hnone
    refine h.unchanged rfl ?_
    intro activity _ hperforms
    cases activity with
    | finish => exact absurd hperforms (Nat.not_lt.mpr (List.getElem?_eq_none_iff.mp hnone))
    | _ => exact hperforms
  · rename_i task htask
    refine ⟨⟨h.stopping, h.listening, h.closing, h.finishes⟩, .inl (Prod.Lex.toLex_lt_toLex.mpr (.inl ?_))⟩
    obtain ⟨hlt, -⟩ := List.getElem?_eq_some_iff.mp htask
    simp only [List.length_eraseIdx, if_pos hlt]
    omega

/-- A step of a server that is shutting down. If it brings nothing forward, then it
performs no activity that could go on. -/
theorem TcpServer.Winding.step (h : self.Winding) (hfinished : self.Finished) (event : ServerEvent) :
    self.WindsTo event (self.step event).server := by
  cases event with
  | accept accepted =>
    refine h.unchanged ?_ ?_
    · unfold TcpServer.step TcpServer.handle_accept
      simp [h.listening]
    · intro activity _ hperforms
      cases activity <;> exact hperforms
  | connection fd events read writes accepts read_ok write_ok =>
    exact h.handle_connection_event hfinished events read writes accepts read_ok write_ok
  | completions ok => exact h.completions ok
  | stop ok =>
    refine h.unchanged ?_ ?_
    · unfold TcpServer.step TcpServer.stop
      simp [h.stopping]
    · intro activity _ hperforms
      cases activity <;> exact hperforms
  | worker_start => exact h.worker_start
  | worker_finish index response => exact h.worker_finish index response

theorem TcpServer.Winding.down (h : self.Winding) (hfinished : self.Finished) {activity : Activity}
    {event : ServerEvent} (henabled : self.Enabled activity) (hperforms : self.Performs activity event) :
    (self.step event).server.rank < self.rank :=
  (h.step hfinished event).2.resolve_right fun hcalm => hcalm.2 activity henabled hperforms

/-- While the server runs, something can go on. -/
theorem TcpServer.Winding.some_enabled {journals : Journals} (h : self.Winding) (hserving : self.Serving [] journals)
    (hregistered : self.Registered []) (hrunning : self.running = true) :
    ∃ activity, self.Enabled activity := by
  have hnonempty : ∃ fd, fd ∈ self.connections := by
    by_contra hnone
    rw [not_exists] at hnone
    rw [h.finishes (ExtTreeMap.eq_empty_iff_forall_not_mem.mpr hnone)] at hrunning
    cases hrunning
  obtain ⟨fd, hmem⟩ := hnonempty
  obtain ⟨conn, hconn⟩ := Option.isSome_iff_exists.mp (ExtTreeMap.mem_iff_isSome_getElem?.mp hmem)
  obtain ⟨registered, hepoll, hnext, houtput, hdrained⟩ := hregistered fd conn hconn List.not_mem_nil
  have htracked := hserving.clients.tracked fd conn hconn
  cases hwritable : registered.EPOLLOUT with
  | true => exact ⟨.write fd, hmem, by simp [writable, hepoll, hwritable]⟩
  | false =>
    -- A response is missing, and whoever has the request can go on with it.
    have hlt : conn.next_write_seq < conn.next_request_seq := by
      by_contra hnot
      have hseq : conn.next_write_seq = conn.next_request_seq := Nat.le_antisymm htracked.write_le (by omega)
      have hempty : conn.pending_responses = ∅ := by
        rw [ExtTreeMap.eq_empty_iff_forall_not_mem]
        intro seq hpending
        obtain ⟨response, hresponse⟩ := Option.isSome_iff_exists.mp (ExtTreeMap.mem_iff_isSome_getElem?.mp hpending)
        obtain ⟨hle, hlt, -⟩ := htracked.pending seq response hresponse
        omega
      have hnone : conn.output_buffer.readable_bytes = 0 := by
        by_contra hsome
        exact (houtput hsome).elim (by simp [hwritable]) hnot
      have hdone : conn.drained = true := by simp [Connection.drained, hnone, hempty, hseq]
      rw [hdrained (h.closing fd conn hconn) hdone] at hwritable
      cases hwritable
    have hcovered := htracked.covered _ (Nat.le_refl _) hlt
    rw [hnext] at hcovered
    have hticket := hcovered.resolve_left (by simp)
    by_cases hqueue : self.completed_queue = []
    · by_cases hbusy : self.busy = []
      · refine ⟨.start, ?_, by simp [hbusy, kWorkers]⟩
        intro htasks
        simp [tickets, htasks, hbusy, hqueue] at hticket
      · exact ⟨.finish, hbusy⟩
    · exact ⟨.complete, hrunning, hqueue⟩

/-- There are events in which an activity goes on. -/
theorem TcpServer.Enabled.able {activity : Activity} (h : self.Enabled activity) :
    ∃ event, self.Performs activity event := by
  cases activity with
  | start => exact ⟨.worker_start, trivial⟩
  | finish => exact ⟨.worker_finish 0 [], List.length_pos_iff.mpr h⟩
  | complete => exact ⟨.completions fun _ => true, trivial⟩
  | write fd =>
    exact ⟨.connection fd ⟨false, false, false, true⟩ .unavailable [.wrote 1] (fun _ => true) true true, rfl,
      .inr (.inr ⟨rfl, _, _, rfl, Nat.one_pos⟩)⟩

/-- What `Stop` has done before it has closed the connections that are drained. -/
structure TcpServer.Stopping (server : TcpServer) (fds : List Nat) : Prop where
  stopping : server.stopping = true
  listening : server.listening = false
  closing : ∀ (fd : Nat) (conn : Connection), server.connections[fd]? = some conn → fd ∉ fds → conn.closing = true

theorem TcpServer.Stopping.maybe_finish_shutdown (h : self.Stopping []) : self.maybe_finish_shutdown.Winding := by
  have hclosing : ∀ (fd : Nat) (conn : Connection), self.connections[fd]? = some conn → conn.closing = true :=
    fun fd conn hconn => h.closing fd conn hconn List.not_mem_nil
  unfold TcpServer.maybe_finish_shutdown
  split
  · exact ⟨h.stopping, h.listening, hclosing, fun _ => rfl⟩
  · rename_i hnot
    refine ⟨h.stopping, h.listening, hclosing, ?_⟩
    intro hempty
    have hdone : self.connections.isEmpty = true := ExtTreeMap.isEmpty_iff.mpr hempty
    simp [h.stopping, h.listening, hdone] at hnot

theorem TcpServer.Stopping.close_loop (to_close : List (Nat × CloseReason)) (h : self.Stopping []) :
    (TcpServer.close_loop to_close self).server.Winding := by
  induction to_close generalizing self with
  | nil => exact h.maybe_finish_shutdown
  | cons entry rest ih =>
    refine @ih (self.close_connection entry.1 entry.2).server ?_
    unfold TcpServer.close_connection
    cases hconn : self.connections[entry.1]? with
    | none => exact h
    | some conn =>
      have herased : TcpServer.Stopping { self with
          epoll := self.epoll.erase entry.1, connections := self.connections.erase entry.1 } [] := by
        refine ⟨h.stopping, h.listening, ?_⟩
        intro other found hfound hskip
        rw [ExtTreeMap.getElem?_erase] at hfound
        split at hfound
        · cases hfound
        · exact h.closing other found hfound hskip
      obtain ⟨hstopping, hlistening, hclosing, -⟩ := herased.maybe_finish_shutdown
      exact ⟨hstopping, hlistening, fun other found hfound _ => hclosing other found hfound⟩

theorem TcpServer.Stopping.stop_loop (ok : Nat → Bool) (fds : List Nat) {to_close : List (Nat × CloseReason)}
    (h : self.Stopping fds) : (TcpServer.stop_loop ok fds to_close self).server.Winding := by
  induction fds generalizing self to_close with
  | nil => exact h.close_loop to_close
  | cons fd fds ih =>
    refine @ih (self.stop_one fd (ok fd)).1.server _ ?_
    unfold TcpServer.stop_one
    cases hconn : self.connections[fd]? with
    | none =>
      refine ⟨h.stopping, h.listening, ?_⟩
      intro other found hfound hskip
      refine h.closing other found hfound ?_
      rw [List.mem_cons, not_or]
      refine ⟨?_, hskip⟩
      rintro rfl
      cases hconn.symm.trans hfound
    | some conn =>
      have hclosing : ∀ (other : Nat) (found : Connection),
          (self.connections.insert fd
            { conn with closing := true, input_buffer := conn.input_buffer.retrieve_all })[other]? = some found →
          other ∉ fds → found.closing = true := by
        intro other found hfound hskip
        rw [ExtTreeMap.getElem?_insert] at hfound
        split at hfound
        · cases hfound
          rfl
        · rename_i hne
          refine h.closing other found hfound ?_
          rw [List.mem_cons, not_or]
          exact ⟨fun heq => hne (by simp [heq]), hskip⟩
      dsimp only
      split
      · exact ⟨h.stopping, h.listening, hclosing⟩
      · split
        · exact ⟨h.stopping, h.listening, hclosing⟩
        · exact ⟨h.stopping, h.listening, hclosing⟩

theorem TcpServer.stop_winding (hrunning : ¬ (!self.running || self.stopping) = true) (ok : Nat → Bool) :
    (self.stop ok).server.Winding := by
  unfold TcpServer.stop
  rw [if_neg hrunning]
  refine Stopping.stop_loop ok _ ⟨rfl, rfl, ?_⟩
  intro fd conn hconn habsent
  refine absurd ?_ habsent
  exact ExtTreeMap.mem_keys.mpr (ExtTreeMap.mem_iff_isSome_getElem?.mpr (by rw [hconn]; rfl))

@[simp] theorem TcpServer.maybe_finish_shutdown_stopping (self : TcpServer) :
    self.maybe_finish_shutdown.stopping = self.stopping := by
  unfold TcpServer.maybe_finish_shutdown
  split <;> rfl

@[simp] theorem TcpServer.close_connection_stopping (self : TcpServer) (fd : Nat) (reason : CloseReason) :
    (self.close_connection fd reason).server.stopping = self.stopping := by
  unfold TcpServer.close_connection
  split
  · rfl
  · exact maybe_finish_shutdown_stopping _

@[simp] theorem TcpServer.update_epoll_event_stopping (self : TcpServer) (fd : Nat) (events : Interest) (ok : Bool) :
    (self.update_epoll_event fd events ok).server.stopping = self.stopping := by
  unfold TcpServer.update_epoll_event
  split
  · rfl
  · exact self.close_connection_stopping fd .epoll_failed

theorem TcpServer.handle_read_stopping (self : TcpServer) (fd : Nat) (read : SocketRead) (accepts : Nat → Bool)
    (ok : Bool) : (self.handle_read fd read accepts ok).server.stopping = self.stopping := by
  unfold TcpServer.handle_read
  cases self.connections[fd]? with
  | none => rfl
  | some conn =>
    dsimp only
    split
    · rfl
    cases read with
    | unavailable => rfl
    | failed => exact self.close_connection_stopping fd .read_failed
    | data bytes =>
      dsimp only
      split
      · exact self.close_connection_stopping fd .end_of_stream
      split
      · exact close_connection_stopping _ _ _
      split
      · exact update_epoll_event_stopping _ _ _ _
      · rfl

theorem TcpServer.handle_write_stopping (self : TcpServer) (fd : Nat) (writes : List SocketWrite) (ok : Bool) :
    (self.handle_write fd writes ok).server.stopping = self.stopping := by
  unfold TcpServer.handle_write
  cases self.connections[fd]? with
  | none => rfl
  | some conn =>
    dsimp only [Outcome.andThen]
    split
    · exact close_connection_stopping _ _ _
    split
    · rfl
    split
    · split
      · exact close_connection_stopping _ _ _
      · exact update_epoll_event_stopping _ _ _ _
    · exact update_epoll_event_stopping _ _ _ _

theorem TcpServer.complete_loop_stopping (tasks : List (CompletedTask × Bool)) (self : TcpServer) :
    (complete_loop tasks self).server.stopping = self.stopping := by
  induction tasks generalizing self with
  | nil => exact self.maybe_finish_shutdown_stopping
  | cons task tasks ih =>
    refine (ih (self.complete_one task.1 task.2).server).trans ?_
    unfold TcpServer.complete_one
    cases self.connections[task.1.fd]? with
    | none => rfl
    | some conn =>
      dsimp only
      split
      · rfl
      split
      · exact update_epoll_event_stopping _ _ _ _
      · rfl

theorem TcpServer.accept_loop_stopping (accepted : List Accepted) (self : TcpServer) :
    (accept_loop accepted self).server.stopping = self.stopping := by
  induction accepted generalizing self with
  | nil => rfl
  | cons one rest ih =>
    refine (ih (self.accept_one one).server).trans ?_
    unfold TcpServer.accept_one
    dsimp only
    split
    · rfl
    split
    · rfl
    · split <;> rfl

/-- A server that is stopping has been stopped in full. -/
def TcpServer.Stops (self : TcpServer) : Prop := self.stopping = true → self.Winding

theorem TcpServer.Stops.step (h : self.Stops) (hfinished : self.Finished) (event : ServerEvent) :
    (self.step event).server.Stops := by
  intro hstops
  by_cases hstopping : self.stopping = true
  · exact ((h hstopping).step hfinished event).1
  have hkeeps : ∀ server : TcpServer, server.stopping = self.stopping → server.stopping = true → server.Winding := by
    intro server hsame hset
    exact absurd (hsame.symm.trans hset) hstopping
  cases event with
  | accept accepted =>
    refine hkeeps _ ?_ hstops
    unfold TcpServer.step TcpServer.handle_accept
    dsimp only
    split
    · exact accept_loop_stopping accepted self
    · rfl
  | connection fd events read writes accepts read_ok write_ok =>
    refine hkeeps _ ?_ hstops
    unfold TcpServer.step TcpServer.handle_connection_event
    dsimp only
    split
    · rfl
    split
    · exact self.close_connection_stopping fd _
    dsimp only [Outcome.andThen]
    have hread : (if events.EPOLLIN then self.handle_read fd read accepts read_ok
        else ⟨self, []⟩).server.stopping = self.stopping := by
      split
      · exact self.handle_read_stopping fd read accepts read_ok
      · rfl
    split
    · exact (handle_write_stopping _ _ _ _).trans hread
    · exact hread
  | completions ok =>
    refine hkeeps _ ?_ hstops
    unfold TcpServer.step TcpServer.handle_worker_completions
    dsimp only
    split
    · rfl
    · exact complete_loop_stopping _ _
  | stop ok =>
    by_cases hrefused : (!self.running || self.stopping) = true
    · refine hkeeps _ ?_ hstops
      unfold TcpServer.step TcpServer.stop
      dsimp only
      rw [if_pos hrefused]
    · exact TcpServer.stop_winding hrefused ok
  | worker_start =>
    refine hkeeps _ ?_ hstops
    unfold TcpServer.step TcpServer.worker_start
    dsimp only
    split
    · rfl
    · split <;> rfl
  | worker_finish index response =>
    refine hkeeps _ ?_ hstops
    unfold TcpServer.step TcpServer.worker_finish
    dsimp only
    split <;> rfl

theorem TcpServer.run_server (events more : List ServerEvent) :
    (TcpServer.run (events ++ more)).server = more.foldl TcpServer.advance (TcpServer.run events).server := by
  have hmore : ∀ outcome : Outcome,
      (more.foldl (fun outcome event => outcome.andThen (·.step event)) outcome).server =
        more.foldl TcpServer.advance outcome.server := by
    induction more with
    | nil => exact fun _ => rfl
    | cons event more ih => exact fun outcome => ih (outcome.andThen (·.step event))
  unfold TcpServer.run
  rw [List.foldl_append]
  exact hmore _

theorem TcpServer.run_stops (events : List ServerEvent) : (TcpServer.run events).server.Stops := by
  induction events using List.reverseRecOn with
  | nil => exact fun hstopping => absurd hstopping (by simp [TcpServer.run, TcpServer.start])
  | append_singleton events event ih =>
    rw [TcpServer.run_server]
    exact ih.step (TcpServer.run_finished events) event

/-- Once `Stop` has been called, the server is stopping. -/
theorem TcpServer.run_stopping {events : List ServerEvent} {ok : Nat → Bool} (hstop : .stop ok ∈ events) :
    (TcpServer.run events).server.stopping = true := by
  induction events using List.reverseRecOn with
  | nil => cases hstop
  | append_singleton events event ih =>
    rw [TcpServer.run_server]
    have hfinished := TcpServer.run_finished events
    by_cases hstopping : (TcpServer.run events).server.stopping = true
    · exact (((TcpServer.run_stops events) hstopping).step hfinished event).1.stopping
    rcases List.mem_append.mp hstop with hbefore | hlast
    · exact absurd (ih hbefore) hstopping
    · cases List.mem_singleton.mp hlast
      have hrunning : (TcpServer.run events).server.running = true := by
        by_contra hnot
        exact hstopping (hfinished (Bool.eq_false_iff.mpr hnot)).1
      exact (TcpServer.stop_winding (by simp [hrunning, hstopping]) ok).stopping

/-- A server in the midst of its shutdown. -/
structure TcpServer.ShuttingDown (server : TcpServer) : Prop where
  winding : server.Winding
  serving : ∃ journals, server.Serving [] journals
  registered : server.Registered []
  finished : server.Finished

theorem TcpServer.ShuttingDown.step (h : self.ShuttingDown) (event : ServerEvent) :
    (self.advance event).ShuttingDown := by
  obtain ⟨journals, hserving⟩ := h.serving
  exact ⟨(h.winding.step h.finished event).1, ⟨_, (hserving.step event).serving⟩, h.registered.step hserving event,
    h.finished.step event⟩

theorem TcpServer.run_shuttingDown {events : List ServerEvent} {ok : Nat → Bool} (hstop : .stop ok ∈ events) :
    (TcpServer.run events).server.ShuttingDown :=
  ⟨TcpServer.run_stops events (TcpServer.run_stopping hstop), ⟨_, (TcpServer.run_keeps events).serving⟩,
    TcpServer.run_registered events, TcpServer.run_finished events⟩

/-- A shutdown is over when the server does not run any more. -/
theorem TcpServer.settles : Settles TcpServer.advance TcpServer.ShuttingDown (fun server => server.running = false)
    (fun activity server => server.Enabled activity) (fun activity server event => server.Performs activity event)
    TcpServer.rank where
  keeps hserver := hserver.step _
  some_enabled hserver hrunning := by
    obtain ⟨journals, hserving⟩ := hserver.serving
    exact hserver.winding.some_enabled hserving hserver.registered (by simpa using hrunning)
  able _ henabled := henabled.able
  down hserver henabled hperforms := hserver.winding.down hserver.finished henabled hperforms
  calm event hserver :=
    (hserver.winding.step hserver.finished event).2.imp_right fun hcalm =>
      ⟨hcalm.1.rank_le, fun _ henabled => hcalm.1.enabled henabled⟩

/-- A server that does not run any more does not run again. -/
theorem TcpServer.advance_running (hrunning : self.running = false) (event : ServerEvent) :
    (self.advance event).running = false := by
  unfold advance step
  cases event with
  | accept accepted => simp [handle_accept, hrunning]
  | connection fd events read writes accepts read_ok write_ok => simp [handle_connection_event, hrunning]
  | completions ok => simp [handle_worker_completions, hrunning]
  | stop ok => simp [stop, hrunning]
  | worker_start =>
    unfold worker_start
    dsimp only
    split
    · exact hrunning
    · split <;> exact hrunning
  | worker_finish index response =>
    unfold worker_finish
    dsimp only
    split <;> exact hrunning

/-- After a call of `Stop` the server comes to its end, with all connections closed, if
the workers, the event loop and the sockets go on: whatever happens meanwhile, in every
run that is fair to them. And wherever the server is in its shutdown, there are events
that lead to the end. -/
theorem TcpServer.run_stop_completes {events : List ServerEvent} {ok : Nat → Bool} (hstop : .stop ok ∈ events) :
    (∀ future : Nat → ServerEvent,
      WeaklyFair (fun activity server => server.Enabled activity)
        (fun activity server event => server.Performs activity event)
        (stateAt TcpServer.advance (TcpServer.run events).server future) future →
      ∃ position, ∀ later, position ≤ later →
        (stateAt TcpServer.advance (TcpServer.run events).server future later).running = false ∧
          (stateAt TcpServer.advance (TcpServer.run events).server future later).connections = ∅) ∧
    ∃ more, (TcpServer.run (events ++ more)).server.running = false ∧
      (TcpServer.run (events ++ more)).server.connections = ∅ := by
  have hshutting := TcpServer.run_shuttingDown hstop
  constructor
  · intro future hfair
    obtain ⟨position, hposition⟩ := TcpServer.settles.eventually hshutting hfair
    refine ⟨position, fun later hle => ?_⟩
    have hrunning : (stateAt TcpServer.advance (TcpServer.run events).server future later).running = false := by
      induction later, hle using Nat.le_induction with
      | base => exact hposition
      | succ later _ ih => exact TcpServer.advance_running ih (future later)
    exact ⟨hrunning, ((TcpServer.settles.invariant_stateAt hshutting later).finished hrunning).2⟩
  · obtain ⟨more, hmore⟩ := TcpServer.settles.exists_schedule hshutting
    rw [← TcpServer.run_server] at hmore
    exact ⟨more, hmore, (TcpServer.run_finished (events ++ more) hmore).2⟩

/-- A server that is stopped while a request waits for a worker. -/
def stoppedEarly : List ServerEvent :=
  [.accept [⟨3, true, true⟩],
    .connection 3 ⟨false, false, true, false⟩ (.data (arrayBytes [ascii "GET", ascii "k"])) [] (fun _ => true) true true,
    .stop fun _ => true]

/-- The request is executed, its response is sent, and nothing else happens. -/
def lastReply : Nat → ServerEvent
  | 1 => .worker_finish 0 (ascii "$-1\r\n")
  | 2 => .completions fun _ => true
  | 3 => .connection 3 ⟨false, false, false, true⟩ .unavailable [.wrote 5] (fun _ => true) true true
  | _ => .worker_start

theorem TcpServer.run_stop_completes_early : ∃ position, ∀ later, position ≤ later →
    (stateAt TcpServer.advance (TcpServer.run stoppedEarly).server lastReply later).running = false ∧
      (stateAt TcpServer.advance (TcpServer.run stoppedEarly).server lastReply later).connections = ∅ := by
  have hstop : ServerEvent.stop (fun _ => true) ∈ stoppedEarly := by simp [stoppedEarly]
  have hidle : ∀ position, 4 ≤ position →
      (stateAt TcpServer.advance (TcpServer.run stoppedEarly).server lastReply position).tasks.isEmpty = true ∧
        (stateAt TcpServer.advance (TcpServer.run stoppedEarly).server lastReply position).busy.isEmpty = true ∧
        (stateAt TcpServer.advance (TcpServer.run stoppedEarly).server lastReply position).running = false := by
    intro position hle
    induction position, hle using Nat.le_induction with
    | base => decide +kernel
    | succ position hle ih =>
      obtain ⟨htasks, hbusy, hrunning⟩ := ih
      have hevent : lastReply position = .worker_start := by
        obtain ⟨more, rfl⟩ := Nat.exists_eq_add_of_le' hle
        rfl
      unfold stateAt
      generalize stateAt TcpServer.advance (TcpServer.run stoppedEarly).server lastReply position = server at *
      have hsame : server.advance (lastReply position) = server := by
        rw [hevent, TcpServer.advance, TcpServer.step, TcpServer.worker_start, List.isEmpty_iff.mp htasks]
      rw [hsame]
      exact ⟨htasks, hbusy, hrunning⟩
  refine (TcpServer.run_stop_completes hstop).1 lastReply ?_
  intro activity start henabled
  have hlast := henabled (start + 4) (by omega)
  obtain ⟨htasks, hbusy, hrunning⟩ := hidle (start + 4) (by omega)
  have hshutting : TcpServer.ShuttingDown
      (stateAt TcpServer.advance (TcpServer.run stoppedEarly).server lastReply (start + 4)) :=
    TcpServer.settles.invariant_stateAt (TcpServer.run_shuttingDown hstop) (start + 4)
  cases activity with
  | start => exact absurd (List.isEmpty_iff.mp htasks) hlast.1
  | finish => exact absurd (List.isEmpty_iff.mp hbusy) hlast
  | complete => cases hrunning.symm.trans hlast.1
  | write fd =>
    obtain ⟨hmem, -⟩ := hlast
    rw [(hshutting.finished hrunning).2] at hmem
    exact absurd hmem ExtTreeMap.not_mem_empty

end

end NovaKV
