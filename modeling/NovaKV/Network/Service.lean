import NovaKV.Network.ResponseStream
import NovaKV.Network.Sequential

open Std
open NovaKV.Lib

namespace NovaKV

/-- What a worker still has to do for its task. Between the two parts of a `Put` it has
left the block under `state_mu_`. -/
structure Job where
  calls : DBCalls NetworkBuffer
  in_put : Bool

namespace Job

/-- What a worker does with its task: the response goes to a new buffer. -/
def of (task : WorkerTask) : Job := ⟨(CommandExecutor.mk true).execute task.command (.new 1024), false⟩

/-- Whether the response is there. -/
def finished (self : Job) : Bool :=
  match self.calls with
  | .done _ => true
  | _ => false

end Job

/-- The server with an open database. `jobs` are those of the workers that are busy, in
their order. -/
structure Service where
  server : TcpServer
  system : System
  jobs : List Job

/-- What happens in a run: what the server does, and the moments at which requests read
or write the database, or have nothing to do with it. -/
inductive Occurrence where
  | server (observation : Observation)
  | effect (task : WorkerTask)

/-- The steps of the event loop, of the background threads of the database, and of the
workers: one takes a task, reads, gets through the two parts of a `Put`, or finishes. -/
inductive ServiceEvent where
  | loop (event : ServerEvent)
  | background (act : Act)
  | start
  | read (index : Nat)
  | put_lock (index : Nat)
  | put_write (index : Nat)
  | finish (index : Nat)

/-- A step of the event loop. -/
def ServerEvent.is_loop : ServerEvent → Bool
  | .worker_start => false
  | .worker_finish _ _ => false
  | _ => true

namespace Service

/-- One step, if it can be made, with what happens in it. A command that makes no call
takes effect when it is taken. A read holds `state_mu_` all the time and looks into the
memtable that is written once, so that it is one step. -/
def step (self : Service) : ServiceEvent → Option (Service × List Occurrence)
  | .loop event =>
    if event.is_loop then
      some ({ self with server := (self.server.step event).server }, (self.server.step event).log.map .server)
    else none
  | .background act =>
    if act.is_background then (self.system.step act).map fun system => ({ self with system := system }, [])
    else none
  | .start =>
    match self.server.tasks with
    | [] => none
    | task :: _ =>
      if self.server.busy.length < TcpServer.kWorkers then
        some ({ self with
          server := (self.server.step .worker_start).server
          jobs := self.jobs ++ [.of task] }, if (Job.of task).finished then [.effect task] else [])
      else none
  | .read index =>
    match self.server.busy[index]?, self.jobs[index]? with
    | some task, some ⟨.get key next, _⟩ =>
      some ({ self with jobs := self.jobs.set index ⟨next (self.system.db.get key), false⟩ }, [.effect task])
    | some task, some ⟨.new_iterator next, _⟩ =>
      some ({ self with jobs := self.jobs.set index ⟨next self.system.db.new_iterator, false⟩ }, [.effect task])
    | _, _ => none
  | .put_lock index =>
    match self.jobs[index]? with
    | some ⟨.put key record next, false⟩ =>
      (self.system.step (.put_lock key record)).map fun system =>
        ({ self with system := system, jobs := self.jobs.set index ⟨.put key record next, true⟩ }, [])
    | _ => none
  | .put_write index =>
    match self.server.busy[index]?, self.jobs[index]? with
    | some task, some ⟨.put _ _ next, true⟩ =>
      (self.system.step .put_write).map fun system =>
        ({ self with system := system, jobs := self.jobs.set index ⟨next, false⟩ }, [.effect task])
    | _, _ => none
  | .finish index =>
    match self.jobs[index]? with
    | some ⟨.done buffer, _⟩ =>
      let outcome := self.server.step (.worker_finish index buffer.readable)
      some ({ self with server := outcome.server, jobs := self.jobs.eraseIdx index }, outcome.log.map .server)
    | _ => none

/-- A run of steps, each of which can be made when its turn comes. -/
def run (self : Service) : List ServiceEvent → Option (Service × List Occurrence)
  | [] => some (self, [])
  | event :: events =>
    (self.step event).bind fun (next, log) => (next.run events).map fun (last, later) => (last, log ++ later)

end Service

/-- What the server does in a log. -/
def observations (log : List Occurrence) : List Observation :=
  log.filterMap fun occurrence =>
    match occurrence with
    | .server observation => some observation
    | .effect _ => none

/-- The requests of a log in the order in which they take effect. -/
def effects (log : List Occurrence) : List WorkerTask :=
  log.filterMap fun occurrence =>
    match occurrence with
    | .server _ => none
    | .effect task => some task

/-- A part of an event that leaves alone what the workers have taken. -/
structure Outcome.Spares (outcome : Outcome) (server : TcpServer) : Prop where
  busy : outcome.server.busy = server.busy
  quiet : ∀ observation ∈ outcome.log, observation.Quiet

section

variable {self : TcpServer} {outcome : Outcome} {fd : Nat}

theorem Outcome.Spares.pure (hbusy : outcome.server.busy = self.busy) (hlog : outcome.log = []) :
    outcome.Spares self := ⟨hbusy, by simp [hlog]⟩

theorem Outcome.Spares.andThen {next : TcpServer → Outcome} (h : outcome.Spares self)
    (hnext : (next outcome.server).Spares outcome.server) : (outcome.andThen next).Spares self where
  busy := hnext.busy.trans h.busy
  quiet observation hmem := (List.mem_append.mp hmem).elim (h.quiet observation) (hnext.quiet observation)

theorem Outcome.Spares.congr {other : TcpServer} (h : outcome.Spares other) (hbusy : other.busy = self.busy) :
    outcome.Spares self := ⟨h.busy.trans hbusy, h.quiet⟩

@[simp] theorem TcpServer.maybe_finish_shutdown_busy (self : TcpServer) :
    self.maybe_finish_shutdown.busy = self.busy := by
  unfold TcpServer.maybe_finish_shutdown
  split <;> rfl

theorem TcpServer.close_connection_spares (self : TcpServer) (fd : Nat) (reason : CloseReason) :
    (self.close_connection fd reason).Spares self := by
  unfold TcpServer.close_connection
  cases self.connections[fd]? with
  | none => exact .pure rfl rfl
  | some conn => exact ⟨TcpServer.maybe_finish_shutdown_busy _, by simp [Observation.Quiet]⟩

theorem TcpServer.update_epoll_event_spares (self : TcpServer) (fd : Nat) (events : Interest) (ok : Bool) :
    (self.update_epoll_event fd events ok).Spares self := by
  unfold TcpServer.update_epoll_event
  split
  · exact .pure rfl rfl
  · exact self.close_connection_spares fd .epoll_failed

theorem TcpServer.handle_read_spares (self : TcpServer) (fd : Nat) (read : SocketRead) (accepts : Nat → Bool)
    (ok : Bool) : (self.handle_read fd read accepts ok).Spares self := by
  unfold TcpServer.handle_read
  cases self.connections[fd]? with
  | none => exact .pure rfl rfl
  | some conn =>
    dsimp only
    split
    · exact .pure rfl rfl
    cases read with
    | unavailable => exact .pure rfl rfl
    | failed => exact self.close_connection_spares fd .read_failed
    | data bytes =>
      dsimp only
      split
      · exact self.close_connection_spares fd .end_of_stream
      have hparsed : ∀ later : List Observation, (∀ observation ∈ later, observation.Quiet) →
          Outcome.Spares ⟨{ self with
            connections := self.connections.insert fd (conn.receive accepts bytes).conn
            tasks := self.tasks ++ (conn.receive accepts bytes).tasks },
            ((conn.receive accepts bytes).tasks.map fun task => .parsed conn.generation task.command) ++ later⟩ self := by
        intro later hlater
        refine ⟨rfl, ?_⟩
        intro observation hmem
        rcases List.mem_append.mp hmem with hparsed | hother
        · obtain ⟨task, -, rfl⟩ := List.mem_map.mp hparsed
          trivial
        · exact hlater observation hother
      have hnone := hparsed [] (by simp)
      rw [List.append_nil] at hnone
      split
      · exact hnone.andThen (TcpServer.close_connection_spares _ _ _)
      split
      · exact (hparsed _ (by simp [Observation.Quiet])).andThen (TcpServer.update_epoll_event_spares _ _ _ _)
      · exact hnone

theorem TcpServer.handle_write_spares (self : TcpServer) (fd : Nat) (writes : List SocketWrite) (ok : Bool) :
    (self.handle_write fd writes ok).Spares self := by
  unfold TcpServer.handle_write
  cases self.connections[fd]? with
  | none => exact .pure rfl rfl
  | some conn =>
    refine Outcome.Spares.andThen ⟨rfl, by simp [Observation.Quiet]⟩ ?_
    dsimp only
    split
    · exact TcpServer.close_connection_spares _ _ _
    split
    · exact .pure rfl rfl
    split
    · split
      · exact TcpServer.close_connection_spares _ _ _
      · exact TcpServer.update_epoll_event_spares _ _ _ _
    · exact TcpServer.update_epoll_event_spares _ _ _ _

theorem TcpServer.handle_connection_event_spares (self : TcpServer) (fd : Nat) (events : Ready) (read : SocketRead)
    (writes : List SocketWrite) (accepts : Nat → Bool) (read_ok write_ok : Bool) :
    (self.handle_connection_event fd events read writes accepts read_ok write_ok).Spares self := by
  unfold TcpServer.handle_connection_event
  split
  · exact .pure rfl rfl
  split
  · exact self.close_connection_spares fd .event_error
  refine Outcome.Spares.andThen ?_ ?_
  · split
    · exact self.handle_read_spares fd read accepts read_ok
    · exact .pure rfl rfl
  · split
    · exact TcpServer.handle_write_spares _ _ _ _
    · exact .pure rfl rfl

theorem TcpServer.complete_one_spares (self : TcpServer) (task : CompletedTask) (ok : Bool) :
    (self.complete_one task ok).Spares self := by
  unfold TcpServer.complete_one
  cases self.connections[task.fd]? with
  | none => exact .pure rfl rfl
  | some conn =>
    dsimp only
    split
    · exact .pure rfl rfl
    split
    · exact (TcpServer.update_epoll_event_spares _ _ _ _).congr rfl
    · exact .pure rfl rfl

theorem TcpServer.complete_loop_spares (tasks : List (CompletedTask × Bool)) (self : TcpServer) :
    (complete_loop tasks self).Spares self := by
  induction tasks generalizing self with
  | nil => exact .pure (maybe_finish_shutdown_busy self) rfl
  | cons task tasks ih => exact (self.complete_one_spares task.1 task.2).andThen (ih _)

theorem TcpServer.close_loop_spares (to_close : List (Nat × CloseReason)) (self : TcpServer) :
    (close_loop to_close self).Spares self := by
  induction to_close generalizing self with
  | nil => exact .pure (maybe_finish_shutdown_busy self) rfl
  | cons entry rest ih => exact (self.close_connection_spares entry.1 entry.2).andThen (ih _)

theorem TcpServer.stop_one_spares (self : TcpServer) (fd : Nat) (ok : Bool) : (self.stop_one fd ok).1.Spares self := by
  unfold TcpServer.stop_one
  cases self.connections[fd]? with
  | none => exact .pure rfl rfl
  | some conn =>
    dsimp only
    split
    · exact ⟨rfl, by simp [Observation.Quiet]⟩
    split
    · exact ⟨rfl, by simp [Observation.Quiet]⟩
    · exact ⟨rfl, by simp [Observation.Quiet]⟩

theorem TcpServer.stop_loop_spares (ok : Nat → Bool) (fds : List Nat) (to_close : List (Nat × CloseReason))
    (self : TcpServer) : (stop_loop ok fds to_close self).Spares self := by
  induction fds generalizing self to_close with
  | nil => exact close_loop_spares to_close self
  | cons fd fds ih => exact (self.stop_one_spares fd (ok fd)).andThen (ih _ _)

theorem TcpServer.accept_one_spares (self : TcpServer) (accepted : Accepted) :
    (self.accept_one accepted).Spares self := by
  unfold TcpServer.accept_one
  dsimp only
  split
  · exact .pure rfl rfl
  split
  · exact .pure rfl rfl
  split
  · exact .pure rfl rfl
  · exact ⟨rfl, by simp [Observation.Quiet]⟩

theorem TcpServer.accept_loop_spares (accepted : List Accepted) (self : TcpServer) :
    (accept_loop accepted self).Spares self := by
  induction accepted generalizing self with
  | nil => exact .pure rfl rfl
  | cons one rest ih => exact (self.accept_one_spares one).andThen (ih _)

/-- A step of the event loop computes no response. -/
theorem TcpServer.step_spares {event : ServerEvent} (h : event.is_loop = true) (self : TcpServer) :
    (self.step event).Spares self := by
  cases event with
  | accept accepted =>
    simp only [step, handle_accept]
    split
    · exact accept_loop_spares accepted self
    · exact .pure rfl rfl
  | connection fd events read writes accepts read_ok write_ok =>
    exact self.handle_connection_event_spares fd events read writes accepts read_ok write_ok
  | completions ok =>
    simp only [step, handle_worker_completions]
    split
    · exact .pure rfl rfl
    · exact (complete_loop_spares _ _).congr rfl
  | stop ok =>
    simp only [step, stop]
    split
    · exact .pure rfl rfl
    · exact (stop_loop_spares _ _ _ _).congr rfl
  | worker_start => cases h
  | worker_finish index response => cases h

@[simp] theorem observations_server (log : List Observation) : observations (log.map .server) = log := by
  induction log with
  | nil => rfl
  | cons observation log ih => exact congrArg (observation :: ·) ih

theorem observations_append (first second : List Occurrence) :
    observations (first ++ second) = observations first ++ observations second := List.filterMap_append

theorem TcpServer.worker_start_log (self : TcpServer) : self.worker_start.log = [] := by
  unfold worker_start
  split
  · rfl
  · split <;> rfl

/-- What a step of the service does with the server is one of the server's own steps,
or nothing. -/
theorem Service.step_server {self next : Service} {event : ServiceEvent} {log : List Occurrence}
    (hstep : self.step event = some (next, log)) :
    (∃ event : ServerEvent, self.server.step event = ⟨next.server, observations log⟩) ∨
      (next.server = self.server ∧ observations log = []) := by
  unfold Service.step at hstep
  cases event with
  | loop event =>
    dsimp only at hstep
    split at hstep
    · cases hstep
      exact .inl ⟨event, by rw [observations_server]⟩
    · cases hstep
  | background act =>
    dsimp only at hstep
    split at hstep
    · obtain ⟨system, -, heq⟩ := Option.map_eq_some_iff.mp hstep
      cases heq
      exact .inr ⟨rfl, rfl⟩
    · cases hstep
  | start =>
    dsimp only at hstep
    split at hstep
    · cases hstep
    rename_i task _ _
    split at hstep
    · cases hstep
      refine .inl ⟨.worker_start, ?_⟩
      have hlog : observations (if (Job.of task).finished then [.effect task] else []) = [] := by
        split <;> rfl
      rw [hlog, ← self.server.worker_start_log]
      rfl
    · cases hstep
  | read index =>
    dsimp only at hstep
    split at hstep
    · cases hstep
      exact .inr ⟨rfl, rfl⟩
    · cases hstep
      exact .inr ⟨rfl, rfl⟩
    · cases hstep
  | put_lock index =>
    dsimp only at hstep
    split at hstep
    · obtain ⟨system, -, heq⟩ := Option.map_eq_some_iff.mp hstep
      cases heq
      exact .inr ⟨rfl, rfl⟩
    · cases hstep
  | put_write index =>
    dsimp only at hstep
    split at hstep
    · obtain ⟨system, -, heq⟩ := Option.map_eq_some_iff.mp hstep
      cases heq
      exact .inr ⟨rfl, rfl⟩
    · cases hstep
  | finish index =>
    dsimp only at hstep
    split at hstep
    · rename_i buffer _ _
      cases hstep
      exact .inl ⟨.worker_finish index buffer.readable, by rw [observations_server]⟩
    · cases hstep

/-- The server in a run of the service is in a run of its own, and does the same in it. -/
theorem Service.run_server {self last : Service} {events : List ServiceEvent} {log : List Occurrence}
    {past : List ServerEvent} {before : List Observation} (hself : TcpServer.run past = ⟨self.server, before⟩)
    (hrun : self.run events = some (last, log)) :
    ∃ events, TcpServer.run events = ⟨last.server, before ++ observations log⟩ := by
  induction events generalizing self past before log with
  | nil =>
    cases hrun
    exact ⟨past, by rw [hself]; simp [observations]⟩
  | cons event events ih =>
    obtain ⟨⟨next, first⟩, hstep, hrest⟩ := Option.bind_eq_some_iff.mp hrun
    obtain ⟨⟨final, rest⟩, htail, heq⟩ := Option.map_eq_some_iff.mp hrest
    cases heq
    rw [observations_append, ← List.append_assoc]
    rcases Service.step_server hstep with ⟨step, hserver⟩ | ⟨hserver, hnone⟩
    · have hnext : TcpServer.run (past ++ [step]) = ⟨next.server, before ++ observations first⟩ := by
        have hsame : TcpServer.run (past ++ [step]) = (TcpServer.run past).andThen (·.step step) := by
          simp [TcpServer.run]
        rw [hsame, hself, Outcome.andThen, hserver]
      exact ih hnext htail
    · rw [hnone, List.append_nil]
      exact ih (hself.trans (by rw [hserver])) htail

end

end NovaKV
