import NovaKV.Network.Connection

open Std
open NovaKV.Lib

namespace NovaKV

/-- The events that a client's socket is registered for. `EPOLLRDHUP` is always
among them. -/
structure Interest where
  EPOLLIN : Bool
  EPOLLOUT : Bool
  deriving DecidableEq

/-- The events that `epoll_wait` reports for a client's socket. -/
structure Ready where
  EPOLLERR : Bool
  EPOLLHUP : Bool
  EPOLLIN : Bool
  EPOLLOUT : Bool

/-- What the read from a socket returns: data, which at the end of the stream is
empty, `EAGAIN` or `EINTR`, or another error. -/
inductive SocketRead where
  | data (bytes : Bytes)
  | unavailable
  | failed

/-- What a write to a socket returns. -/
inductive SocketWrite where
  | wrote (n : Nat)
  | interrupted
  | unavailable
  | failed

/-- A socket from `accept`, and whether it could be made non-blocking and be
registered with epoll. -/
structure Accepted where
  fd : Nat
  non_blocking : Bool
  registered : Bool

/-- Why a connection is closed. -/
inductive CloseReason where
  | event_error
  | end_of_stream
  | read_failed
  | enqueue_failed
  | write_failed
  | epoll_failed
  | drained
  deriving DecidableEq

/-- What an event does that can be told from outside or by the workers. A connection
is named by its generation. -/
inductive Observation where
  | opened (generation fd : Nat)
  | parsed (generation : Nat) (command : List Bytes)
  | protocol_error (generation : Nat)
  | closing (generation : Nat)
  | responded (task : WorkerTask) (response : Bytes)
  | sent (generation fd : Nat) (bytes : Bytes)
  | removed (generation : Nat) (reason : CloseReason)

/-- The server with its thread pool: `tasks` is the queue of the pool, and `busy` are
the tasks that the workers have taken and not finished. `listening` is whether
`listen_fd_` is open, `epoll` what the clients are registered for. -/
structure TcpServer where
  running : Bool
  stopping : Bool
  listening : Bool
  connections : ExtTreeMap Nat Connection
  next_generation : Nat
  epoll : ExtTreeMap Nat Interest
  tasks : List WorkerTask
  busy : List WorkerTask
  completed_queue : List CompletedTask

/-- The server after a part of an event, and what could be observed meanwhile. -/
structure Outcome where
  server : TcpServer
  log : List Observation

/-- One part of an event after another. -/
def Outcome.andThen (self : Outcome) (next : TcpServer → Outcome) : Outcome :=
  ⟨(next self.server).server, self.log ++ (next self.server).log⟩

/-- `IsConnectionDrained`. -/
def Connection.drained (self : Connection) : Bool :=
  self.output_buffer.readable_bytes == 0 && self.pending_responses.isEmpty &&
    self.next_write_seq == self.next_request_seq

namespace TcpServer

/-- The server once `Start` has returned. -/
def start : TcpServer where
  running := true
  stopping := false
  listening := true
  connections := ∅
  next_generation := 1
  epoll := ∅
  tasks := []
  busy := []
  completed_queue := []

/-- The number of workers. -/
def kWorkers : Nat := 8

def maybe_finish_shutdown (self : TcpServer) : TcpServer :=
  if self.stopping && !self.listening && self.connections.isEmpty then { self with running := false }
  else self

def close_connection (self : TcpServer) (fd : Nat) (reason : CloseReason) : Outcome :=
  match self.connections[fd]? with
  | none => ⟨self, []⟩
  | some conn =>
    ⟨{ self with epoll := self.epoll.erase fd, connections := self.connections.erase fd }.maybe_finish_shutdown,
      [.removed conn.generation reason]⟩

/-- `UpdateEpollEvent`, which succeeds if `ok` is true, and closing the connection
when it fails. -/
def update_epoll_event (self : TcpServer) (fd : Nat) (events : Interest) (ok : Bool) : Outcome :=
  if ok then ⟨{ self with epoll := self.epoll.insert fd events }, []⟩
  else self.close_connection fd .epoll_failed

/-- One socket in the loop of `HandleAccept`. -/
def accept_one (self : TcpServer) (accepted : Accepted) : Outcome :=
  if !accepted.non_blocking then ⟨self, []⟩
  else
    let generation := self.next_generation
    let self := { self with next_generation := generation + 1 }
    if accepted.fd ∈ self.connections then ⟨self, []⟩
    else if !accepted.registered then ⟨self, []⟩
    else
      ⟨{ self with
          connections := self.connections.insert accepted.fd (.new accepted.fd generation)
          epoll := self.epoll.insert accepted.fd ⟨true, false⟩ },
        [.opened generation accepted.fd]⟩

def accept_loop : List Accepted → TcpServer → Outcome
  | [], self => ⟨self, []⟩
  | accepted :: rest, self => (self.accept_one accepted).andThen (accept_loop rest)

def handle_accept (self : TcpServer) (accepted : List Accepted) : Outcome :=
  if self.running && self.listening then accept_loop accepted self else ⟨self, []⟩

/-- The events that `FailConnectionProtocol` registers. -/
def failed_events (before after : Connection) : Interest :=
  ⟨false, before.next_write_seq < after.next_write_seq⟩

/-- `HandleRead`. `accepts` says which numbers the thread pool takes a task with. -/
def handle_read (self : TcpServer) (fd : Nat) (read : SocketRead) (accepts : Nat → Bool) (ok : Bool) :
    Outcome :=
  match self.connections[fd]? with
  | none => ⟨self, []⟩
  | some conn =>
    if conn.closing then ⟨self, []⟩
    else
      match read with
      | .unavailable => ⟨self, []⟩
      | .failed => self.close_connection fd .read_failed
      | .data bytes =>
        if bytes = [] then self.close_connection fd .end_of_stream
        else
          let result := conn.receive accepts bytes
          let parsed := result.tasks.map fun task => Observation.parsed conn.generation task.command
          let self := { self with
            connections := self.connections.insert fd result.conn
            tasks := self.tasks ++ result.tasks }
          if result.enqueue_failed then
            Outcome.andThen ⟨self, parsed⟩ (·.close_connection fd .enqueue_failed)
          else if result.conn.closing then
            Outcome.andThen ⟨self, parsed ++ [.protocol_error conn.generation, .closing conn.generation]⟩
              (·.update_epoll_event fd (failed_events conn result.conn) ok)
          else ⟨self, parsed⟩

/-- What the loop of `HandleWrite` leaves: the connection, the bytes that the socket
has taken, and whether a write failed. -/
structure WriteResult where
  conn : Connection
  sent : Bytes
  failed : Bool

/-- The loop of `HandleWrite`, for the results of the writes it makes. -/
def write_loop : List SocketWrite → Connection → WriteResult
  | [], conn => ⟨conn, [], false⟩
  | write :: writes, conn =>
    if conn.output_buffer.readable_bytes = 0 then ⟨conn, [], false⟩
    else
      match write with
      | .wrote n =>
        if n = 0 then ⟨conn, [], false⟩
        else
          let later := write_loop writes { conn with output_buffer := conn.output_buffer.retrieve n }
          { later with sent := conn.output_buffer.readable.take n ++ later.sent }
      | .interrupted => write_loop writes conn
      | .unavailable => ⟨conn, [], false⟩
      | .failed => ⟨conn, [], true⟩

def handle_write (self : TcpServer) (fd : Nat) (writes : List SocketWrite) (ok : Bool) : Outcome :=
  match self.connections[fd]? with
  | none => ⟨self, []⟩
  | some conn =>
    let result := write_loop writes conn
    Outcome.andThen ⟨{ self with connections := self.connections.insert fd result.conn },
        [.sent conn.generation fd result.sent]⟩ fun self =>
      if result.failed then self.close_connection fd .write_failed
      else if result.conn.output_buffer.readable_bytes ≠ 0 then ⟨self, []⟩
      else if result.conn.closing then
        if result.conn.drained then self.close_connection fd .drained
        else self.update_epoll_event fd ⟨false, false⟩ ok
      else self.update_epoll_event fd ⟨true, false⟩ ok

def handle_connection_event (self : TcpServer) (fd : Nat) (events : Ready) (read : SocketRead)
    (writes : List SocketWrite) (accepts : Nat → Bool) (read_ok write_ok : Bool) : Outcome :=
  if !self.running then ⟨self, []⟩
  else if events.EPOLLERR || events.EPOLLHUP then self.close_connection fd .event_error
  else
    Outcome.andThen (if events.EPOLLIN then self.handle_read fd read accepts read_ok else ⟨self, []⟩) fun self =>
      if events.EPOLLOUT then self.handle_write fd writes write_ok else ⟨self, []⟩

/-- One response in the loop of `HandleWorkerCompletions`. -/
def complete_one (self : TcpServer) (task : CompletedTask) (ok : Bool) : Outcome :=
  match self.connections[task.fd]? with
  | none => ⟨self, []⟩
  | some conn =>
    if conn.generation ≠ task.generation then ⟨self, []⟩
    else
      let ready : Connection :=
        { conn with pending_responses := conn.pending_responses.insertIfNew task.seq task.response }.append_ready
      let self := { self with connections := self.connections.insert task.fd ready }
      if conn.next_write_seq < ready.next_write_seq then
        self.update_epoll_event task.fd ⟨!ready.closing, true⟩ ok
      else ⟨self, []⟩

def complete_loop : List (CompletedTask × Bool) → TcpServer → Outcome
  | [], self => ⟨self.maybe_finish_shutdown, []⟩
  | (task, ok) :: rest, self => (self.complete_one task ok).andThen (complete_loop rest)

/-- `HandleWorkerCompletions`. `ok` says whether the update after the response at a
position of the queue succeeds. -/
def handle_worker_completions (self : TcpServer) (ok : Nat → Bool) : Outcome :=
  if !self.running then ⟨self, []⟩
  else
    complete_loop (self.completed_queue.mapIdx fun index task => (task, ok index))
      { self with completed_queue := [] }

/-- One connection in the first loop of `Stop`, and why it is to be closed. -/
def stop_one (self : TcpServer) (fd : Nat) (ok : Bool) : Outcome × Option CloseReason :=
  match self.connections[fd]? with
  | none => (⟨self, []⟩, none)
  | some conn =>
    let conn : Connection := { conn with closing := true, input_buffer := conn.input_buffer.retrieve_all }
    let self := { self with connections := self.connections.insert fd conn }
    if conn.drained then (⟨self, [.closing conn.generation]⟩, some .drained)
    else if ok then
      (⟨{ self with epoll := self.epoll.insert fd ⟨false, true⟩ }, [.closing conn.generation]⟩, none)
    else (⟨self, [.closing conn.generation]⟩, some .epoll_failed)

/-- The second loop of `Stop`, and its end. -/
def close_loop : List (Nat × CloseReason) → TcpServer → Outcome
  | [], self => ⟨self.maybe_finish_shutdown, []⟩
  | (fd, reason) :: rest, self => (self.close_connection fd reason).andThen (close_loop rest)

/-- The first loop of `Stop`, followed by the second one on what it collected. -/
def stop_loop (ok : Nat → Bool) : List Nat → List (Nat × CloseReason) → TcpServer → Outcome
  | [], to_close, self => close_loop to_close self
  | fd :: rest, to_close, self =>
    (self.stop_one fd (ok fd)).1.andThen
      (stop_loop ok rest (to_close ++ ((self.stop_one fd (ok fd)).2.map fun reason => (fd, reason)).toList))

/-- `Stop`, as one step between two events. -/
def stop (self : TcpServer) (ok : Nat → Bool) : Outcome :=
  if !self.running || self.stopping then ⟨self, []⟩
  else stop_loop ok self.connections.keys [] { self with stopping := true, listening := false }

/-- A worker takes the first task of the queue. -/
def worker_start (self : TcpServer) : Outcome :=
  match self.tasks with
  | [] => ⟨self, []⟩
  | task :: rest =>
    if self.busy.length < kWorkers then ⟨{ self with tasks := rest, busy := self.busy ++ [task] }, []⟩
    else ⟨self, []⟩

/-- A worker has computed the response of its task. -/
def worker_finish (self : TcpServer) (index : Nat) (response : Bytes) : Outcome :=
  match self.busy[index]? with
  | none => ⟨self, []⟩
  | some task =>
    ⟨{ self with
        busy := self.busy.eraseIdx index
        completed_queue := self.completed_queue ++ [⟨task.fd, task.generation, task.seq, response⟩] },
      [.responded task response]⟩

end TcpServer

/-- The steps of the event loop, with what the system calls in them return, and those
of the workers. -/
inductive ServerEvent where
  | accept (accepted : List Accepted)
  | connection (fd : Nat) (events : Ready) (read : SocketRead) (writes : List SocketWrite)
    (accepts : Nat → Bool) (read_ok write_ok : Bool)
  | completions (ok : Nat → Bool)
  | stop (ok : Nat → Bool)
  | worker_start
  | worker_finish (index : Nat) (response : Bytes)

def TcpServer.step (self : TcpServer) : ServerEvent → Outcome
  | .accept accepted => self.handle_accept accepted
  | .connection fd events read writes accepts read_ok write_ok =>
    self.handle_connection_event fd events read writes accepts read_ok write_ok
  | .completions ok => self.handle_worker_completions ok
  | .stop ok => self.stop ok
  | .worker_start => self.worker_start
  | .worker_finish index response => self.worker_finish index response

/-- A run of the server from its start, up to `Cleanup`. -/
def TcpServer.run (events : List ServerEvent) : Outcome :=
  events.foldl (fun outcome event => outcome.andThen (·.step event)) ⟨.start, []⟩

end NovaKV
