import NovaKV.Network.Encoder

open Std
open NovaKV.Lib

namespace NovaKV

/-- A parsed command on its way to a worker. -/
structure WorkerTask where
  fd : Nat
  generation : Nat
  seq : Nat
  command : List Bytes

/-- A response on its way back. -/
structure CompletedTask where
  fd : Nat
  generation : Nat
  seq : Nat
  response : Bytes

/-- What the server knows of one client. -/
structure Connection where
  fd : Nat
  generation : Nat
  input_buffer : NetworkBuffer
  output_buffer : NetworkBuffer
  parser : RESPParser
  closing : Bool
  next_request_seq : Nat
  next_write_seq : Nat
  pending_responses : ExtTreeMap Nat Bytes

def Connection.new (fd generation : Nat) : Connection where
  fd := fd
  generation := generation
  input_buffer := .new 1024
  output_buffer := .new 1024
  parser := .reset
  closing := false
  next_request_seq := 0
  next_write_seq := 0
  pending_responses := ∅

/-- Append the responses whose turn has come to the output, at most `fuel` of them. -/
def Connection.append_ready_loop : Nat → Connection → Connection
  | 0, self => self
  | fuel + 1, self =>
    match self.pending_responses[self.next_write_seq]? with
    | none => self
    | some response =>
      append_ready_loop fuel
        { self with
          output_buffer := self.output_buffer.append response
          pending_responses := self.pending_responses.erase self.next_write_seq
          next_write_seq := self.next_write_seq + 1 }

/-- Every response that is appended leaves the map, so that its size bounds them. -/
def Connection.append_ready (self : Connection) : Connection :=
  Connection.append_ready_loop self.pending_responses.size self

/-- The reply `-ERR protocol error`. -/
def protocol_error_reply : Bytes := (encode_error (.new 1024) (ascii "protocol error")).readable

/-- `FailConnectionProtocol`, but for the epoll events: the reply takes the next
number, and nothing more is read. -/
def Connection.fail_connection_protocol (self : Connection) : Connection :=
  { self with
    next_request_seq := self.next_request_seq + 1
    pending_responses := self.pending_responses.insertIfNew self.next_request_seq protocol_error_reply
    closing := true
    input_buffer := self.input_buffer.retrieve_all }.append_ready

/-- What `HandleRead` does with the bytes of one read: the connection after it, the
tasks it enqueues, and whether it fails to enqueue one and closes the connection. -/
structure ReadResult where
  conn : Connection
  tasks : List WorkerTask
  enqueue_failed : Bool

/-- The loop of `HandleRead`. `accepts` says whether the thread pool takes the task
with a given number. -/
def Connection.read_loop (accepts : Nat → Bool) : Nat → Connection → ReadResult
  | 0, self => ⟨self, [], false⟩
  | fuel + 1, self =>
    let result := self.parser.parse self.input_buffer []
    let conn := { self with parser := result.parser, input_buffer := result.buffer }
    match result.status with
    | .SUCCESS =>
      let seq := conn.next_request_seq
      let conn := { conn with next_request_seq := seq + 1 }
      if accepts seq then
        let later := read_loop accepts fuel conn
        { later with tasks := ⟨self.fd, self.generation, seq, result.out_command⟩ :: later.tasks }
      else ⟨conn, [], true⟩
    | .INCOMPLETE => ⟨conn, [], false⟩
    | .ERROR => ⟨conn.fail_connection_protocol, [], false⟩

/-- `HandleRead` once the socket has delivered `data`. -/
def Connection.receive (self : Connection) (accepts : Nat → Bool) (data : Bytes) : ReadResult :=
  if self.closing then ⟨self, [], false⟩
  else
    let conn := { self with input_buffer := self.input_buffer.read_from_fd data }
    Connection.read_loop accepts (conn.input_buffer.readable_bytes + 1) conn

/-- The tasks of consecutive requests. -/
def Connection.tasks_of (self : Connection) (commands : List (List Bytes)) : List WorkerTask :=
  commands.mapIdx fun index command => ⟨self.fd, self.generation, self.next_request_seq + index, command⟩

/-- The connection after a read whose commands were all enqueued. -/
def Connection.after (self : Connection) (commands : List (List Bytes)) (last : RESPParser)
    (buffer : NetworkBuffer) : Resumable.End → Connection
  | .waiting =>
    { self with
      parser := last
      input_buffer := buffer
      next_request_seq := self.next_request_seq + commands.length }
  | .failed =>
    { self with
      parser := last
      input_buffer := buffer
      next_request_seq := self.next_request_seq + commands.length }.fail_connection_protocol

section

variable {self : Connection} {accepts : Nat → Bool}

theorem Connection.tasks_of_cons (self : Connection) (command : List Bytes) (commands : List (List Bytes)) :
    self.tasks_of (command :: commands) =
      ⟨self.fd, self.generation, self.next_request_seq, command⟩ ::
        { self with next_request_seq := self.next_request_seq + 1 }.tasks_of commands := by
  simp only [tasks_of, List.mapIdx_cons, Nat.add_zero, List.cons.injEq, true_and]
  congr 1
  funext index command
  simp only [WorkerTask.mk.injEq, true_and, and_true]
  omega

theorem Connection.after_cons (self : Connection) (parser : RESPParser) (input : NetworkBuffer)
    (command : List Bytes) (commands : List (List Bytes)) (last : RESPParser) (buffer : NetworkBuffer)
    (how : Resumable.End) :
    { self with
      parser := parser
      input_buffer := input
      next_request_seq := self.next_request_seq + 1 }.after commands last buffer how =
      self.after (command :: commands) last buffer how := by
  have hseq : self.next_request_seq + 1 + commands.length = self.next_request_seq + (commands.length + 1) := by
    omega
  cases how <;> simp only [after, List.length_cons, hseq]

/-- A read enqueues the commands that its bytes complete, unless the thread pool
refuses one. -/
theorem Connection.read_loop_cases {fuel : Nat} (hfuel : self.input_buffer.readable_bytes < fuel) :
    ∃ commands, (read_loop accepts fuel self).tasks = self.tasks_of commands ∧
      (((read_loop accepts fuel self).enqueue_failed = true ∧ ∃ seq, accepts seq = false) ∨
      ∃ how last buffer,
        RESPParser.machine.Reads self.parser self.input_buffer.readable commands how last buffer.readable ∧
        read_loop accepts fuel self = ⟨self.after commands last buffer how, self.tasks_of commands, false⟩) := by
  induction fuel generalizing self with
  | zero => omega
  | succ fuel ih =>
    obtain ⟨parser, left, hadvances, hends⟩ := self.parser.parse_ends self.input_buffer []
    rw [read_loop]
    cases hturn : parser.turn left with
    | wait =>
      rw [hturn] at hends
      obtain ⟨hstatus, -, hparser, hbuffer⟩ := hends
      refine ⟨[], ?_⟩
      simp only [hstatus]
      refine ⟨rfl, .inr ⟨.waiting, _, _, ?_, rfl⟩⟩
      rw [hbuffer, hparser]
      exact hadvances.reads (.wait hturn)
    | fail failed =>
      rw [hturn] at hends
      obtain ⟨hstatus, -, hparser, hbuffer⟩ := hends
      refine ⟨[], ?_⟩
      simp only [hstatus]
      refine ⟨rfl, .inr ⟨.failed, _, _, ?_, rfl⟩⟩
      rw [hbuffer, hparser]
      exact hadvances.reads (.fail hturn)
    | advance =>
      rw [hturn] at hends
      cases hends
    | output command next used =>
      rw [hturn] at hends
      obtain ⟨hstatus, hcommand, hparser, hbuffer⟩ := hends
      have hless := RESPParser.machine.drop_length_lt
        (show (RESPParser.machine.turn parser left).used = some used by
          change (parser.turn left).used = _
          rw [hturn]
          rfl)
      have hle := RESPParser.advances_length hadvances
      rw [← hbuffer, NetworkBuffer.readable_length] at hless
      rw [NetworkBuffer.readable_length] at hle
      simp only [hstatus, hcommand]
      split
      · have hlater := @ih
          { self with
            parser := (self.parser.parse self.input_buffer []).parser
            input_buffer := (self.parser.parse self.input_buffer []).buffer
            next_request_seq := self.next_request_seq + 1 } (by dsimp only; omega)
        obtain ⟨commands, htasks, hcases⟩ := hlater
        refine ⟨command :: commands, ?_, ?_⟩
        · rw [htasks, tasks_of_cons]
          rfl
        · rcases hcases with ⟨hfailed, hseq⟩ | ⟨how, last, buffer, hreads, hresult⟩
          · exact .inl ⟨hfailed, hseq⟩
          · rw [hbuffer, hparser] at hreads
            refine .inr ⟨how, last, buffer, hadvances.reads (.output hturn hreads), ?_⟩
            rw [hresult, after_cons self _ _ command, tasks_of_cons]
            rfl
      · rename_i hrefused
        exact ⟨[], rfl, .inl ⟨rfl, _, by simpa using hrefused⟩⟩

/-- Appending responses does not touch the reading side of a connection. -/
theorem Connection.append_ready_loop_reading (fuel : Nat) (self : Connection) :
    (append_ready_loop fuel self).parser = self.parser ∧
    (append_ready_loop fuel self).input_buffer = self.input_buffer ∧
    (append_ready_loop fuel self).closing = self.closing ∧
    (append_ready_loop fuel self).next_request_seq = self.next_request_seq ∧
    (append_ready_loop fuel self).fd = self.fd ∧
    (append_ready_loop fuel self).generation = self.generation := by
  induction fuel generalizing self with
  | zero => exact ⟨rfl, rfl, rfl, rfl, rfl, rfl⟩
  | succ fuel ih =>
    rw [append_ready_loop]
    split
    · exact ⟨rfl, rfl, rfl, rfl, rfl, rfl⟩
    · exact ih _

@[simp] theorem Connection.fail_connection_protocol_parser (self : Connection) :
    self.fail_connection_protocol.parser = self.parser :=
  (append_ready_loop_reading _ _).1

@[simp] theorem Connection.fail_connection_protocol_input (self : Connection) :
    self.fail_connection_protocol.input_buffer.readable = [] := by
  rw [fail_connection_protocol, append_ready, (append_ready_loop_reading _ _).2.1]
  exact NetworkBuffer.readable_retrieve_all _

@[simp] theorem Connection.fail_connection_protocol_closing (self : Connection) :
    self.fail_connection_protocol.closing = true :=
  (append_ready_loop_reading _ _).2.2.1

@[simp] theorem Connection.fail_connection_protocol_next (self : Connection) :
    self.fail_connection_protocol.next_request_seq = self.next_request_seq + 1 :=
  (append_ready_loop_reading _ _).2.2.2.1

@[simp] theorem Connection.fail_connection_protocol_fd (self : Connection) :
    self.fail_connection_protocol.fd = self.fd :=
  (append_ready_loop_reading _ _).2.2.2.2.1

@[simp] theorem Connection.fail_connection_protocol_generation (self : Connection) :
    self.fail_connection_protocol.generation = self.generation :=
  (append_ready_loop_reading _ _).2.2.2.2.2

end

end NovaKV
