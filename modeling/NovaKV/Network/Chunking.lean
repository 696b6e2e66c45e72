import NovaKV.Network.Connection

open NovaKV.Lib

namespace NovaKV

/-- A stream in delivery: the commands so far, the last status, the parser and the
buffer. -/
structure Feed where
  commands : List (List Bytes)
  status : ParseStatus
  parser : RESPParser
  buffer : NetworkBuffer

def Feed.start : Feed := ⟨[], .INCOMPLETE, .reset, .new 1024⟩

/-- Append a chunk and call `Parse` until it returns `INCOMPLETE` or `ERROR`; after
the first `ERROR` it is not called again. -/
def Feed.deliver (self : Feed) (chunk : Bytes) : Feed :=
  let buffer := self.buffer.append chunk
  if self.status = .ERROR then { self with buffer := buffer }
  else
    let drained := self.parser.drain buffer
    ⟨self.commands ++ drained.commands, drained.status, drained.parser, drained.buffer⟩

/-- `HandleRead` for one more chunk, after the tasks enqueued so far. -/
def Connection.receive_more (so_far : Connection × List WorkerTask) (chunk : Bytes) :
    Connection × List WorkerTask :=
  let result := so_far.1.receive (fun _ => true) chunk
  (result.conn, so_far.2 ++ result.tasks)

/-- `HandleRead` for one chunk after the other. -/
def Connection.receive_all (self : Connection) (chunks : List Bytes) : Connection × List WorkerTask :=
  chunks.foldl Connection.receive_more (self, [])

/-- All of `stream` has been delivered. -/
def Feed.Delivered (self : Feed) (stream : Bytes) : Prop :=
  ∃ how, self.status = .of_end how ∧
    RESPParser.machine.Reads .reset stream self.commands how self.parser self.buffer.readable

section

variable {self : Feed} {stream : Bytes}

theorem Feed.start_delivered : start.Delivered [] := by
  refine ⟨.waiting, rfl, ?_⟩
  rw [start, NetworkBuffer.readable_new]
  exact .wait rfl

theorem Feed.Delivered.deliver (h : self.Delivered stream) (chunk : Bytes) :
    (self.deliver chunk).Delivered (stream ++ chunk) := by
  obtain ⟨how, hstatus, hreads⟩ := h
  cases how with
  | failed =>
    have herror : self.status = .ERROR := hstatus
    refine ⟨.failed, ?_, ?_⟩
    · rw [Feed.deliver, if_pos herror]
      exact hstatus
    · rw [Feed.deliver, if_pos herror]
      dsimp only
      rw [NetworkBuffer.readable_append]
      exact hreads.append_of_failed chunk
  | waiting =>
    have hwaiting : ¬ self.status = .ERROR := by
      rw [hstatus]
      nofun
    obtain ⟨how, hhow, hmore⟩ := self.parser.drain_reads (self.buffer.append chunk)
    rw [NetworkBuffer.readable_append] at hmore
    refine ⟨how, ?_, ?_⟩
    · rw [Feed.deliver, if_neg hwaiting]
      exact hhow
    · rw [Feed.deliver, if_neg hwaiting]
      exact hreads.append_of_waiting hmore

theorem Feed.Delivered.deliver_all (h : self.Delivered stream) (chunks : List Bytes) :
    (chunks.foldl Feed.deliver self).Delivered (stream ++ chunks.flatten) := by
  induction chunks generalizing self stream with
  | nil => simpa using h
  | cons chunk chunks ih =>
    rw [List.foldl_cons, List.flatten_cons, ← List.append_assoc]
    exact ih (h.deliver chunk)

/-- What has been delivered depends on the stream only. -/
theorem Feed.Delivered.unique {other : Feed} (h : self.Delivered stream) (h' : other.Delivered stream) :
    self.commands = other.commands ∧ self.status = other.status ∧ self.parser = other.parser ∧
      self.buffer.readable = other.buffer.readable := by
  obtain ⟨how, hstatus, hreads⟩ := h
  obtain ⟨how', hstatus', hreads'⟩ := h'
  obtain ⟨hcommands, rfl, hparser, hrest⟩ := hreads.unique hreads'
  exact ⟨hcommands, hstatus.trans hstatus'.symm, hparser, hrest⟩

end

section

variable {self : Connection} {fd generation : Nat} {stream : Bytes} {tasks : List WorkerTask}

/-- All of `stream` has been received by a connection, which has enqueued `tasks`. -/
def Connection.Received (self : Connection) (fd generation : Nat) (stream : Bytes) (tasks : List WorkerTask) :
    Prop :=
  self.fd = fd ∧ self.generation = generation ∧ ∃ commands how rest,
    RESPParser.machine.Reads .reset stream commands how self.parser rest ∧
    tasks = (Connection.new fd generation).tasks_of commands ∧
    match how with
    | .waiting => self.closing = false ∧ self.input_buffer.readable = rest ∧
      self.next_request_seq = commands.length
    | .failed => self.closing = true ∧ self.input_buffer.readable = [] ∧
      self.next_request_seq = commands.length + 1

theorem Connection.tasks_of_append (self : Connection) (first second : List (List Bytes)) :
    self.tasks_of (first ++ second) = self.tasks_of first ++
      { self with next_request_seq := self.next_request_seq + first.length }.tasks_of second := by
  simp only [tasks_of, List.mapIdx_append]
  congr 2
  funext index command
  simp only [WorkerTask.mk.injEq, true_and, and_true]
  omega

theorem Connection.Received.receive (h : self.Received fd generation stream tasks) (chunk : Bytes) :
    (self.receive (fun _ => true) chunk).conn.Received fd generation (stream ++ chunk)
      (tasks ++ (self.receive (fun _ => true) chunk).tasks) := by
  obtain ⟨hfd, hgeneration, commands, how, rest, hreads, rfl, hhow⟩ := h
  cases how with
  | failed =>
    obtain ⟨hclosing, hempty, hseq⟩ := hhow
    rw [Connection.receive, if_pos hclosing, List.append_nil]
    exact ⟨hfd, hgeneration, commands, .failed, _, hreads.append_of_failed chunk, rfl, hclosing, hempty, hseq⟩
  | waiting =>
    obtain ⟨hopen, rfl, hseq⟩ := hhow
    rw [Connection.receive, if_neg (by simp [hopen])]
    dsimp only
    obtain ⟨later, -, ⟨-, seq, hseq⟩ | ⟨how, last, buffer, hmore, hresult⟩⟩ :=
      @read_loop_cases { self with input_buffer := self.input_buffer.read_from_fd chunk } (fun _ => true) _
        (Nat.lt_succ_self _)
    · cases hseq
    rw [hresult]
    dsimp only at hmore ⊢
    rw [NetworkBuffer.readable_read_from_fd] at hmore
    have hall := hreads.append_of_waiting hmore
    have htasks : (Connection.new fd generation).tasks_of commands ++
        { self with input_buffer := self.input_buffer.read_from_fd chunk }.tasks_of later =
        (Connection.new fd generation).tasks_of (commands ++ later) := by
      rw [tasks_of_append]
      simp [tasks_of, Connection.new, hfd, hgeneration, hseq]
    rw [htasks]
    cases how with
    | waiting =>
      refine ⟨hfd, hgeneration, commands ++ later, .waiting, _, hall, rfl, hopen, rfl, ?_⟩
      simp [after, hseq]
    | failed =>
      refine ⟨?_, ?_, commands ++ later, .failed, buffer.readable, ?_, rfl, ?_, ?_, ?_⟩
      · simpa [after] using hfd
      · simpa [after] using hgeneration
      · simpa [after] using hall
      · simp [after]
      · simp [after]
      · simp [after, hseq]

theorem Connection.new_received (fd generation : Nat) :
    (Connection.new fd generation).Received fd generation [] [] := by
  refine ⟨rfl, rfl, [], .waiting, [], .wait rfl, rfl, rfl, ?_, rfl⟩
  simp [Connection.new]

theorem Connection.Received.receive_all {so_far : Connection × List WorkerTask}
    (h : so_far.1.Received fd generation stream so_far.2) (chunks : List Bytes) :
    (chunks.foldl Connection.receive_more so_far).1.Received fd generation (stream ++ chunks.flatten)
      (chunks.foldl Connection.receive_more so_far).2 := by
  induction chunks generalizing so_far stream with
  | nil => simpa using h
  | cons chunk chunks ih =>
    rw [List.foldl_cons, List.flatten_cons, ← List.append_assoc]
    exact ih (h.receive chunk)

/-- What a connection has received depends on the stream only. -/
theorem Connection.Received.unique {other : Connection} {tasks' : List WorkerTask}
    (h : self.Received fd generation stream tasks) (h' : other.Received fd generation stream tasks') :
    tasks = tasks' ∧ self.parser = other.parser ∧ self.closing = other.closing ∧
      self.input_buffer.readable = other.input_buffer.readable := by
  obtain ⟨-, -, commands, how, rest, hreads, rfl, hhow⟩ := h
  obtain ⟨-, -, commands', how', rest', hreads', rfl, hhow'⟩ := h'
  obtain ⟨rfl, rfl, hparser, rfl⟩ := hreads.unique hreads'
  cases how with
  | waiting =>
    exact ⟨rfl, hparser, hhow.1.trans hhow'.1.symm, hhow.2.1.trans hhow'.2.1.symm⟩
  | failed =>
    exact ⟨rfl, hparser, hhow.1.trans hhow'.1.symm, hhow.2.1.trans hhow'.2.1.symm⟩

end

/-- However a stream of bytes is split into chunks, appending them one after the
other and parsing after each gives the same commands, the same last status, the
same parser and the same unread bytes as appending all of it at once; so does
`HandleRead`, which reads no more after a protocol error and empties the buffer. -/
theorem chunking_independent (chunks : List Bytes) (fd generation : Nat) :
    ((chunks.foldl Feed.deliver .start).commands = (Feed.start.deliver chunks.flatten).commands ∧
      (chunks.foldl Feed.deliver .start).status = (Feed.start.deliver chunks.flatten).status ∧
      (chunks.foldl Feed.deliver .start).parser = (Feed.start.deliver chunks.flatten).parser ∧
      (chunks.foldl Feed.deliver .start).buffer.readable =
        (Feed.start.deliver chunks.flatten).buffer.readable) ∧
    ((Connection.new fd generation).receive_all chunks).2 =
      ((Connection.new fd generation).receive_all [chunks.flatten]).2 ∧
    ((Connection.new fd generation).receive_all chunks).1.parser =
      ((Connection.new fd generation).receive_all [chunks.flatten]).1.parser ∧
    ((Connection.new fd generation).receive_all chunks).1.closing =
      ((Connection.new fd generation).receive_all [chunks.flatten]).1.closing ∧
    ((Connection.new fd generation).receive_all chunks).1.input_buffer.readable =
      ((Connection.new fd generation).receive_all [chunks.flatten]).1.input_buffer.readable := by
  refine ⟨(Feed.start_delivered.deliver_all chunks).unique (Feed.start_delivered.deliver chunks.flatten), ?_⟩
  have hnew : (Connection.new fd generation, ([] : List WorkerTask)).1.Received fd generation [] [] :=
    Connection.new_received fd generation
  have hwhole := hnew.receive_all [chunks.flatten]
  rw [List.flatten_singleton] at hwhole
  exact (hnew.receive_all chunks).unique hwhole

end NovaKV
