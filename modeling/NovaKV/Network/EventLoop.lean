import NovaKV.Network.Serving

open Std
open NovaKV.Lib

namespace NovaKV

/-- What holds of the server between the parts of its events, when the responses `done`
have been taken from the queue and not been dealt with. -/
structure TcpServer.Serving (server : TcpServer) (done : List CompletedTask) (journals : Journals) : Prop where
  clients : Clients server.connections server.next_generation journals
    fun generation seq => (generation, seq) ∈ tickets (server.tasks ++ server.busy) (done ++ server.completed_queue)
  workers : Workers (server.tasks ++ server.busy) (done ++ server.completed_queue) journals

/-- A part of an event makes lawful observations and leaves the server serving. -/
structure Outcome.Keeps (outcome : Outcome) (done : List CompletedTask) (journals : Journals) : Prop where
  lawful : Lawful journals outcome.log
  serving : outcome.server.Serving done (journals.after outcome.log)

section

variable {self : TcpServer} {done done' : List CompletedTask} {journals : Journals} {fd : Nat} {conn : Connection}
  {log : List Observation}

theorem TcpServer.Serving.pure (h : self.Serving done journals) : Outcome.Keeps ⟨self, []⟩ done journals := ⟨trivial, h⟩

theorem Outcome.Keeps.andThen {outcome : Outcome} {next : TcpServer → Outcome} (h : outcome.Keeps done journals)
    (hnext : outcome.server.Serving done (journals.after outcome.log) →
      (next outcome.server).Keeps done' (journals.after outcome.log)) :
    (outcome.andThen next).Keeps done' journals := by
  obtain ⟨hlawful, hserving⟩ := hnext h.serving
  refine ⟨lawful_append.mpr ⟨h.lawful, hlawful⟩, ?_⟩
  rw [Outcome.andThen, Journals.after_append]
  exact hserving

theorem Outcome.Keeps.append {between other : TcpServer} {later : List Observation}
    (h : Outcome.Keeps ⟨between, log⟩ done journals) (hlater : Outcome.Keeps ⟨other, later⟩ done' (journals.after log)) :
    Outcome.Keeps ⟨other, log ++ later⟩ done' journals :=
  @Outcome.Keeps.andThen _ _ _ ⟨between, log⟩ (fun _ => ⟨other, later⟩) h fun _ => hlater

/-- Only connections, tasks and responses matter. -/
theorem TcpServer.Serving.congr {other : TcpServer} (h : self.Serving done journals)
    (hconnections : other.connections = self.connections) (hnext : other.next_generation = self.next_generation)
    (htasks : other.tasks = self.tasks) (hbusy : other.busy = self.busy)
    (hqueue : other.completed_queue = self.completed_queue) : other.Serving done journals := by
  obtain ⟨hclients, hworkers⟩ := h
  refine ⟨?_, ?_⟩
  · rw [hconnections, hnext, htasks, hbusy, hqueue]
    exact hclients
  · rw [htasks, hbusy, hqueue]
    exact hworkers

theorem TcpServer.Serving.maybe_finish_shutdown (h : self.Serving done journals) :
    self.maybe_finish_shutdown.Serving done journals := by
  unfold TcpServer.maybe_finish_shutdown
  split
  · exact h.congr rfl rfl rfl rfl rfl
  · exact h

theorem TcpServer.Serving.close_connection (h : self.Serving done journals) {reason : CloseReason}
    (hreason : ∀ conn, self.connections[fd]? = some conn → (journals conn.generation).closing = true →
      reason.is_error = true ∨
        (journals conn.generation).Stream (journals conn.generation).total (journals conn.generation).sent) :
    (self.close_connection fd reason).Keeps done journals := by
  unfold TcpServer.close_connection
  cases hconn : self.connections[fd]? with
  | none => exact h.pure
  | some conn =>
    have hlawful : Lawful journals [.removed conn.generation reason] := ⟨hreason conn hconn, trivial⟩
    refine ⟨hlawful, TcpServer.Serving.maybe_finish_shutdown ⟨?_, h.workers.after hlawful (by simp [Observation.Quiet])⟩⟩
    refine @Clients.replace _ _ _ _ _ _ _ _ _ none h.clients hconn ?_ ?_ ⟨nofun, ?_⟩ fun _ _ => rfl
    · intro other
      simp [ExtTreeMap.getElem?_erase]
    · simp [Observation.generation]
    · intro _
      exact congrArg Journal.removed (Journals.record_self (.removed conn.generation reason))

theorem TcpServer.Serving.update_epoll_event (h : self.Serving done journals) (events : Interest) (ok : Bool) :
    (self.update_epoll_event fd events ok).Keeps done journals := by
  unfold TcpServer.update_epoll_event
  split
  · exact TcpServer.Serving.pure (h.congr rfl rfl rfl rfl rfl)
  · exact h.close_connection fun _ _ _ => .inl rfl

/-- A connection changes, with what happens on it meanwhile. -/
theorem TcpServer.Serving.set_conn (h : self.Serving done journals) (hconn : self.connections[fd]? = some conn)
    {conn' : Connection} (hlawful : Lawful journals log)
    (hquiet : ∀ observation ∈ log, observation.Quiet)
    (hlog : ∀ observation ∈ log, observation.generation = conn.generation)
    (hfd : (journals.after log conn.generation).fd = (journals conn.generation).fd)
    (hremoved : (journals.after log conn.generation).removed = (journals conn.generation).removed)
    (hsame : conn'.fd = conn.fd ∧ conn'.generation = conn.generation)
    (hcounted : conn'.Matches (journals.after log conn.generation))
    (htracked : conn'.Tracked (journals.after log conn.generation)
      fun seq => (conn.generation, seq) ∈ tickets (self.tasks ++ self.busy) (done ++ self.completed_queue)) :
    Outcome.Keeps ⟨{ self with connections := self.connections.insert fd conn' }, log⟩ done journals :=
  ⟨hlawful, h.clients.set hconn hlog hfd hremoved hsame hcounted htracked fun _ _ => rfl,
    h.workers.after hlawful hquiet⟩

theorem TcpServer.Serving.handle_write (h : self.Serving done journals) (writes : List SocketWrite) (ok : Bool) :
    (self.handle_write fd writes ok).Keeps done journals := by
  unfold TcpServer.handle_write
  cases hconn : self.connections[fd]? with
  | none => exact h.pure
  | some conn =>
    obtain ⟨hsame, hsent⟩ := TcpServer.write_loop_eq writes conn
    obtain ⟨-, hopened, hlive⟩ := h.clients.known fd conn hconn
    have hcounted := h.clients.counted fd conn hconn
    have htracked := (h.clients.tracked fd conn hconn).send hsent
    have hafter : journals.after [.sent conn.generation fd (TcpServer.write_loop writes conn).sent] conn.generation =
        { journals conn.generation with
          sent := (journals conn.generation).sent ++ (TcpServer.write_loop writes conn).sent } :=
      Journals.record_self (.sent conn.generation fd _)
    rw [← hsame] at htracked
    have hcounted' : (TcpServer.write_loop writes conn).conn.Matches
        (journals.after [.sent conn.generation fd (TcpServer.write_loop writes conn).sent] conn.generation) := by
      rw [hafter, hsame]
      exact ⟨hcounted.total, hcounted.closing, hcounted.failed, hcounted.answered⟩
    have hset : Outcome.Keeps
        ⟨{ self with connections := self.connections.insert fd (TcpServer.write_loop writes conn).conn },
          [.sent conn.generation fd (TcpServer.write_loop writes conn).sent]⟩ done journals := by
      refine h.set_conn hconn ⟨⟨hopened, hlive, conn.next_write_seq, _, (h.clients.tracked fd conn hconn).stream, ?_⟩,
        trivial⟩ (by simp [Observation.Quiet]) (by simp [Observation.generation]) (by rw [hafter]) (by rw [hafter])
        (by rw [hsame]; exact ⟨rfl, rfl⟩) hcounted' (by rw [hafter]; exact htracked)
      rw [← hsent, ← List.append_assoc]
      exact List.prefix_append _ _
    refine hset.andThen fun hserving => ?_
    dsimp only
    have hget : (self.connections.insert fd (TcpServer.write_loop writes conn).conn)[fd]? =
        some (TcpServer.write_loop writes conn).conn := ExtTreeMap.getElem?_insert_self
    split
    · exact hserving.close_connection fun _ _ _ => .inl rfl
    split
    · exact hserving.pure
    split
    · split
      · rename_i hdrained
        refine hserving.close_connection ?_
        intro found hfound _
        cases hget.symm.trans hfound
        exact .inr ((hserving.clients.tracked fd _ hget).drained (hserving.clients.counted fd _ hget) hdrained)
      · exact hserving.update_epoll_event _ ok
    · exact hserving.update_epoll_event _ ok

/-- Requests are parsed while the connection is open to them. -/
theorem parsed_lawful {generation : Nat} (hfailed : (journals generation).failed = false)
    (hclosing : (journals generation).closing = false) (commands : List (List Bytes)) :
    Lawful journals (commands.map (Observation.parsed generation)) ∧
      journals.after (commands.map (Observation.parsed generation)) generation =
        { journals generation with requests := (journals generation).requests ++ commands } := by
  induction commands generalizing journals with
  | nil => exact ⟨trivial, by simp [Journals.after]⟩
  | cons command commands ih =>
    have hself : journals.record (.parsed generation command) generation =
        { journals generation with requests := (journals generation).requests ++ [command] } :=
      Journals.record_self (.parsed generation command)
    have hrest : Lawful (journals.record (.parsed generation command))
          (commands.map (Observation.parsed generation)) ∧
        (journals.record (.parsed generation command)).after (commands.map (Observation.parsed generation)) generation =
          { journals.record (.parsed generation command) generation with
            requests := (journals.record (.parsed generation command) generation).requests ++ commands } :=
      ih (by rw [hself]; exact hfailed) (by rw [hself]; exact hclosing)
    refine ⟨⟨⟨hfailed, hclosing⟩, hrest.1⟩, ?_⟩
    rw [List.map_cons]
    refine hrest.2.trans ?_
    simp [hself]

theorem Connection.mem_tasks_of {task : WorkerTask} {commands : List (List Bytes)} (h : task ∈ conn.tasks_of commands) :
    task.fd = conn.fd ∧ task.generation = conn.generation ∧ ∃ i, task.seq = conn.next_request_seq + i ∧
      commands[i]? = some task.command := by
  obtain ⟨i, hi, rfl⟩ := List.mem_mapIdx.mp h
  exact ⟨rfl, rfl, i, rfl, List.getElem?_eq_getElem hi⟩

theorem Connection.tasks_of_keys (conn : Connection) (commands : List (List Bytes)) :
    (conn.tasks_of commands).map (fun task => (task.generation, task.seq)) =
      (List.range' conn.next_request_seq commands.length).map (Prod.mk conn.generation) := by
  apply List.ext_getElem?
  intro i
  simp only [tasks_of, List.getElem?_map, List.getElem?_mapIdx, Option.map_map]
  by_cases hi : i < commands.length
  · simp [hi]
  · simp [hi]

theorem Connection.tasks_of_commands (conn : Connection) (commands : List (List Bytes)) :
    (conn.tasks_of commands).map WorkerTask.command = commands := by
  apply List.ext_getElem?
  intro i
  simp only [tasks_of, List.getElem?_map, List.getElem?_mapIdx, Option.map_map]
  exact Option.map_id'

theorem tickets_parse (tasks new busy : List WorkerTask) (done : List CompletedTask) :
    (tickets (tasks ++ new ++ busy) done).Perm
      (new.map (fun task => (task.generation, task.seq)) ++ tickets (tasks ++ busy) done) := by
  simp only [tickets, List.map_append, List.append_assoc]
  rw [← List.append_assoc, ← List.append_assoc (new.map _)]
  exact List.perm_append_comm.append_right _

/-- The journal of an open connection. -/
theorem Connection.Matches.is_open {journal : Journal} (h : conn.Matches journal) (hopen : conn.closing = false) :
    journal.failed = false ∧ journal.closing = false ∧ conn.next_request_seq = journal.requests.length := by
  have hclosing : journal.closing = false := h.closing ▸ hopen
  have hfailed : journal.failed = false := by
    cases hfailed : journal.failed with
    | false => rfl
    | true => exact absurd (h.failed hfailed) (by simp [hclosing])
  refine ⟨hfailed, hclosing, ?_⟩
  rw [h.total, Journal.total, hfailed]
  rfl

/-- Parsed requests join the queue of the pool. -/
theorem Workers.parse {tasks busy : List WorkerTask} (h : Workers (tasks ++ busy) done journals)
    (hopened : (journals conn.generation).fd = some conn.fd) (hmatches : conn.Matches (journals conn.generation))
    (hclosing : conn.closing = false)
    (hwaiting : ∀ seq, (conn.generation, seq) ∈ tickets (tasks ++ busy) done → seq < conn.next_request_seq)
    (commands : List (List Bytes)) :
    Workers (tasks ++ conn.tasks_of commands ++ busy) done
      (journals.after (commands.map (Observation.parsed conn.generation))) := by
  obtain ⟨hfailed, hnotclosing, hseq⟩ := hmatches.is_open hclosing
  obtain ⟨hlawful, hafter⟩ := parsed_lawful hfailed hnotclosing commands
  obtain ⟨hrequested, hanswered, hdistinct⟩ := h.after hlawful fun observation hmem => by
    obtain ⟨command, -, rfl⟩ := List.mem_map.mp hmem
    trivial
  refine ⟨?_, hanswered, ?_⟩
  · intro task htask
    by_cases hnew : task ∈ conn.tasks_of commands
    · obtain ⟨hfd, hgeneration, i, htask, hcommand⟩ := Connection.mem_tasks_of hnew
      rw [hgeneration, hafter, hfd, htask, hseq]
      refine ⟨?_, hmatches.answered _ (Nat.le_add_right _ _), hopened⟩
      rw [List.getElem?_append_right (Nat.le_add_right _ _), Nat.add_sub_cancel_left]
      exact hcommand
    · refine hrequested task ?_
      simp only [List.mem_append, hnew, or_false] at htask ⊢
      exact htask
  · rw [(tickets_parse tasks _ busy done).nodup_iff, Connection.tasks_of_keys, List.nodup_append]
    refine ⟨List.Nodup.map (Prod.mk_right_injective _) (List.nodup_range' ..), hdistinct, ?_⟩
    rintro ⟨_, seq⟩ hnew _ hold rfl
    obtain ⟨other, hother, heq⟩ := List.mem_map.mp hnew
    cases heq
    obtain ⟨i, -, rfl⟩ := List.mem_range'.mp hother
    have hlt := hwaiting _ hold
    omega

theorem mem_tickets_parse {tasks busy : List WorkerTask} (conn : Connection) (commands : List (List Bytes))
    (generation seq : Nat) :
    (generation, seq) ∈ tickets (tasks ++ conn.tasks_of commands ++ busy) done ↔
      (generation, seq) ∈ tickets (tasks ++ busy) done ∨ generation = conn.generation ∧
        conn.next_request_seq ≤ seq ∧ seq < conn.next_request_seq + commands.length := by
  rw [(tickets_parse tasks _ busy done).mem_iff, Connection.tasks_of_keys, List.mem_append, or_comm]
  simp [eq_comm, and_comm, and_assoc]

/-- Commands that have been read go to the pool, and the connection counts them. -/
theorem TcpServer.Serving.request (h : self.Serving done journals) (hconn : self.connections[fd]? = some conn)
    (hopen : conn.closing = false) (commands : List (List Bytes)) (parser : RESPParser)
    (input_buffer : NetworkBuffer) :
    Outcome.Keeps
      ⟨{ self with
          connections := self.connections.insert fd
            { conn with
              parser := parser
              input_buffer := input_buffer
              next_request_seq := conn.next_request_seq + commands.length }
          tasks := self.tasks ++ conn.tasks_of commands },
        commands.map (Observation.parsed conn.generation)⟩ done journals := by
  obtain ⟨hsame, hopened, -⟩ := h.clients.known fd conn hconn
  have hcounted := h.clients.counted fd conn hconn
  have htracked := h.clients.tracked fd conn hconn
  obtain ⟨hfailed, hnotclosing, hseq⟩ := hcounted.is_open hopen
  obtain ⟨hlawful, hafter⟩ := parsed_lawful hfailed hnotclosing commands
  have hworkers := h.workers.parse (hsame.symm ▸ hopened) hcounted hopen (fun seq hseq => (htracked.awaited seq hseq).2.1)
    commands
  refine ⟨hlawful, ?_, hworkers⟩
  have hlog : ∀ observation ∈ commands.map (Observation.parsed conn.generation),
      observation.generation = conn.generation := by
    intro observation hmem
    obtain ⟨command, -, rfl⟩ := List.mem_map.mp hmem
    rfl
  refine h.clients.set hconn hlog (by rw [hafter]) (by rw [hafter]) ⟨rfl, rfl⟩ ?_ ?_ ?_
  · rw [hafter]
    refine ⟨?_, hcounted.closing, hcounted.failed, ?_⟩
    · simp only [Journal.total, hfailed, List.length_append]
      rw [hseq]
      rfl
    · intro seq hle
      rw [List.length_append] at hle
      exact hcounted.answered seq (by omega)
  · have hparsed := htracked.parse commands.length (fun _ _ => hlawful.resp) (by rw [hafter]) parser input_buffer
    have hwaiting : ∀ seq, (conn.generation, seq) ∈
        tickets (self.tasks ++ conn.tasks_of commands ++ self.busy) (done ++ self.completed_queue) ↔
        (conn.generation, seq) ∈ tickets (self.tasks ++ self.busy) (done ++ self.completed_queue) ∨
          conn.next_request_seq ≤ seq ∧ seq < conn.next_request_seq + commands.length := by
      intro seq
      rw [mem_tickets_parse]
      simp only [true_and]
    simp only [hwaiting]
    exact hparsed
  · intro generation hne
    funext seq
    rw [mem_tickets_parse]
    simp only [hne, false_and, or_false]

/-- Closing forgets the connection. -/
theorem TcpServer.close_connection_insert {conn' : Connection} (hgeneration : conn'.generation = conn.generation)
    (reason : CloseReason) :
    { self with connections := self.connections.insert fd conn' }.close_connection fd reason =
      { self with connections := self.connections.insert fd conn }.close_connection fd reason := by
  simp only [close_connection, ExtTreeMap.getElem?_insert_self, erase_insert, hgeneration]

/-- The pool refuses a command, and the connection is closed. -/
theorem TcpServer.Serving.refuse (h : self.Serving done journals) (hconn : self.connections[fd]? = some conn)
    (hopen : conn.closing = false) (commands : List (List Bytes)) {conn' : Connection}
    (hgeneration : conn'.generation = conn.generation) :
    Outcome.Keeps
      (Outcome.andThen
        ⟨{ self with
            connections := self.connections.insert fd conn'
            tasks := self.tasks ++ conn.tasks_of commands },
          commands.map (Observation.parsed conn.generation)⟩ (·.close_connection fd .enqueue_failed))
      done journals := by
  have hrequest := h.request hconn hopen commands conn.parser conn.input_buffer
  have hclosed := @TcpServer.Serving.close_connection _ _ _ fd hrequest.serving .enqueue_failed ?_
  · have hclose := @close_connection_insert { self with tasks := self.tasks ++ conn.tasks_of commands } fd
      { conn with next_request_seq := conn.next_request_seq + commands.length } conn' hgeneration .enqueue_failed
    dsimp only at hclosed hclose
    rw [← hclose] at hclosed
    exact hrequest.append hclosed
  · intro found hfound hclosing
    cases ExtTreeMap.getElem?_insert_self.symm.trans hfound
    rw [← (hrequest.serving.clients.counted fd _ hfound).closing, hopen] at hclosing
    cases hclosing

/-- A protocol error ends the requests of a connection. -/
theorem TcpServer.Serving.fail_connection_protocol (h : self.Serving done journals)
    (hconn : self.connections[fd]? = some conn) (hopen : conn.closing = false) :
    Outcome.Keeps
      ⟨{ self with connections := self.connections.insert fd conn.fail_connection_protocol },
        [.protocol_error conn.generation, .closing conn.generation]⟩ done journals := by
  have hcounted := h.clients.counted fd conn hconn
  obtain ⟨hfailed, hnotclosing, hseq⟩ := hcounted.is_open hopen
  have hlawful : Lawful journals [.protocol_error conn.generation, .closing conn.generation] :=
    ⟨⟨hfailed, hnotclosing⟩, trivial, trivial⟩
  have hlog : ∀ observation ∈ [Observation.protocol_error conn.generation, .closing conn.generation],
      observation.generation = conn.generation := by
    simp [Observation.generation]
  have hafter : journals.after [.protocol_error conn.generation, .closing conn.generation] conn.generation =
      { journals conn.generation with failed := true, closing := true } := Journals.after_self hlog
  refine h.set_conn hconn hlawful (by simp [Observation.Quiet]) hlog (by rw [hafter]) (by rw [hafter])
    ⟨Connection.fail_connection_protocol_fd _, Connection.fail_connection_protocol_generation _⟩ ?_ ?_
  · rw [hafter]
    refine ⟨?_, Connection.fail_connection_protocol_closing _, fun _ => rfl, hcounted.answered⟩
    rw [Connection.fail_connection_protocol_next, hseq]
    rfl
  · refine (h.clients.tracked fd conn hconn).fail_connection_protocol (fun _ _ => hlawful.resp) (by rw [hafter]) ?_
    rw [hafter, hseq]
    simp [Journal.resp]

/-- Commands that have been read, and then a protocol error. -/
theorem TcpServer.Serving.request_failed (h : self.Serving done journals)
    (hconn : self.connections[fd]? = some conn) (hopen : conn.closing = false) (commands : List (List Bytes))
    (parser : RESPParser) (input_buffer : NetworkBuffer) :
    Outcome.Keeps
      ⟨{ self with
          connections := self.connections.insert fd
            { conn with
              parser := parser
              input_buffer := input_buffer
              next_request_seq := conn.next_request_seq + commands.length }.fail_connection_protocol
          tasks := self.tasks ++ conn.tasks_of commands },
        commands.map (Observation.parsed conn.generation) ++
          [.protocol_error conn.generation, .closing conn.generation]⟩ done journals := by
  have hrequest := h.request hconn hopen commands parser input_buffer
  have hfailed := hrequest.serving.fail_connection_protocol ExtTreeMap.getElem?_insert_self hopen
  dsimp only at hfailed
  rw [insert_insert] at hfailed
  exact hrequest.append hfailed

theorem TcpServer.Serving.handle_read (h : self.Serving done journals) (read : SocketRead) (accepts : Nat → Bool)
    (ok : Bool) : (self.handle_read fd read accepts ok).Keeps done journals := by
  unfold TcpServer.handle_read
  cases hconn : self.connections[fd]? with
  | none => exact h.pure
  | some conn =>
    dsimp only
    split
    · exact h.pure
    rename_i hclosing
    have hopen : conn.closing = false := by simpa using hclosing
    have hclose : ∀ reason, (self.close_connection fd reason).Keeps done journals := by
      intro reason
      refine h.close_connection ?_
      intro found hfound hclosed
      cases hconn.symm.trans hfound
      rw [← (h.clients.counted fd conn hconn).closing, hopen] at hclosed
      cases hclosed
    cases read with
    | unavailable => exact h.pure
    | failed => exact hclose _
    | data bytes =>
      dsimp only
      split
      · exact hclose _
      obtain ⟨commands, htasks, -, hgeneration, hcases⟩ := conn.receive_cases accepts bytes hopen
      have hparsed : (conn.receive accepts bytes).tasks.map
          (fun task => Observation.parsed conn.generation task.command) =
          commands.map (Observation.parsed conn.generation) := by
        rw [htasks]
        exact List.map_map.symm.trans (congrArg (List.map _) (conn.tasks_of_commands commands))
      rw [hparsed, htasks]
      rcases hcases with hrefused | ⟨haccepted, parser, input_buffer, counted, rfl, hresult⟩
      · rw [if_pos hrefused]
        exact h.refuse hconn hopen commands hgeneration
      · rw [if_neg (by simp [haccepted])]
        have hrequest := h.request hconn hopen commands parser input_buffer
        rcases hresult with hresult | hresult
        · rw [hresult, if_neg (by simp [hopen])]
          exact hrequest
        · rw [hresult, if_pos (by simp)]
          exact (h.request_failed hconn hopen commands parser input_buffer).andThen fun hserving =>
            hserving.update_epoll_event _ ok

end

end NovaKV
