import NovaKV.Network.EventLoop

open Std
open NovaKV.Lib

namespace NovaKV

section

variable {self : TcpServer} {done : List CompletedTask} {pool : List WorkerTask} {journals : Journals} {fd : Nat}

theorem tickets_cons (pool : List WorkerTask) (task : CompletedTask) (done : List CompletedTask) :
    (tickets pool (task :: done)).Perm ((task.generation, task.seq) :: tickets pool done) := by
  rw [tickets, List.map_cons]
  exact List.perm_middle

/-- The way of a request ends with its response. -/
theorem Workers.leave {task : CompletedTask} (h : Workers pool (task :: done) journals) :
    Workers pool done journals ∧ ∀ generation seq, (generation, seq) ∈ tickets pool done ↔
      (generation, seq) ∈ tickets pool (task :: done) ∧ (generation, seq) ≠ (task.generation, task.seq) := by
  have hdistinct := (tickets_cons pool task done).nodup_iff.mp h.distinct
  rw [List.nodup_cons] at hdistinct
  refine ⟨⟨h.requested, fun other hother => h.answered other (List.mem_cons_of_mem _ hother), hdistinct.2⟩, ?_⟩
  intro generation seq
  rw [(tickets_cons pool task done).mem_iff, List.mem_cons]
  constructor
  · intro hmem
    refine ⟨.inr hmem, ?_⟩
    intro heq
    exact hdistinct.1 (heq ▸ hmem)
  · rintro ⟨heq | hmem, hne⟩
    · exact absurd heq hne
    · exact hmem

theorem TcpServer.Serving.leave {task : CompletedTask} (h : self.Serving (task :: done) journals) :
    Workers (self.tasks ++ self.busy) (done ++ self.completed_queue) journals ∧
      ∀ generation seq,
        (generation, seq) ∈ tickets (self.tasks ++ self.busy) (done ++ self.completed_queue) ↔
          (generation, seq) ∈ tickets (self.tasks ++ self.busy) (task :: done ++ self.completed_queue) ∧
            (generation, seq) ≠ (task.generation, task.seq) := Workers.leave h.workers

/-- A response for a connection that is gone is dropped. -/
theorem TcpServer.Serving.ignore {task : CompletedTask} (h : self.Serving (task :: done) journals)
    (hgone : ∀ conn, self.connections[task.fd]? = some conn → conn.generation ≠ task.generation) :
    self.Serving done journals := by
  obtain ⟨hworkers, hleave⟩ := h.leave
  refine ⟨h.clients.congr_waiting ?_, hworkers⟩
  intro other conn hconn
  have hne : conn.generation ≠ task.generation := by
    intro hgeneration
    have hopened := (h.clients.known other conn hconn).2.1
    rw [hgeneration, (h.workers.answered task List.mem_cons_self).2] at hopened
    cases hopened
    exact hgone conn hconn hgeneration
  funext seq
  rw [hleave, ne_eq, Prod.mk.injEq]
  simp [hne]

/-- A response goes to the output of its connection, as soon as its turn has come. -/
theorem TcpServer.Serving.complete_one {task : CompletedTask} (h : self.Serving (task :: done) journals) (ok : Bool) :
    (self.complete_one task ok).Keeps done journals := by
  unfold TcpServer.complete_one
  cases hconn : self.connections[task.fd]? with
  | none => exact TcpServer.Serving.pure (h.ignore (by simp [hconn]))
  | some conn =>
    dsimp only
    split
    · rename_i hne
      refine TcpServer.Serving.pure (h.ignore ?_)
      intro found hfound
      cases hconn.symm.trans hfound
      exact hne
    rename_i heq
    have hgeneration : conn.generation = task.generation := by simpa using heq
    obtain ⟨hworkers, hleave⟩ := h.leave
    obtain ⟨-, hopened, hlive⟩ := h.clients.known _ conn hconn
    obtain ⟨htotal, hclosing, hfailed, hanswered⟩ := h.clients.counted _ conn hconn
    obtain ⟨hresponse, -⟩ := h.workers.answered task List.mem_cons_self
    have hwaiting : (conn.generation, task.seq) ∈
        tickets (self.tasks ++ self.busy) (task :: done ++ self.completed_queue) := by
      rw [List.cons_append, (tickets_cons _ task _).mem_iff, hgeneration]
      exact List.mem_cons_self
    have htracked := ((h.clients.tracked _ conn hconn).complete hwaiting (hgeneration ▸ hresponse)).append_ready
    have hsame := Connection.append_ready_loop_same
      (conn.pending_responses.insertIfNew task.seq task.response).size
      { conn with pending_responses := conn.pending_responses.insertIfNew task.seq task.response }
    obtain ⟨hfd, hown, hready, hseq⟩ := hsame
    have hserving : TcpServer.Serving { self with
        connections := self.connections.insert task.fd
          (Connection.append_ready
            { conn with pending_responses := conn.pending_responses.insertIfNew task.seq task.response }) }
        done journals := by
      refine ⟨?_, hworkers⟩
      refine @Clients.set _ [] _ _ _ _ _ _ _ h.clients hconn nofun rfl rfl ⟨hfd, hown⟩
        ⟨hseq.trans htotal, hready.trans hclosing, hfailed, hanswered⟩ ?_ ?_
      · have hrest : (fun seq => (conn.generation, seq) ∈
            tickets (self.tasks ++ self.busy) (done ++ self.completed_queue)) = fun seq =>
            (conn.generation, seq) ∈ tickets (self.tasks ++ self.busy) (task :: done ++ self.completed_queue) ∧
              seq ≠ task.seq := by
          funext seq
          rw [hleave, hgeneration]
          simp
        simp only [hrest]
        exact htracked
      · intro generation hne
        rw [hgeneration] at hne
        funext seq
        rw [hleave, ne_eq, Prod.mk.injEq]
        simp [hne]
    split
    · exact hserving.update_epoll_event _ ok
    · exact hserving.pure

theorem TcpServer.Serving.complete_loop (tasks : List (CompletedTask × Bool))
    (h : self.Serving (tasks.map Prod.fst) journals) : (TcpServer.complete_loop tasks self).Keeps [] journals := by
  induction tasks generalizing self journals with
  | nil => exact h.maybe_finish_shutdown.pure
  | cons task tasks ih =>
    obtain ⟨task, ok⟩ := task
    have hfirst : (self.complete_one task ok).Keeps (tasks.map Prod.fst) journals := h.complete_one ok
    exact hfirst.andThen ih

theorem TcpServer.Serving.handle_worker_completions (h : self.Serving [] journals) (ok : Nat → Bool) :
    (self.handle_worker_completions ok).Keeps [] journals := by
  unfold TcpServer.handle_worker_completions
  split
  · exact h.pure
  · have hqueue : (self.completed_queue.mapIdx fun index task => (task, ok index)).map Prod.fst =
        self.completed_queue := by
      apply List.ext_getElem?
      intro i
      simp only [List.getElem?_map, List.getElem?_mapIdx, Option.map_map]
      exact Option.map_id'
    apply TcpServer.Serving.complete_loop
    rw [hqueue]
    exact ⟨by simpa using h.clients, by simpa using h.workers⟩

@[simp] theorem TcpServer.maybe_finish_shutdown_connections (self : TcpServer) :
    self.maybe_finish_shutdown.connections = self.connections := by
  unfold maybe_finish_shutdown
  split <;> rfl

theorem TcpServer.close_connection_connections (self : TcpServer) (fd : Nat) (reason : CloseReason) (other : Nat) :
    (self.close_connection fd reason).server.connections[other]? =
      if fd = other then none else self.connections[other]? := by
  unfold close_connection
  cases hconn : self.connections[fd]? with
  | none =>
    dsimp only
    split
    · rename_i heq
      exact heq ▸ hconn
    · rfl
  | some conn => simp [ExtTreeMap.getElem?_erase]

/-- A connection that `Stop` may close: an error occurred, or it is drained. -/
def TcpServer.Closable (self : TcpServer) (entry : Nat × CloseReason) : Prop :=
  entry.2.is_error = true ∨ ∀ conn, self.connections[entry.1]? = some conn → conn.drained = true

theorem TcpServer.Serving.close_loop (to_close : List (Nat × CloseReason)) (h : self.Serving done journals)
    (hclosable : ∀ entry ∈ to_close, self.Closable entry) :
    (TcpServer.close_loop to_close self).Keeps done journals := by
  induction to_close generalizing self journals with
  | nil => exact h.maybe_finish_shutdown.pure
  | cons entry rest ih =>
    obtain ⟨fd, reason⟩ := entry
    have hfirst : (self.close_connection fd reason).Keeps done journals := by
      refine h.close_connection ?_
      intro conn hconn _
      refine (hclosable _ List.mem_cons_self).imp_right fun hdrained => ?_
      exact (h.clients.tracked fd conn hconn).drained (h.clients.counted fd conn hconn) (hdrained conn hconn)
    refine hfirst.andThen fun hserving => ih hserving ?_
    intro entry hentry
    refine (hclosable entry (List.mem_cons_of_mem _ hentry)).imp_right fun hdrained conn hconn => ?_
    rw [TcpServer.close_connection_connections] at hconn
    split at hconn
    · cases hconn
    · exact hdrained conn hconn

theorem TcpServer.Serving.stop_one (h : self.Serving done journals) (ok : Bool) :
    (self.stop_one fd ok).1.Keeps done journals := by
  unfold TcpServer.stop_one
  cases hconn : self.connections[fd]? with
  | none => exact h.pure
  | some conn =>
    obtain ⟨htotal, hclosing, hfailed, hanswered⟩ := h.clients.counted fd conn hconn
    obtain ⟨hle, hstream, hpending, hawaited, hcovered⟩ := h.clients.tracked fd conn hconn
    have hlog : ∀ observation ∈ [Observation.closing conn.generation],
        observation.generation = conn.generation := by
      simp [Observation.generation]
    have hafter : journals.after [.closing conn.generation] conn.generation =
        { journals conn.generation with closing := true } := Journals.after_self hlog
    have hset : Outcome.Keeps
        ⟨{ self with
            connections := self.connections.insert fd
              { conn with closing := true, input_buffer := conn.input_buffer.retrieve_all } },
          [.closing conn.generation]⟩ done journals := by
      refine h.set_conn hconn ⟨trivial, trivial⟩ (by simp [Observation.Quiet]) hlog (by rw [hafter]) (by rw [hafter])
        ⟨rfl, rfl⟩ ?_ ?_
      · rw [hafter]
        exact ⟨htotal, rfl, fun _ => rfl, hanswered⟩
      · rw [hafter]
        exact ⟨hle, hstream, hpending, hawaited, hcovered⟩
    dsimp only
    split
    · exact hset
    split
    · exact ⟨hset.lawful, hset.serving.congr rfl rfl rfl rfl rfl⟩
    · exact hset

/-- `Stop` keeps what is drained drained. -/
theorem TcpServer.stop_one_closable {entry : Nat × CloseReason} (h : self.Closable entry) (fd : Nat) (ok : Bool) :
    (self.stop_one fd ok).1.server.Closable entry := by
  refine h.imp_right fun hdrained found hfound => ?_
  unfold stop_one at hfound
  cases hconn : self.connections[fd]? with
  | none =>
    rw [hconn] at hfound
    exact hdrained found hfound
  | some conn =>
    have hget : (self.connections.insert fd
        { conn with closing := true, input_buffer := conn.input_buffer.retrieve_all })[entry.1]? = some found := by
      rw [hconn] at hfound
      dsimp only at hfound
      split_ifs at hfound <;> exact hfound
    rw [ExtTreeMap.getElem?_insert] at hget
    split at hget
    · rename_i heq
      cases hget
      have hsame := LawfulEqCmp.eq_of_compare heq
      exact hdrained conn (hsame ▸ hconn)
    · exact hdrained found hget

theorem TcpServer.stop_one_reason (self : TcpServer) (fd : Nat) (ok : Bool) {reason : CloseReason}
    (hreason : (self.stop_one fd ok).2 = some reason) : (self.stop_one fd ok).1.server.Closable (fd, reason) := by
  unfold stop_one at hreason ⊢
  cases hconn : self.connections[fd]? with
  | none =>
    rw [hconn] at hreason
    cases hreason
  | some conn =>
    rw [hconn] at hreason
    dsimp only at hreason ⊢
    split_ifs at hreason ⊢ with hdrained hok
    · refine .inr fun found hfound => ?_
      cases ExtTreeMap.getElem?_insert_self.symm.trans hfound
      exact hdrained
    · cases hreason
      exact .inl rfl

theorem TcpServer.Serving.stop_loop (ok : Nat → Bool) (fds : List Nat) {to_close : List (Nat × CloseReason)}
    (h : self.Serving done journals) (hclosable : ∀ entry ∈ to_close, self.Closable entry) :
    (TcpServer.stop_loop ok fds to_close self).Keeps done journals := by
  induction fds generalizing self journals to_close with
  | nil => exact h.close_loop to_close hclosable
  | cons fd fds ih =>
    refine (h.stop_one (ok fd)).andThen fun hserving => ih hserving ?_
    intro entry hentry
    rcases List.mem_append.mp hentry with hold | hnew
    · exact TcpServer.stop_one_closable (hclosable entry hold) fd (ok fd)
    · simp only [Option.mem_toList, Option.map_eq_some_iff] at hnew
      obtain ⟨reason, hreason, rfl⟩ := hnew
      exact self.stop_one_reason fd (ok fd) hreason

theorem TcpServer.Serving.stop (h : self.Serving done journals) (ok : Nat → Bool) :
    (self.stop ok).Keeps done journals := by
  unfold TcpServer.stop
  split
  · exact h.pure
  · have hstopping : TcpServer.Serving { self with stopping := true, listening := false } done journals :=
      h.congr rfl rfl rfl rfl rfl
    exact hstopping.stop_loop ok _ nofun

/-- Nothing is on its way for a connection that has not been opened. -/
theorem Workers.no_ticket {generation : Nat} (h : Workers pool done journals)
    (hempty : journals generation = .empty) (seq : Nat) : (generation, seq) ∉ tickets pool done := by
  intro hmem
  rcases List.mem_append.mp hmem with hpool | hdone
  · obtain ⟨task, htask, heq⟩ := List.mem_map.mp hpool
    cases heq
    have hrequested := (h.requested task htask).1
    rw [hempty] at hrequested
    cases hrequested
  · obtain ⟨task, htask, heq⟩ := List.mem_map.mp hdone
    cases heq
    have hfd := (h.answered task htask).2
    rw [hempty] at hfd
    cases hfd

theorem TcpServer.Serving.accept_one (h : self.Serving done journals) (accepted : Accepted) :
    (self.accept_one accepted).Keeps done journals := by
  unfold TcpServer.accept_one
  have hempty := h.clients.fresh self.next_generation (Nat.le_refl _)
  have hskipped : TcpServer.Serving { self with next_generation := self.next_generation + 1 } done journals :=
    ⟨{ h.clients with fresh := fun generation hle => h.clients.fresh generation (Nat.le_of_succ_le hle) },
      h.workers⟩
  dsimp only
  split
  · exact h.pure
  split
  · exact hskipped.pure
  split
  · exact hskipped.pure
  · rename_i hfd _
    obtain ⟨hlawful, hclients⟩ := h.clients.opened hfd (h.workers.no_ticket hempty)
    exact ⟨⟨hlawful, trivial⟩, hclients, h.workers.record hlawful trivial⟩

theorem TcpServer.Serving.accept_loop (accepted : List Accepted) (h : self.Serving done journals) :
    (TcpServer.accept_loop accepted self).Keeps done journals := by
  induction accepted generalizing self journals with
  | nil => exact h.pure
  | cons accepted rest ih => exact (h.accept_one accepted).andThen ih

theorem TcpServer.Serving.handle_accept (h : self.Serving done journals) (accepted : List Accepted) :
    (self.handle_accept accepted).Keeps done journals := by
  unfold TcpServer.handle_accept
  split
  · exact h.accept_loop accepted
  · exact h.pure

theorem TcpServer.Serving.handle_connection_event (h : self.Serving done journals) (events : Ready)
    (read : SocketRead) (writes : List SocketWrite) (accepts : Nat → Bool) (read_ok write_ok : Bool) :
    (self.handle_connection_event fd events read writes accepts read_ok write_ok).Keeps done journals := by
  unfold TcpServer.handle_connection_event
  split
  · exact h.pure
  split
  · exact h.close_connection fun _ _ _ => .inl rfl
  have hread : (if events.EPOLLIN then self.handle_read fd read accepts read_ok else ⟨self, []⟩).Keeps done journals := by
    split
    · exact h.handle_read read accepts read_ok
    · exact h.pure
  refine hread.andThen fun hserving => ?_
  split
  · exact hserving.handle_write writes write_ok
  · exact hserving.pure

/-- The order of the tasks does not matter. -/
theorem TcpServer.Serving.perm {other : TcpServer} (h : self.Serving done journals)
    (hperm : (other.tasks ++ other.busy).Perm (self.tasks ++ self.busy))
    (hconnections : other.connections = self.connections) (hnext : other.next_generation = self.next_generation)
    (hqueue : other.completed_queue = self.completed_queue) : other.Serving done journals := by
  have htickets : (tickets (other.tasks ++ other.busy) (done ++ other.completed_queue)).Perm
      (tickets (self.tasks ++ self.busy) (done ++ self.completed_queue)) := by
    rw [hqueue]
    exact (hperm.map _).append_right _
  refine ⟨?_, fun task htask => h.workers.requested task (hperm.mem_iff.mp htask), ?_, ?_⟩
  · rw [hconnections, hnext]
    refine h.clients.congr_waiting fun _ conn _ => ?_
    funext seq
    rw [htickets.mem_iff]
  · rw [hqueue]
    exact h.workers.answered
  · rw [htickets.nodup_iff]
    exact h.workers.distinct

theorem TcpServer.Serving.worker_start (h : self.Serving done journals) : self.worker_start.Keeps done journals := by
  unfold TcpServer.worker_start
  cases htasks : self.tasks with
  | nil => exact h.pure
  | cons task rest =>
    dsimp only
    split
    · refine TcpServer.Serving.pure (h.perm ?_ rfl rfl rfl)
      rw [htasks, ← List.append_assoc, List.cons_append]
      exact List.perm_append_singleton _ _
    · exact h.pure

/-- A worker has finished the first task. -/
theorem Workers.respond {task : WorkerTask} (h : Workers (task :: pool) done journals) (response : Bytes) :
    Observation.Lawful journals (.responded task response) ∧
      Workers pool (done ++ [⟨task.fd, task.generation, task.seq, response⟩])
        (journals.record (.responded task response)) ∧
      (tickets pool (done ++ [⟨task.fd, task.generation, task.seq, response⟩])).Perm
        (tickets (task :: pool) done) := by
  obtain ⟨hrequest, hnone, hfd⟩ := h.requested task List.mem_cons_self
  have hlawful : Observation.Lawful journals (.responded task response) := ⟨hrequest, hnone⟩
  have hself : journals.record (.responded task response) task.generation =
      { journals task.generation with
        responses := (journals task.generation).responses ++ [(task.seq, response)] } :=
    Journals.record_self (.responded task response)
  have hothers : ∀ generation, task.generation ≠ generation →
      journals.record (.responded task response) generation = journals generation :=
    fun _ hne => Journals.record_other hne
  have hperm : (tickets pool (done ++ [⟨task.fd, task.generation, task.seq, response⟩])).Perm
      (tickets (task :: pool) done) := by
    simp only [tickets, List.map_append, List.map_cons, List.map_nil, ← List.append_assoc]
    exact List.perm_append_singleton _ _
  refine ⟨hlawful, ⟨?_, ?_, hperm.nodup_iff.mpr h.distinct⟩, hperm⟩
  · intro other hother
    obtain ⟨hrequested, hunanswered, hopened⟩ := h.requested other (List.mem_cons_of_mem _ hother)
    by_cases hgeneration : task.generation = other.generation
    · have hne : other.seq ≠ task.seq := by
        intro hseq
        have hdistinct := h.distinct
        simp only [tickets, List.map_cons, List.cons_append, List.nodup_cons] at hdistinct
        refine hdistinct.1 (List.mem_append_left _ (List.mem_map.mpr ⟨other, hother, ?_⟩))
        rw [hgeneration, hseq]
      rw [← hgeneration] at hrequested hunanswered hopened ⊢
      rw [hself]
      refine ⟨hrequested, ?_, hopened⟩
      rw [List.lookup_append, hunanswered, lookup_cons_of_ne hne]
      rfl
    · rw [hothers _ hgeneration]
      exact ⟨hrequested, hunanswered, hopened⟩
  · intro other hother
    rcases List.mem_append.mp hother with hold | hnew
    · obtain ⟨hresp, hopened⟩ := h.answered other hold
      have hlog : Lawful journals [.responded task response] := ⟨hlawful, trivial⟩
      refine ⟨hlog.resp hresp, ?_⟩
      by_cases hgeneration : task.generation = other.generation
      · rw [← hgeneration] at hopened ⊢
        rw [hself]
        exact hopened
      · rw [hothers _ hgeneration]
        exact hopened
    · cases List.mem_singleton.mp hnew
      dsimp only
      rw [hself]
      refine ⟨?_, hfd⟩
      obtain ⟨hlt, -⟩ := List.getElem?_eq_some_iff.mp hrequest
      have hresp := @Journal.resp_of_lt { journals task.generation with
        responses := (journals task.generation).responses ++ [(task.seq, response)] } task.seq hlt
      refine hresp.trans ?_
      rw [List.lookup_append, hnone]
      simp

theorem TcpServer.Serving.worker_finish (h : self.Serving [] journals) (index : Nat) (response : Bytes) :
    (self.worker_finish index response).Keeps [] journals := by
  unfold TcpServer.worker_finish
  cases htask : self.busy[index]? with
  | none => exact h.pure
  | some task =>
    obtain ⟨hlt, hget⟩ := List.getElem?_eq_some_iff.mp htask
    have hbusy : (task :: self.busy.eraseIdx index).Perm self.busy := by
      rw [← hget]
      exact List.getElem_cons_eraseIdx_perm hlt
    have hpool : (task :: (self.tasks ++ self.busy.eraseIdx index)).Perm (self.tasks ++ self.busy) :=
      List.perm_middle.symm.trans (hbusy.append_left _)
    have hfirst : TcpServer.Serving
        { self with tasks := task :: self.tasks, busy := self.busy.eraseIdx index } [] journals :=
      h.perm hpool rfl rfl rfl
    obtain ⟨hlawful, hworkers, htickets⟩ := hfirst.workers.respond response
    refine ⟨⟨hlawful, trivial⟩, (hfirst.clients.responded hlawful).congr_waiting ?_, hworkers⟩
    intro _ conn _
    funext seq
    exact propext htickets.mem_iff

/-- The server serves before an event and after it. -/
theorem TcpServer.Serving.step (h : self.Serving [] journals) (event : ServerEvent) :
    (self.step event).Keeps [] journals := by
  cases event with
  | accept accepted => exact h.handle_accept accepted
  | connection fd events read writes accepts read_ok write_ok =>
    exact h.handle_connection_event events read writes accepts read_ok write_ok
  | completions ok => exact h.handle_worker_completions ok
  | stop ok => exact h.stop ok
  | worker_start => exact h.worker_start
  | worker_finish index response => exact h.worker_finish index response

theorem TcpServer.serving_start : TcpServer.start.Serving [] Journals.empty := by
  refine ⟨⟨?_, ?_, fun _ _ => rfl, ?_, ?_⟩, ⟨nofun, nofun, List.nodup_nil⟩⟩
  all_goals simp [TcpServer.start, Journals.empty, Journal.empty]

/-- Every observation of a run is lawful, and the server serves at its end. -/
theorem TcpServer.run_keeps (events : List ServerEvent) : (TcpServer.run events).Keeps [] Journals.empty := by
  have hrun : ∀ outcome : Outcome, outcome.Keeps [] Journals.empty →
      (events.foldl (fun outcome event => outcome.andThen (·.step event)) outcome).Keeps [] Journals.empty := by
    induction events with
    | nil => exact fun _ h => h
    | cons event events ih => exact fun outcome h => ih _ (h.andThen fun hserving => hserving.step event)
  exact hrun _ TcpServer.serving_start.pure

end

end NovaKV
