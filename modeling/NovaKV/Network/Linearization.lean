import NovaKV.Network.Service

open Std
open NovaKV.Lib

namespace NovaKV

/-- The map that requests leave when they take effect one after another. -/
def served (start : ExtTreeMap Key Bytes) (tasks : List WorkerTask) : ExtTreeMap Key Bytes :=
  (serve start (tasks.map (·.command))).1

/-- The connection of a task and its number there. -/
def WorkerTask.ticket (task : WorkerTask) : Nat × Nat := (task.generation, task.seq)

/-- What explains an occurrence after others: a request takes effect once, after it was
parsed, and the response is that of the map on which the requests took effect before. -/
def Occurrence.Explained (start : ExtTreeMap Key Bytes) (before : List Occurrence) : Occurrence → Prop
  | .effect task => task.ticket ∉ (effects before).map WorkerTask.ticket ∧
    (Journals.empty.after (observations before) task.generation).requests[task.seq]? = some task.command
  | .server (.responded task response) => ∃ first later, effects before = first ++ task :: later ∧
    response = ((request task.command).serve (served start first)).2.bytes
  | .server _ => True

/-- What a log says when the service behaves as one ordered map. Each request takes
effect at most once, after it was parsed and before its response is there, and the
response is that of the map on which the earlier effects were made in their order. A
request that is parsed after a response takes effect after the request of that response. -/
structure Linearizes (start : ExtTreeMap Key Bytes) (log : List Occurrence) : Prop where
  once : ((effects log).map WorkerTask.ticket).Nodup
  parsed : ∀ before task, before ++ [.effect task] <+: log →
    (Journals.empty.after (observations before) task.generation).requests[task.seq]? = some task.command
  replied : ∀ before task response, before ++ [.server (.responded task response)] <+: log →
    ∃ first later, effects before = first ++ task :: later ∧
      response = ((request task.command).serve (served start first)).2.bytes
  real_time : ∀ before task response other, before ++ [.server (.responded task response)] <+: log →
    (Journals.empty.after (observations before) other.generation).requests[other.seq]? = none →
      other ∈ effects log → ∃ first between later, effects log = first ++ task :: between ++ other :: later

/-- Before it takes effect, a worker has its whole request to do, and afterwards it holds
the response of the map at that moment. -/
inductive Job.Fits (job : Job) (task : WorkerTask) (start : ExtTreeMap Key Bytes) (done : List WorkerTask)
    (writer : Option WalRecord) : Prop
  | waiting (calls : job.calls = (request task.command).calls (.new 1024)) (unfinished : job.finished = false)
      (writing : job.in_put = true → ∃ record, (request task.command).write = some record ∧ writer = some record)
  | replied {first later buffer} (effect : done = first ++ task :: later) (calls : job.calls = .done buffer)
      (in_put : job.in_put = false)
      (response : buffer.readable = ((request task.command).serve (served start first)).2.bytes)

/-- What holds of the service after a log. -/
structure Service.Linear (service : Service) (start : ExtTreeMap Key Bytes) (log : List Occurrence) : Prop where
  serving : service.server.Serving [] (Journals.empty.after (observations log))
  history : ∃ trace, History (fun disk _ => disk.ScansInts) (some service.system.db) service.system.disk trace
  contents : ∀ key : Key, (served start (effects log))[key]? = service.system.db.get key
  length : service.jobs.length = service.server.busy.length
  fits : ∀ (index : Nat) (task : WorkerTask) (job : Job), service.server.busy[index]? = some task → service.jobs[index]? = some job →
    job.Fits task start (effects log) service.system.db.writer
  one_put : ∀ (index other : Nat) (job job' : Job), service.jobs[index]? = some job → service.jobs[other]? = some job' →
    job.in_put = true → job'.in_put = true → index = other
  explained : ∀ before occurrence, before ++ [occurrence] <+: log → occurrence.Explained start before
  settled : ∀ task ∈ effects log,
    (∃ (index : Nat) (job : Job), service.server.busy[index]? = some task ∧ service.jobs[index]? = some job ∧ job.finished = true) ∨
      ((Journals.empty.after (observations log) task.generation).responses.lookup task.seq).isSome

section

variable {start : ExtTreeMap Key Bytes} {log : List Occurrence} {tasks : List WorkerTask} {task : WorkerTask}
  {self : Service} {index : Nat}

theorem effects_append (first second : List Occurrence) :
    effects (first ++ second) = effects first ++ effects second := List.filterMap_append

@[simp] theorem effects_server (log : List Observation) : effects (log.map .server) = [] := by
  induction log with
  | nil => rfl
  | cons observation log ih => exact ih

theorem serve_append (map : ExtTreeMap Key Bytes) (first second : List (List Bytes)) :
    (serve map (first ++ second)).1 = (serve (serve map first).1 second).1 := by
  induction first generalizing map with
  | nil => rfl
  | cons command first ih => exact ih _

theorem served_concat (start : ExtTreeMap Key Bytes) (tasks : List WorkerTask) (task : WorkerTask) :
    served start (tasks ++ [task]) = ((request task.command).serve (served start tasks)).1 := by
  rw [served, List.map_append, serve_append]
  rfl

/-- What has been parsed and responded on a connection stays. -/
theorem Journals.grows (journals : Journals) (later : List Observation) (generation : Nat) :
    (journals generation).requests <+: (journals.after later generation).requests ∧
      (journals generation).responses <+: (journals.after later generation).responses := by
  induction later generalizing journals with
  | nil => exact ⟨List.prefix_refl _, List.prefix_refl _⟩
  | cons observation later ih =>
    obtain ⟨hrequests, hresponses⟩ := ih (journals.record observation)
    refine ⟨List.IsPrefix.trans ?_ hrequests, List.IsPrefix.trans ?_ hresponses⟩
    all_goals
      unfold Journals.record
      split
      · cases observation <;> first | exact List.prefix_refl _ | exact List.prefix_append _ _
      · exact List.prefix_refl _

theorem Journals.requested_later {journals : Journals} {generation seq : Nat} {command : List Bytes}
    (h : (journals generation).requests[seq]? = some command) (later : List Observation) :
    (journals.after later generation).requests[seq]? = some command := by
  obtain ⟨rest, hrest⟩ := (journals.grows later generation).1
  rw [← hrest, List.getElem?_append_left (List.getElem?_eq_some_iff.mp h).1, h]

theorem Journals.responded_later {journals : Journals} {generation seq : Nat}
    (h : ((journals generation).responses.lookup seq).isSome) (later : List Observation) :
    ((journals.after later generation).responses.lookup seq).isSome := by
  obtain ⟨rest, hrest⟩ := (journals.grows later generation).2
  rw [← hrest, List.lookup_append, Option.isSome_or, h, Bool.true_or]

/-- Another occurrence is explained by what happened before it. -/
theorem explained_concat {occurrence : Occurrence}
    (h : ∀ before other, before ++ [other] <+: log → other.Explained start before)
    (hlast : occurrence.Explained start log) :
    ∀ before other, before ++ [other] <+: log ++ [occurrence] → other.Explained start before := by
  intro before other hcut
  rcases List.prefix_concat_iff.mp hcut with heq | hold
  · obtain ⟨hbefore, hother⟩ := List.append_inj' heq rfl
    rw [hbefore, (List.cons.inj hother).1]
    exact hlast
  · exact h before other hold

theorem explained_quiet {later : List Observation}
    (h : ∀ before other, before ++ [other] <+: log → other.Explained start before)
    (hquiet : ∀ observation ∈ later, observation.Quiet) :
    ∀ before other, before ++ [other] <+: log ++ later.map .server → other.Explained start before := by
  induction later using List.reverseRecOn with
  | nil => simpa using h
  | append_singleton later observation ih =>
    rw [List.map_append, ← List.append_assoc]
    refine explained_concat (ih fun other hother => hquiet other (List.mem_append_left _ hother)) ?_
    have hlast := hquiet observation (by simp)
    cases observation with
    | responded task response => exact hlast.elim
    | _ => trivial

/-- What a request writes is what it does to an ordered map. -/
theorem Request.serve_write {asked : Request} {key : Key} {record : ValueRecord} {map : ExtTreeMap Key Bytes}
    {view : Key → Option Bytes} (hwrite : asked.write = some (key, record)) (hmap : ∀ other : Key, map[other]? = view other)
    (other : Key) : (asked.serve map).1[other]? = overwrite view [(key, record)] other := by
  rw [overwrite_singleton, ← hmap]
  cases asked with
  | set _ value =>
    cases hwrite
    simp only [serve, ExtTreeMap.getElem?_insert, LawfulEqCmp.compare_eq_iff_eq]
    by_cases hother : key = other
    · simp [hother]
    · simp [hother, Ne.symm hother]
  | del _ =>
    cases hwrite
    simp only [serve, ExtTreeMap.getElem?_erase, LawfulEqCmp.compare_eq_iff_eq]
    by_cases hother : key = other
    · simp [hother]
    · simp [hother, Ne.symm hother]
  | _ => cases hwrite

/-- The request of a worker that is to make a `Put`. -/
theorem Request.calls_put {asked : Request} {buffer : NetworkBuffer} {key : Key} {record : ValueRecord}
    {next : DBCalls NetworkBuffer} (h : .put key record next = asked.calls buffer) :
    asked.write = some (key, record) ∧ (∀ map, (asked.serve map).2 = .ok) ∧ next = .done (Reply.ok.encode buffer) := by
  cases asked with
  | set _ _ =>
    cases h
    exact ⟨rfl, fun _ => rfl, rfl⟩
  | del _ =>
    cases h
    exact ⟨rfl, fun _ => rfl, rfl⟩
  | _ => cases h

/-- A `Put` begins while no other one is under way. -/
theorem System.put_lock_free {system next : System} {key : Key} {record : ValueRecord}
    (hstep : system.step (.put_lock key record) = some next) : system.db.writer = none := by
  obtain ⟨program, hprogram, -⟩ := System.step_eq_some hstep
  unfold DBImpl.program DBImpl.put_lock at hprogram
  dsimp only at hprogram
  split at hprogram
  · cases hprogram
  · rename_i hbusy
    simp only [Bool.or_eq_true, not_or, Bool.not_eq_true, Option.isSome_eq_false_iff, Option.isNone_iff_eq_none]
      at hbusy
    exact hbusy.2

/-- More effects change nothing for a worker that holds no lock. -/
theorem Job.Fits.later {job : Job} {done : List WorkerTask} {writer writer' : Option WalRecord}
    (h : job.Fits task start done writer) (other : WorkerTask) (hwriter : job.in_put = true → writer' = writer) :
    job.Fits task start (done ++ [other]) writer' := by
  cases h with
  | waiting hcalls hunfinished hwriting =>
    refine .waiting hcalls hunfinished fun hput => ?_
    rw [hwriter hput]
    exact hwriting hput
  | @replied first later buffer heffect hcalls hput hresponse =>
    refine @Job.Fits.replied _ _ _ _ _ first (later ++ [other]) buffer ?_ hcalls hput hresponse
    rw [heffect, List.append_assoc, List.cons_append]

/-- Where an entry is once another one has been erased. -/
theorem getElem?_eraseIdx_of_ne {α : Type} (entries : List α) {found index : Nat} (hne : found ≠ index) :
    (entries.eraseIdx index)[if found < index then found else found - 1]? = entries[found]? := by
  rw [List.getElem?_eraseIdx]
  split_ifs with hbefore hafter
  · rfl
  · omega
  · rw [Nat.sub_add_cancel (by omega)]

theorem Job.calls_of (task : WorkerTask) : (Job.of task).calls = (request task.command).calls (.new 1024) :=
  CommandExecutor.execute_eq _ _

/-- A request that makes no call is one that is refused. -/
theorem Job.request_of_finished (h : (Job.of task).finished = true) :
    ∃ message, request task.command = .bad message := by
  unfold Job.finished at h
  rw [Job.calls_of] at h
  cases hasked : request task.command with
  | bad message => exact ⟨message, rfl⟩
  | _ =>
    rw [hasked] at h
    cases h

/-- The service once a worker has taken a task. -/
def Service.begun (self : Service) (task : WorkerTask) (rest : List WorkerTask) : Service :=
  { self with
    server := { self.server with tasks := rest, busy := self.server.busy ++ [task] }
    jobs := self.jobs ++ [.of task] }

namespace Service.Linear

/-- A request that has taken effect before its response is there is with a worker that
has finished it. -/
theorem taken (h : self.Linear start log) (hpool : task ∈ self.server.tasks ++ self.server.busy)
    (htaken : task.ticket ∈ (effects log).map WorkerTask.ticket) :
    ∃ (index : Nat) (other : WorkerTask) (job : Job), self.server.busy[index]? = some other ∧
      other.ticket = task.ticket ∧ self.jobs[index]? = some job ∧ job.finished = true := by
  obtain ⟨other, hother, hticket⟩ := List.mem_map.mp htaken
  rcases h.settled other hother with ⟨index, job, hbusy, hjob, hfinished⟩ | hresponded
  · exact ⟨index, other, job, hbusy, hticket, hjob, hfinished⟩
  · have hnone := (h.serving.workers.requested task hpool).2.1
    rw [(Prod.mk.inj hticket).1, (Prod.mk.inj hticket).2, hnone] at hresponded
    cases hresponded

theorem distinct (h : self.Linear start log) :
    (self.server.tasks.map WorkerTask.ticket ++ self.server.busy.map WorkerTask.ticket).Nodup := by
  have hdistinct := h.serving.workers.distinct
  rw [tickets, List.map_append] at hdistinct
  exact hdistinct.of_append_left

/-- A request that waits for a worker has not taken effect. -/
theorem queued (h : self.Linear start log) (htask : task ∈ self.server.tasks) :
    task.ticket ∉ (effects log).map WorkerTask.ticket := by
  intro htaken
  obtain ⟨index, other, job, hbusy, hticket, -⟩ := h.taken (List.mem_append_left _ htask) htaken
  have hmem := List.mem_map_of_mem (f := WorkerTask.ticket) (List.mem_of_getElem? hbusy)
  exact (List.nodup_append.mp h.distinct).2.2 _ (List.mem_map_of_mem htask) _ hmem hticket.symm

/-- A request whose worker is still at it has not taken effect. -/
theorem waiting (h : self.Linear start log) {job : Job} (hbusy : self.server.busy[index]? = some task)
    (hjob : self.jobs[index]? = some job) (hunfinished : job.finished = false) :
    task.ticket ∉ (effects log).map WorkerTask.ticket := by
  intro htaken
  obtain ⟨found, other, done, hother, hticket, hdone, hfinished⟩ :=
    h.taken (List.mem_append_right _ (List.mem_of_getElem? hbusy)) htaken
  have hsame : (self.server.busy.map WorkerTask.ticket)[found]? =
      (self.server.busy.map WorkerTask.ticket)[index]? := by
    rw [List.getElem?_map, List.getElem?_map, hother, hbusy, Option.map_some, Option.map_some, hticket]
  have hlt : found < (self.server.busy.map WorkerTask.ticket).length := by
    rw [List.length_map]
    exact (List.getElem?_eq_some_iff.mp hother).1
  have heq := (List.getElem?_inj hlt (List.nodup_append.mp h.distinct).2.1).mp hsame
  subst heq
  cases hdone.symm.trans hjob
  rw [hunfinished] at hfinished
  cases hfinished

/-- A step of the event loop. -/
theorem loop (h : self.Linear start log) {event : ServerEvent} (hloop : event.is_loop = true) :
    Linear { self with server := (self.server.step event).server } start
      (log ++ (self.server.step event).log.map .server) := by
  have hspares := TcpServer.step_spares hloop self.server
  refine ⟨?_, h.history, ?_, ?_, ?_, h.one_put, explained_quiet h.explained hspares.quiet, ?_⟩
  · rw [observations_append, Journals.after_append, observations_server]
    exact (h.serving.step event).serving
  · simpa [effects_append] using h.contents
  · exact h.length.trans (congrArg List.length hspares.busy.symm)
  · rw [effects_append, effects_server, List.append_nil]
    dsimp only
    rw [hspares.busy]
    exact h.fits
  · rw [effects_append, effects_server, List.append_nil, observations_append, Journals.after_append,
      observations_server]
    dsimp only
    rw [hspares.busy]
    exact fun task htask => (h.settled task htask).imp_right fun hsome => Journals.responded_later hsome _

/-- A step of a background thread of the database. -/
theorem background (h : self.Linear start log) {act : Act} {system : System} (hact : act.is_background = true)
    (hstep : self.system.step act = some system) : Linear { self with system := system } start log := by
  obtain ⟨_, hhistory⟩ := h.history
  obtain ⟨hnext, hview, hwriter⟩ := hhistory.idle_step hact hstep
  refine ⟨h.serving, hnext, ?_, h.length, ?_, h.one_put, h.explained, h.settled⟩
  · dsimp only
    rw [hview]
    exact h.contents
  · dsimp only
    rw [hwriter]
    exact h.fits

/-- A worker makes the call of its request, whose effect this is. -/
theorem effect (h : self.Linear start log) {job : Job} {system : System} {buffer : NetworkBuffer}
    (hbusy : self.server.busy[index]? = some task) (hjob : self.jobs[index]? = some job)
    (hunfinished : job.finished = false)
    (hhistory : ∃ trace, History (fun disk _ => disk.ScansInts) (some system.db) system.disk trace)
    (hcontents : ∀ key : Key,
      ((request task.command).serve (served start (effects log))).1[key]? = system.db.get key)
    (hwriter : system.db.writer = self.system.db.writer ∨ job.in_put = true)
    (hresponse : buffer.readable = ((request task.command).serve (served start (effects log))).2.bytes) :
    Linear { self with system := system, jobs := self.jobs.set index ⟨.done buffer, false⟩ } start
      (log ++ [.effect task]) := by
  have hlt := (List.getElem?_eq_some_iff.mp hjob).1
  have hself : (self.jobs.set index ⟨.done buffer, false⟩)[index]? = some ⟨.done buffer, false⟩ :=
    List.getElem?_set_self hlt
  have heffects : effects (log ++ [.effect task]) = effects log ++ [task] := effects_append _ _
  have hobservations : observations (log ++ [.effect task]) = observations log := by
    rw [observations_append]
    exact List.append_nil _
  have hothers : ∀ (other : Nat) (found : Job),
      (self.jobs.set index ⟨.done buffer, false⟩)[other]? = some found → other ≠ index →
        self.jobs[other]? = some found := by
    intro other found hfound hne
    rwa [List.getElem?_set_ne (Ne.symm hne)] at hfound
  refine ⟨?_, hhistory, ?_, ?_, ?_, ?_, ?_, ?_⟩
  · rw [hobservations]
    exact h.serving
  · rw [heffects, served_concat]
    exact hcontents
  · rw [List.length_set]
    exact h.length
  · intro other found job' hfound hjob'
    rw [heffects]
    by_cases hother : other = index
    · subst hother
      cases hbusy.symm.trans hfound
      cases hself.symm.trans hjob'
      exact .replied rfl rfl rfl hresponse
    · have hold := hothers other job' hjob' hother
      refine (h.fits other found job' hfound hold).later task fun hput => ?_
      refine hwriter.resolve_right fun hjobput => hother ?_
      exact h.one_put other index job' job hold hjob hput hjobput
  · intro first second job' job'' hfirst hsecond hput hput'
    by_cases hfirsteq : first = index
    · subst hfirsteq
      cases hself.symm.trans hfirst
      cases hput
    · by_cases hsecondeq : second = index
      · subst hsecondeq
        cases hself.symm.trans hsecond
        cases hput'
      · exact h.one_put first second job' job'' (hothers first job' hfirst hfirsteq)
          (hothers second job'' hsecond hsecondeq) hput hput'
  · refine explained_concat h.explained ⟨h.waiting hbusy hjob hunfinished, ?_⟩
    exact (h.serving.workers.requested task (List.mem_append_right _ (List.mem_of_getElem? hbusy))).1
  · intro other hother
    rw [heffects, List.mem_append, List.mem_singleton] at hother
    rw [hobservations]
    rcases hother with hold | rfl
    · refine (h.settled other hold).imp_left ?_
      rintro ⟨found, job', hfound, hjob', hfinished⟩
      refine ⟨found, job', hfound, ?_, hfinished⟩
      rw [List.getElem?_set_ne, hjob']
      rintro rfl
      cases hjob.symm.trans hjob'
      rw [hunfinished] at hfinished
      cases hfinished
    · exact .inl ⟨index, _, hbusy, hself, rfl⟩

/-- A read sees what an ordered map holds at this moment. -/
theorem read (h : self.Linear start log) {next : Service} {occurrences : List Occurrence}
    (hstep : self.step (.read index) = some (next, occurrences)) : next.Linear start (log ++ occurrences) := by
  obtain ⟨_, hhistory⟩ := h.history
  unfold step at hstep
  dsimp only at hstep
  split at hstep
  · rename_i task key calls in_put hbusy hjob
    cases hstep
    cases h.fits index task _ hbusy hjob with
    | replied _ hcalls => cases hcalls
    | waiting hcalls hunfinished _ =>
      cases hasked : request task.command with
      | get asked =>
        rw [hasked] at hcalls
        cases hcalls
        refine h.effect hbusy hjob hunfinished h.history ?_ (.inl rfl) ?_
        · rw [hasked]
          exact h.contents
        · rw [hasked, Reply.readable_encode, NetworkBuffer.readable_new, List.nil_append, Request.serve, h.contents]
      | _ =>
        rw [hasked] at hcalls
        cases hcalls
  · rename_i task calls in_put hbusy hjob
    cases hstep
    cases h.fits index task _ hbusy hjob with
    | replied _ hcalls => cases hcalls
    | waiting hcalls hunfinished _ =>
      cases hasked : request task.command with
      | rscan start_key =>
        rw [hasked] at hcalls
        cases hcalls
        refine h.effect hbusy hjob hunfinished h.history ?_ (.inl rfl) ?_
        · rw [hasked]
          exact h.contents
        · rw [hasked, Reply.readable_encode, NetworkBuffer.readable_new, List.nil_append, Request.serve,
            DBImpl.rows_eq h.contents, (self.system.db.scan_agrees_with_get).2.2]
      | _ =>
        rw [hasked] at hcalls
        cases hcalls
  · cases hstep

/-- Without a writer no worker is inside a `Put`. -/
theorem outside (h : self.Linear start log) (hfree : self.system.db.writer = none) (other : Nat) (found : Job)
    (hfound : self.jobs[other]? = some found) : found.in_put = false := by
  have hother : other < self.server.busy.length := h.length ▸ (List.getElem?_eq_some_iff.mp hfound).1
  cases h.fits other _ found (List.getElem?_eq_getElem hother) hfound with
  | replied _ _ hput => exact hput
  | waiting _ _ hwriting =>
    cases hput : found.in_put with
    | false => rfl
    | true =>
      obtain ⟨_, -, hsome⟩ := hwriting hput
      rw [hfree] at hsome
      cases hsome

/-- A worker that enters a `Put` is the only one in it. -/
theorem put_lock (h : self.Linear start log) {next : Service} {occurrences : List Occurrence}
    (hstep : self.step (.put_lock index) = some (next, occurrences)) : next.Linear start (log ++ occurrences) := by
  obtain ⟨_, hhistory⟩ := h.history
  unfold step at hstep
  dsimp only at hstep
  split at hstep
  · rename_i key record calls hjob
    obtain ⟨system, hsystem, heq⟩ := Option.map_eq_some_iff.mp hstep
    cases heq
    have hnone := h.outside (System.put_lock_free hsystem)
    have hlt := (List.getElem?_eq_some_iff.mp hjob).1
    have hself : (self.jobs.set index ⟨.put key record calls, true⟩)[index]? = some ⟨.put key record calls, true⟩ :=
      List.getElem?_set_self hlt
    have hothers : ∀ (other : Nat) (found : Job),
        (self.jobs.set index ⟨.put key record calls, true⟩)[other]? = some found → other ≠ index →
          self.jobs[other]? = some found := by
      intro other found hfound hne
      rwa [List.getElem?_set_ne (Ne.symm hne)] at hfound
    rw [List.append_nil]
    refine ⟨h.serving, hhistory.stepped hsystem, ?_, ?_, ?_, ?_, h.explained, ?_⟩
    · dsimp only
      rw [hhistory.view_step hsystem rfl]
      exact h.contents
    · exact (List.length_set ..).trans h.length
    · intro other found job' hfound hjob'
      by_cases hother : other = index
      · subst hother
        cases hself.symm.trans hjob'
        cases h.fits other found _ hfound hjob with
        | replied _ hcalls => cases hcalls
        | waiting hcalls =>
          exact .waiting hcalls rfl fun _ =>
            ⟨(key, record), (Request.calls_put hcalls).1, (System.step_transition hsystem).writer_put_lock⟩
      · have hold := hothers other job' hjob' hother
        cases h.fits other found job' hfound hold with
        | waiting hcalls hunfinished _ =>
          refine .waiting hcalls hunfinished fun hput => ?_
          rw [hnone other job' hold] at hput
          cases hput
        | replied heffect hcalls hput hresponse => exact .replied heffect hcalls hput hresponse
    · intro first second job' job'' hfirst hsecond hput hput'
      have hindex : ∀ (other : Nat) (found : Job),
          (self.jobs.set index ⟨.put key record calls, true⟩)[other]? = some found → found.in_put = true →
            other = index := by
        intro other found hfound htrue
        by_contra hne
        rw [hnone other found (hothers other found hfound hne)] at htrue
        cases htrue
      rw [hindex first job' hfirst hput, hindex second job'' hsecond hput']
    · intro task htask
      refine (h.settled task htask).imp_left ?_
      rintro ⟨other, job', hfound, hjob', hfinished⟩
      refine ⟨other, job', hfound, ?_, hfinished⟩
      dsimp only
      rw [List.getElem?_set_ne, hjob']
      rintro rfl
      cases hjob.symm.trans hjob'
      cases hfinished
  · cases hstep

/-- A `Put` takes effect when it writes its record. -/
theorem put_write (h : self.Linear start log) {next : Service} {occurrences : List Occurrence}
    (hstep : self.step (.put_write index) = some (next, occurrences)) : next.Linear start (log ++ occurrences) := by
  obtain ⟨_, hhistory⟩ := h.history
  unfold step at hstep
  dsimp only at hstep
  split at hstep
  · rename_i task key record calls hbusy hjob
    obtain ⟨system, hsystem, heq⟩ := Option.map_eq_some_iff.mp hstep
    cases heq
    cases h.fits index task _ hbusy hjob with
    | replied _ hcalls => cases hcalls
    | waiting hcalls hunfinished hwriting =>
      obtain ⟨⟨key', record'⟩, hwrite, hwriter⟩ := hwriting rfl
      have hcontents : ∀ other : Key,
          ((request task.command).serve (served start (effects log))).1[other]? = system.db.get other := by
        intro other
        rw [hhistory.view_step hsystem rfl, DBImpl.completes, hwriter]
        exact Request.serve_write hwrite h.contents other
      obtain ⟨-, hreply, rfl⟩ := Request.calls_put hcalls
      refine h.effect hbusy hjob hunfinished (hhistory.stepped hsystem) hcontents (.inr rfl) ?_
      rw [hreply, Reply.readable_encode, NetworkBuffer.readable_new, List.nil_append]
  · cases hstep

/-- A task that a worker has after another one was taken is an old one or that one. -/
theorem begun_cases (h : self.Linear start log) {rest : List WorkerTask} {other : WorkerTask} {job : Job}
    (hother : (self.begun task rest).server.busy[index]? = some other)
    (hjob : (self.begun task rest).jobs[index]? = some job) :
    (self.server.busy[index]? = some other ∧ self.jobs[index]? = some job) ∨ (other = task ∧ job = .of task) := by
  dsimp only [Service.begun] at hother hjob
  by_cases hlt : index < self.jobs.length
  · rw [List.getElem?_append_left (h.length ▸ hlt)] at hother
    rw [List.getElem?_append_left hlt] at hjob
    exact .inl ⟨hother, hjob⟩
  · rw [List.getElem?_append_right (h.length ▸ Nat.le_of_not_lt hlt)] at hother
    rw [List.getElem?_append_right (Nat.le_of_not_lt hlt)] at hjob
    exact .inr ⟨(List.mem_singleton.mp (List.mem_of_getElem? hother)),
      List.mem_singleton.mp (List.mem_of_getElem? hjob)⟩

/-- A task that is taken is not inside a `Put` yet. -/
theorem begun_one_put (h : self.Linear start log) {rest : List WorkerTask} (first second : Nat) (job job' : Job)
    (hfirst : (self.begun task rest).jobs[first]? = some job)
    (hsecond : (self.begun task rest).jobs[second]? = some job') (hput : job.in_put = true)
    (hput' : job'.in_put = true) : first = second := by
  have hold : ∀ (other : Nat) (found : Job), (self.jobs ++ [Job.of task])[other]? = some found →
      found.in_put = true → self.jobs[other]? = some found := by
    intro other found hfound hin
    rw [List.getElem?_append] at hfound
    split at hfound
    · exact hfound
    · cases List.mem_singleton.mp (List.mem_of_getElem? hfound)
      cases hin
  exact h.one_put first second job job' (hold first job hfirst hput) (hold second job' hsecond hput') hput hput'

/-- A request that a worker has finished stays with it. -/
theorem begun_finished {rest : List WorkerTask} {other : WorkerTask}
    (h : ∃ (index : Nat) (job : Job), self.server.busy[index]? = some other ∧ self.jobs[index]? = some job ∧
      job.finished = true) :
    ∃ (index : Nat) (job : Job), (self.begun task rest).server.busy[index]? = some other ∧
      (self.begun task rest).jobs[index]? = some job ∧ job.finished = true := by
  obtain ⟨index, job, hbusy, hjob, hfinished⟩ := h
  refine ⟨index, job, ?_, ?_, hfinished⟩
  · exact (List.getElem?_append_left (List.getElem?_eq_some_iff.mp hbusy).1).trans hbusy
  · exact (List.getElem?_append_left (List.getElem?_eq_some_iff.mp hjob).1).trans hjob

/-- A worker takes a task that is to make a call. -/
theorem begin_waiting (h : self.Linear start log) {rest : List WorkerTask}
    (hserving : (self.begun task rest).server.Serving [] (Journals.empty.after (observations log)))
    (hunfinished : (Job.of task).finished = false) : (self.begun task rest).Linear start log := by
  refine ⟨hserving, h.history, h.contents, ?_, ?_, h.begun_one_put, h.explained, ?_⟩
  · simp [Service.begun, h.length]
  · intro index other job hother hjob
    rcases h.begun_cases hother hjob with ⟨hother, hjob⟩ | ⟨rfl, rfl⟩
    · exact h.fits index other job hother hjob
    · exact .waiting (Job.calls_of other) hunfinished (by simp [Job.of])
  · exact fun other hother => (h.settled other hother).imp_left begun_finished

/-- A worker takes a task that makes no call. -/
theorem begin_replied (h : self.Linear start log) {rest : List WorkerTask} (htask : task ∈ self.server.tasks)
    (hserving : (self.begun task rest).server.Serving [] (Journals.empty.after (observations log)))
    (hfinished : (Job.of task).finished = true) : (self.begun task rest).Linear start (log ++ [.effect task]) := by
  have heffects : effects (log ++ [.effect task]) = effects log ++ [task] := effects_append _ _
  have hobservations : observations (log ++ [.effect task]) = observations log := by
    rw [observations_append]
    exact List.append_nil _
  obtain ⟨message, hasked⟩ := Job.request_of_finished hfinished
  refine ⟨?_, h.history, ?_, ?_, ?_, h.begun_one_put, explained_concat h.explained ⟨h.queued htask, ?_⟩, ?_⟩
  · rw [hobservations]
    exact hserving
  · rw [heffects, served_concat, hasked]
    exact h.contents
  · simp [Service.begun, h.length]
  · intro index other job hother hjob
    rw [heffects]
    rcases h.begun_cases hother hjob with ⟨hother, hjob⟩ | ⟨rfl, rfl⟩
    · exact (h.fits index other job hother hjob).later task fun _ => rfl
    · refine .replied rfl ((Job.calls_of other).trans (by rw [hasked]; rfl)) rfl ?_
      rw [Reply.readable_encode, NetworkBuffer.readable_new, List.nil_append, hasked]
      rfl
  · exact (h.serving.workers.requested task (List.mem_append_left _ htask)).1
  · intro other hother
    rw [heffects, List.mem_append, List.mem_singleton] at hother
    rw [hobservations]
    rcases hother with hold | rfl
    · exact (h.settled other hold).imp_left begun_finished
    · refine .inl ⟨self.server.busy.length, .of other, ?_, ?_, hfinished⟩
      · exact (List.getElem?_append_right (Nat.le_refl _)).trans (by rw [Nat.sub_self]; rfl)
      · rw [← h.length]
        exact (List.getElem?_append_right (Nat.le_refl _)).trans (by rw [Nat.sub_self]; rfl)

/-- A worker takes a task. One that makes no call takes effect at once. -/
theorem begin (h : self.Linear start log) {next : Service} {occurrences : List Occurrence}
    (hstep : self.step .start = some (next, occurrences)) : next.Linear start (log ++ occurrences) := by
  unfold step at hstep
  dsimp only at hstep
  split at hstep
  · cases hstep
  rename_i task rest htasks
  split at hstep
  · rename_i hfree
    have hserver : self.server.step .worker_start = ⟨(self.begun task rest).server, []⟩ := by
      simp [TcpServer.step, TcpServer.worker_start, htasks, hfree, Service.begun]
    have hserving := (h.serving.step .worker_start).serving
    rw [hserver] at hserving hstep
    cases hstep
    cases hfinished : (Job.of task).finished with
    | false =>
      rw [if_neg (by simp), List.append_nil]
      exact h.begin_waiting hserving hfinished
    | true =>
      rw [if_pos rfl]
      exact h.begin_replied (htasks ▸ List.mem_cons_self) hserving hfinished
  · cases hstep

/-- A worker hands over the response of its request. -/
theorem finish (h : self.Linear start log) {next : Service} {occurrences : List Occurrence}
    (hstep : self.step (.finish index) = some (next, occurrences)) : next.Linear start (log ++ occurrences) := by
  unfold step at hstep
  dsimp only at hstep
  split at hstep
  · rename_i buffer in_put hjob
    have hlt : index < self.server.busy.length := h.length ▸ (List.getElem?_eq_some_iff.mp hjob).1
    obtain ⟨task, hbusy⟩ : ∃ task, self.server.busy[index]? = some task := ⟨_, List.getElem?_eq_getElem hlt⟩
    have hserver : self.server.step (.worker_finish index buffer.readable) =
        ⟨{ self.server with
            busy := self.server.busy.eraseIdx index
            completed_queue := self.server.completed_queue ++ [⟨task.fd, task.generation, task.seq, buffer.readable⟩] },
          [.responded task buffer.readable]⟩ := by
      simp [TcpServer.step, TcpServer.worker_finish, hbusy]
    have hserving := (h.serving.step (.worker_finish index buffer.readable)).serving
    rw [hserver] at hserving
    cases hstep
    rw [hserver]
    have heffects : effects (log ++ [.server (.responded task buffer.readable)]) = effects log := by
      rw [effects_append]
      exact List.append_nil _
    have hobservations : observations (log ++ [.server (.responded task buffer.readable)]) =
        observations log ++ [.responded task buffer.readable] := observations_append _ _
    have hmoved : ∀ other : Nat, ∃ old : Nat, (self.server.busy.eraseIdx index)[other]? = self.server.busy[old]? ∧
        (self.jobs.eraseIdx index)[other]? = self.jobs[old]? := by
      intro other
      refine ⟨if other < index then other else other + 1, ?_, ?_⟩
      all_goals
        rw [List.getElem?_eraseIdx]
        split <;> rfl
    refine ⟨?_, h.history, ?_, ?_, ?_, ?_, explained_concat h.explained ?_, ?_⟩
    · rw [List.map_singleton, hobservations, Journals.after_append]
      exact hserving
    · rw [List.map_singleton, heffects]
      exact h.contents
    · dsimp only
      rw [List.length_eraseIdx_of_lt (h.length ▸ hlt), List.length_eraseIdx_of_lt hlt, h.length]
    · intro other found job hfound hjob'
      obtain ⟨old, hbusy', hjobs'⟩ := hmoved other
      rw [List.map_singleton, heffects]
      exact h.fits old found job (hbusy' ▸ hfound) (hjobs' ▸ hjob')
    · intro first second job job' hfirst hsecond hput hput'
      dsimp only at hfirst hsecond
      rw [List.getElem?_eraseIdx] at hfirst hsecond
      split_ifs at hfirst hsecond
      all_goals
        have heq := h.one_put _ _ job job' hfirst hsecond hput hput'
        omega
    · cases h.fits index task _ hbusy hjob with
      | waiting hcalls hunfinished => cases hunfinished
      | replied heffect hcalls _ hresponse =>
        cases hcalls
        exact ⟨_, _, heffect, hresponse⟩
    · intro other hother
      rw [List.map_singleton, heffects] at hother
      rw [List.map_singleton, hobservations, Journals.after_append]
      rcases h.settled other hother with ⟨found, job, hfound, hjob', hfinished⟩ | hresponded
      · by_cases heq : found = index
        · subst heq
          cases hbusy.symm.trans hfound
          refine .inr ?_
          have hself := @Journals.record_self (Journals.empty.after (observations log))
            (.responded task buffer.readable)
          simp only [Journals.after, List.foldl_cons, List.foldl_nil, Observation.generation] at hself ⊢
          rw [hself]
          simp [Journal.record, List.lookup_append]
        · refine .inl ⟨if found < index then found else found - 1, job, ?_, ?_, hfinished⟩
          · exact (getElem?_eraseIdx_of_ne _ heq).trans hfound
          · exact (getElem?_eraseIdx_of_ne _ heq).trans hjob'
      · exact .inr (Journals.responded_later hresponded _)
  · cases hstep

theorem step (h : self.Linear start log) {event : ServiceEvent} {next : Service} {occurrences : List Occurrence}
    (hstep : self.step event = some (next, occurrences)) : next.Linear start (log ++ occurrences) := by
  cases event with
  | loop event =>
    unfold Service.step at hstep
    dsimp only at hstep
    split at hstep
    · rename_i hloop
      cases hstep
      exact h.loop hloop
    · cases hstep
  | background act =>
    unfold Service.step at hstep
    dsimp only at hstep
    split at hstep
    · rename_i hact
      obtain ⟨system, hsystem, heq⟩ := Option.map_eq_some_iff.mp hstep
      cases heq
      rw [List.append_nil]
      exact h.background hact hsystem
    · cases hstep
  | start => exact h.begin hstep
  | read index => exact h.read hstep
  | put_lock index => exact h.put_lock hstep
  | put_write index => exact h.put_write hstep
  | finish index => exact h.finish hstep

theorem run (h : self.Linear start log) {events : List ServiceEvent} {last : Service} {later : List Occurrence}
    (hrun : self.run events = some (last, later)) : last.Linear start (log ++ later) := by
  induction events generalizing self log later with
  | nil =>
    cases hrun
    rwa [List.append_nil]
  | cons event events ih =>
    obtain ⟨⟨next, first⟩, hstep, hrest⟩ := Option.bind_eq_some_iff.mp hrun
    obtain ⟨⟨final, rest⟩, htail, heq⟩ := Option.map_eq_some_iff.mp hrest
    cases heq
    rw [← List.append_assoc]
    exact ih (h.step hstep) htail

/-- The requests of the effects of a log are different ones. -/
theorem once (h : self.Linear start log) : ((effects log).map WorkerTask.ticket).Nodup := by
  have hexplained := h.explained
  clear h
  induction log using List.reverseRecOn with
  | nil => exact List.nodup_nil
  | append_singleton log occurrence ih =>
    have hfirst := ih fun before other hcut => hexplained before other (hcut.trans (List.prefix_append _ _))
    have hlast := hexplained log occurrence (List.prefix_refl _)
    rw [effects_append]
    cases occurrence with
    | server observation => simpa [effects] using hfirst
    | effect task =>
      rw [List.map_append]
      refine hfirst.append (List.nodup_singleton _) ?_
      simpa [effects] using hlast.1

/-- A request that was not parsed in a front part of a log takes effect behind it. -/
theorem unparsed {before later : List Occurrence} (h : self.Linear start (before ++ later))
    (hnone : (Journals.empty.after (observations before) task.generation).requests[task.seq]? = none) :
    task ∉ effects before := by
  intro hmem
  obtain ⟨occurrence, hoccurrence, htask⟩ := List.mem_filterMap.mp hmem
  obtain ⟨first, rest, rfl⟩ := List.append_of_mem hoccurrence
  cases occurrence with
  | server observation => cases htask
  | effect other =>
    cases htask
    have hparsed := (h.explained first (.effect task) ⟨rest ++ later, by simp⟩).2
    have hlater := Journals.requested_later hparsed (observations (.effect task :: rest))
    rw [← Journals.after_append, ← observations_append, hnone] at hlater
    cases hlater

theorem linearizes (h : self.Linear start log) : Linearizes start log where
  once := h.once
  parsed before task hcut := (h.explained before _ hcut).2
  replied before task response hcut := h.explained before _ hcut
  real_time before task response other hcut hnone hother := by
    obtain ⟨first, later, heffects, -⟩ := h.explained before _ hcut
    obtain ⟨rest, rfl⟩ := hcut
    rw [List.append_assoc] at h hother
    rw [effects_append, List.mem_append] at hother
    obtain ⟨between, last, hrest⟩ := List.append_of_mem (hother.resolve_left (h.unparsed hnone))
    refine ⟨first, later ++ between, last, ?_⟩
    rw [List.append_assoc, effects_append, heffects, hrest]
    simp

end Service.Linear

theorem Service.linear_start {system : System} {trace : List DiskEffect}
    (hstart : History (fun disk _ => disk.ScansInts) (some system.db) system.disk trace) :
    (Service.mk .start system []).Linear system.db.contents [] where
  serving := TcpServer.serving_start
  history := ⟨_, hstart⟩
  contents := system.db.getElem?_contents
  length := rfl
  fits index task job hbusy := by cases hbusy
  one_put index other job job' hjob := by cases hjob
  explained before occurrence hcut := by simp at hcut
  settled task htask := by cases htask

/-- In every run of the server on an open database, whatever the clients send and the
sockets do, and however the workers and the background threads take turns, the service
behaves as one ordered map that serves each request at one moment between its parsing
and its response, and the database ends with the contents of that map. -/
theorem Service.run_linearizes {system : System} {trace : List DiskEffect} {events : List ServiceEvent}
    {last : Service} {log : List Occurrence}
    (hstart : History (fun disk _ => disk.ScansInts) (some system.db) system.disk trace)
    (hrun : (Service.mk .start system []).run events = some (last, log)) :
    Linearizes system.db.contents log ∧ last.system.db.contents = served system.db.contents (effects log) := by
  have hlast := (Service.linear_start hstart).run hrun
  rw [List.nil_append] at hlast
  exact ⟨hlast.linearizes, DBImpl.contents_eq hlast.contents⟩

/-- Two clients of an empty database. One sets a key and the other one reads it, and
while the record is written a compaction starts and both are in the database. -/
def setAndGet : List ServiceEvent :=
  [.loop (.accept [⟨3, true, true⟩, ⟨4, true, true⟩]),
    .loop (.connection 3 ⟨false, false, true, false⟩ (.data (arrayBytes [ascii "SET", ascii "k", ascii "v"])) []
      (fun _ => true) true true),
    .start, .put_lock 0,
    .loop (.connection 4 ⟨false, false, true, false⟩ (.data (arrayBytes [ascii "GET", ascii "k"])) []
      (fun _ => true) true true),
    .start, .background (.compact_prepare .caller .forward), .put_write 0, .read 1, .finish 1, .finish 0,
    .loop (.completions fun _ => true),
    .loop (.connection 4 ⟨false, false, false, true⟩ .unavailable [.wrote 3, .wrote 10] (fun _ => true) true true)]

theorem Service.run_linearizes_setAndGet : ∃ start last log, System.open .forward Disk.empty = some start ∧
    (Service.mk .start start []).run setAndGet = some (last, log) ∧ Linearizes start.db.contents log ∧
      last.system.db.contents = served start.db.contents (effects log) := by
  have hsome : ((System.open .forward Disk.empty).bind fun start =>
      (Service.mk .start start []).run setAndGet).isSome = true := by
    decide +kernel
  obtain ⟨⟨last, log⟩, hlast⟩ := Option.isSome_iff_exists.mp hsome
  obtain ⟨start, hstart, hrun⟩ := Option.bind_eq_some_iff.mp hlast
  have hopened : ∃ trace, History (fun disk _ => disk.ScansInts) (some start.db) start.disk trace :=
    History.opened .empty (by rintro _ _ ⟨⟩) hstart
  obtain ⟨_, hhistory⟩ := hopened
  exact ⟨start, last, log, hstart, hrun, Service.run_linearizes hhistory hrun⟩

end

end NovaKV
