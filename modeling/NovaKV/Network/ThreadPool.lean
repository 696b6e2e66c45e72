import NovaKV.Lib.Progress
import NovaKV.Network.Server

open NovaKV.Lib

namespace NovaKV

/-- Where a worker of a thread pool stands: on its way to the condition of its wait,
asleep in the wait, executing a task, or past its loop. -/
inductive PoolWorker (α : Type) where
  | checking
  | waiting
  | running (task : α)
  | exited

namespace PoolWorker

section

variable {α : Type}

def is_checking : PoolWorker α → Bool
  | .checking => true
  | _ => false

def is_waiting : PoolWorker α → Bool
  | .waiting => true
  | _ => false

def is_running : PoolWorker α → Bool
  | .running _ => true
  | _ => false

def is_exited : PoolWorker α → Bool
  | .exited => true
  | _ => false

/-- The task that a worker is executing. -/
def task? : PoolWorker α → Option α
  | .running task => some task
  | _ => none

/-- A worker that is asleep wakes up. -/
def woken : PoolWorker α → PoolWorker α
  | .waiting => .checking
  | worker => worker

end

end PoolWorker

/-- A thread pool. `notifying` counts the calls of `enqueue` that have queued their task
and not called `notify_one` yet; `stopping` is whether `Shutdown` has set `stop` and not
called `notify_all` yet. -/
structure ThreadPool (α : Type) where
  workers : List (PoolWorker α)
  tasks : List α
  stop : Bool
  notifying : Nat
  stopping : Bool

/-- What happens to a task. -/
inductive PoolObservation (α : Type) where
  | accepted (task : α)
  | started (task : α)
  | finished (task : α)

/-- The steps of callers and workers. Each one is a block under `queue_mutex`, a
notification, the end of a task or of a wait. A notification goes to a worker that is
asleep, if there is one, and a worker may also wake up by itself. -/
inductive PoolEvent (α : Type) where
  | enqueue (task : α)
  | notify_one (index : Nat)
  | notify_nobody
  | wake (index : Nat)
  | check (index : Nat)
  | finish (index : Nat)
  | shutdown
  | notify_all

namespace ThreadPool

section

variable {α : Type}

/-- The pool with its threads started. -/
def new (threads : Nat) : ThreadPool α := ⟨List.replicate threads .checking, [], false, 0, false⟩

def set_worker (self : ThreadPool α) (index : Nat) (worker : PoolWorker α) : ThreadPool α :=
  { self with workers := self.workers.set index worker }

/-- One step, if it can be made, with what happens in it. An `enqueue` on a stopped pool
throws, and a second `Shutdown` returns at once. -/
def step (self : ThreadPool α) : PoolEvent α → Option (ThreadPool α × List (PoolObservation α))
  | .enqueue task =>
    if self.stop then none
    else some ({ self with tasks := self.tasks ++ [task], notifying := self.notifying + 1 }, [.accepted task])
  | .notify_one index =>
    if self.notifying = 0 then none
    else
      match self.workers[index]? with
      | some .waiting => some ({ self.set_worker index .checking with notifying := self.notifying - 1 }, [])
      | _ => none
  | .notify_nobody =>
    if self.notifying = 0 || self.workers.any (·.is_waiting) then none
    else some ({ self with notifying := self.notifying - 1 }, [])
  | .wake index =>
    match self.workers[index]? with
    | some .waiting => some (self.set_worker index .checking, [])
    | _ => none
  | .check index =>
    match self.workers[index]? with
    | some .checking =>
      match self.tasks with
      | [] => some (self.set_worker index (if self.stop then .exited else .waiting), [])
      | task :: rest => some ({ self.set_worker index (.running task) with tasks := rest }, [.started task])
    | _ => none
  | .finish index =>
    match self.workers[index]? with
    | some (.running task) => some (self.set_worker index .checking, [.finished task])
    | _ => none
  | .shutdown => if self.stop then none else some ({ self with stop := true, stopping := true }, [])
  | .notify_all =>
    if self.stopping then
      some ({ self with workers := self.workers.map PoolWorker.woken, stopping := false }, [])
    else none

/-- A run of steps, each of which can be made when its turn comes. -/
def run (self : ThreadPool α) : List (PoolEvent α) → Option (ThreadPool α × List (PoolObservation α))
  | [] => some (self, [])
  | event :: events =>
    (self.step event).bind fun (next, log) => (next.run events).map fun (last, later) => (last, log ++ later)

def checking (self : ThreadPool α) : Nat := self.workers.countP (·.is_checking)

def waiting (self : ThreadPool α) : Nat := self.workers.countP (·.is_waiting)

def running (self : ThreadPool α) : Nat := self.workers.countP (·.is_running)

def exited (self : ThreadPool α) : Nat := self.workers.countP (·.is_exited)

/-- The tasks that the workers are executing. -/
def busy (self : ThreadPool α) : List α := self.workers.filterMap PoolWorker.task?

end

end ThreadPool

section

variable {α : Type}

def accepted (log : List (PoolObservation α)) : List α :=
  log.filterMap fun observation =>
    match observation with
    | .accepted task => some task
    | _ => none

def started (log : List (PoolObservation α)) : List α :=
  log.filterMap fun observation =>
    match observation with
    | .started task => some task
    | _ => none

def completed (log : List (PoolObservation α)) : List α :=
  log.filterMap fun observation =>
    match observation with
    | .finished task => some task
    | _ => none

/-- What holds of a pool after a log. Tasks are started in the order in which they were
accepted. While a worker is asleep, there are no more tasks than workers on their way to
them, and one that is asleep when the pool is stopped is about to be woken. -/
structure ThreadPool.Sound (pool : ThreadPool α) (threads : Nat) (log : List (PoolObservation α)) : Prop where
  length : pool.workers.length = threads
  in_order : accepted log = started log ++ pool.tasks
  once : (started log).Perm (completed log ++ pool.busy)
  awake : pool.waiting = 0 ∨ pool.tasks.length ≤ pool.notifying + pool.checking
  stopped : pool.stop = true → pool.waiting = 0 ∨ pool.stopping = true
  left : 0 < pool.exited → pool.stop = true ∧ pool.tasks = []

/-- What each step of a pool may do. -/
inductive PoolStep (pool : ThreadPool α) : PoolEvent α → ThreadPool α → List (PoolObservation α) → Prop
  | enqueue {task} (running : pool.stop = false) :
      PoolStep pool (.enqueue task)
        { pool with tasks := pool.tasks ++ [task], notifying := pool.notifying + 1 } [.accepted task]
  | notify_one {index} (calling : 0 < pool.notifying)
      (asleep : pool.workers[index]? = some PoolWorker.waiting) :
      PoolStep pool (.notify_one index)
        { pool.set_worker index .checking with notifying := pool.notifying - 1 } []
  | notify_nobody (calling : 0 < pool.notifying) (awake : pool.waiting = 0) :
      PoolStep pool .notify_nobody { pool with notifying := pool.notifying - 1 } []
  | wake {index} (asleep : pool.workers[index]? = some PoolWorker.waiting) :
      PoolStep pool (.wake index) (pool.set_worker index .checking) []
  | leave {index} (ready : pool.workers[index]? = some PoolWorker.checking) (drained : pool.tasks = [])
      (stopped : pool.stop = true) : PoolStep pool (.check index) (pool.set_worker index .exited) []
  | sleep {index} (ready : pool.workers[index]? = some PoolWorker.checking) (drained : pool.tasks = [])
      (running : pool.stop = false) : PoolStep pool (.check index) (pool.set_worker index .waiting) []
  | take {index task rest} (ready : pool.workers[index]? = some PoolWorker.checking)
      (queued : pool.tasks = task :: rest) :
      PoolStep pool (.check index) { pool.set_worker index (.running task) with tasks := rest } [.started task]
  | finish {index task} (busy : pool.workers[index]? = some (PoolWorker.running task)) :
      PoolStep pool (.finish index) (pool.set_worker index .checking) [.finished task]
  | shutdown (running : pool.stop = false) :
      PoolStep pool .shutdown { pool with stop := true, stopping := true } []
  | notify_all (stopping : pool.stopping = true) :
      PoolStep pool .notify_all
        { pool with workers := pool.workers.map PoolWorker.woken, stopping := false } []

variable {pool next last : ThreadPool α} {threads index : Nat} {log later : List (PoolObservation α)}
  {event : PoolEvent α} {events : List (PoolEvent α)}

/-- Replacing an entry of a list leaves the others. -/
theorem perm_set {entries : List α} {old : α} (hold : entries[index]? = some old) (new : α) :
    ∃ rest, entries.Perm (old :: rest) ∧ (entries.set index new).Perm (new :: rest) := by
  obtain ⟨hlt, rfl⟩ := List.getElem?_eq_some_iff.mp hold
  exact ⟨entries.eraseIdx index, (List.getElem_cons_eraseIdx_perm hlt).symm, List.set_perm_cons_eraseIdx hlt new⟩

theorem accepted_append (first second : List (PoolObservation α)) :
    accepted (first ++ second) = accepted first ++ accepted second := List.filterMap_append

/-- The workers are of four kinds. -/
theorem ThreadPool.length_eq (pool : ThreadPool α) :
    pool.workers.length = pool.checking + pool.waiting + pool.running + pool.exited := by
  unfold checking waiting running exited
  induction pool.workers with
  | nil => rfl
  | cons worker workers ih =>
    simp only [List.length_cons, List.countP_cons, ih]
    cases worker <;> simp [PoolWorker.is_checking, PoolWorker.is_waiting, PoolWorker.is_running,
      PoolWorker.is_exited] <;> omega

theorem ThreadPool.length_busy (pool : ThreadPool α) : pool.busy.length = pool.running := by
  unfold busy running
  induction pool.workers with
  | nil => rfl
  | cons worker workers ih =>
    rw [List.filterMap_cons, List.countP_cons, ← ih]
    cases worker <;> simp [PoolWorker.task?, PoolWorker.is_running]

/-- What `notify_all` does to the workers. -/
theorem ThreadPool.counts_woken (pool : ThreadPool α) :
    (pool.workers.map PoolWorker.woken).countP (·.is_checking) = pool.checking + pool.waiting ∧
      (pool.workers.map PoolWorker.woken).countP (·.is_waiting) = 0 ∧
      (pool.workers.map PoolWorker.woken).countP (·.is_running) = pool.running ∧
      (pool.workers.map PoolWorker.woken).countP (·.is_exited) = pool.exited ∧
      (pool.workers.map PoolWorker.woken).filterMap PoolWorker.task? = pool.busy := by
  unfold checking waiting running exited busy
  induction pool.workers with
  | nil => simp
  | cons worker workers ih =>
    obtain ⟨hchecking, hwaiting, hrunning, hexited, hbusy⟩ := ih
    simp only [List.map_cons, List.countP_cons, List.filterMap_cons, hchecking, hwaiting, hrunning, hexited, hbusy]
    cases worker <;> simp [PoolWorker.woken, PoolWorker.is_checking, PoolWorker.is_waiting, PoolWorker.is_running,
      PoolWorker.is_exited, PoolWorker.task?] <;> omega

/-- What the other workers do, when one of them changes. -/
theorem ThreadPool.counts_set {old : PoolWorker α} (hold : pool.workers[index]? = some old) (new : PoolWorker α) :
    ∃ (checking waiting running exited : Nat) (busy : List α),
      (pool.checking = checking + old.is_checking.toNat ∧ pool.waiting = waiting + old.is_waiting.toNat ∧
        pool.running = running + old.is_running.toNat ∧ pool.exited = exited + old.is_exited.toNat ∧
        pool.busy.Perm (old.task?.toList ++ busy)) ∧
      ((pool.set_worker index new).checking = checking + new.is_checking.toNat ∧
        (pool.set_worker index new).waiting = waiting + new.is_waiting.toNat ∧
        (pool.set_worker index new).running = running + new.is_running.toNat ∧
        (pool.set_worker index new).exited = exited + new.is_exited.toNat ∧
        (pool.set_worker index new).busy.Perm (new.task?.toList ++ busy)) := by
  obtain ⟨rest, hbefore, hafter⟩ := perm_set hold new
  have hcount : ∀ (p : PoolWorker α → Bool) (worker : PoolWorker α) (workers : List (PoolWorker α)),
      workers.Perm (worker :: rest) → workers.countP p = rest.countP p + (p worker).toNat := by
    intro p worker workers hperm
    rw [hperm.countP_eq, List.countP_cons]
    cases p worker <;> rfl
  have hbusy : ∀ (worker : PoolWorker α) (workers : List (PoolWorker α)), workers.Perm (worker :: rest) →
      (workers.filterMap PoolWorker.task?).Perm (worker.task?.toList ++ rest.filterMap PoolWorker.task?) := by
    intro worker workers hperm
    have hfiltered := hperm.filterMap PoolWorker.task?
    cases worker <;> exact hfiltered
  exact ⟨_, _, _, _, _,
    ⟨hcount _ _ _ hbefore, hcount _ _ _ hbefore, hcount _ _ _ hbefore, hcount _ _ _ hbefore, hbusy _ _ hbefore⟩,
    hcount _ _ _ hafter, hcount _ _ _ hafter, hcount _ _ _ hafter, hcount _ _ _ hafter, hbusy _ _ hafter⟩

/-- A worker without a task that changes into another one without a task. -/
theorem ThreadPool.busy_set_worker {old new : PoolWorker α} (hold : pool.workers[index]? = some old)
    (hfree : old.task? = none) (hidle : new.task? = none) : (pool.set_worker index new).busy.Perm pool.busy := by
  obtain ⟨_, _, _, _, busy, ⟨-, -, -, -, hbusy⟩, -, -, -, -, hbusy'⟩ := ThreadPool.counts_set hold new
  rw [hfree] at hbusy
  rw [hidle] at hbusy'
  exact hbusy'.trans hbusy.symm

theorem ThreadPool.step_cases (hstep : pool.step event = some (next, later)) : PoolStep pool event next later := by
  unfold ThreadPool.step at hstep
  cases event with
  | enqueue task =>
    dsimp only at hstep
    split at hstep
    · cases hstep
    · cases hstep
      exact .enqueue (by simpa using ‹¬pool.stop = true›)
  | notify_one index =>
    dsimp only at hstep
    split at hstep
    · cases hstep
    split at hstep
    · cases hstep
      exact .notify_one (Nat.pos_of_ne_zero ‹_›) ‹_›
    · cases hstep
  | notify_nobody =>
    dsimp only at hstep
    split at hstep
    · cases hstep
    rename_i hnobody
    cases hstep
    simp only [Bool.or_eq_true, not_or, decide_eq_true_eq, Bool.not_eq_true, List.any_eq_false] at hnobody
    refine .notify_nobody (Nat.pos_of_ne_zero hnobody.1) (List.countP_eq_zero.mpr fun worker hworker => ?_)
    simpa using hnobody.2 worker hworker
  | wake index =>
    dsimp only at hstep
    split at hstep
    · cases hstep
      exact .wake ‹_›
    · cases hstep
  | check index =>
    dsimp only at hstep
    split at hstep
    · split at hstep
      · cases hstep
        cases hstop : pool.stop with
        | true => exact .leave ‹_› ‹_› hstop
        | false => exact .sleep ‹_› ‹_› hstop
      · cases hstep
        exact .take ‹_› ‹_›
    · cases hstep
  | finish index =>
    dsimp only at hstep
    split at hstep
    · cases hstep
      exact .finish ‹_›
    · cases hstep
  | shutdown =>
    dsimp only at hstep
    split at hstep
    · cases hstep
    · cases hstep
      exact .shutdown (by simpa using ‹¬pool.stop = true›)
  | notify_all =>
    dsimp only at hstep
    split at hstep
    · cases hstep
      exact .notify_all ‹_›
    · cases hstep

theorem ThreadPool.new_sound (threads : Nat) : (ThreadPool.new threads : ThreadPool α).Sound threads [] where
  length := List.length_replicate
  in_order := rfl
  once := by
    have hbusy : (ThreadPool.new threads : ThreadPool α).busy = [] := by
      simp [busy, new, List.filterMap_replicate, PoolWorker.task?]
    rw [hbusy]
    exact List.Perm.refl _
  awake := by
    refine .inl ?_
    simp [waiting, new, List.countP_replicate, PoolWorker.is_waiting]
  stopped hstop := by cases hstop
  left hexited := by
    simp [exited, new, List.countP_replicate, PoolWorker.is_exited] at hexited

/-- A worker that wakes up is on its way to the tasks. -/
theorem ThreadPool.Sound.wake (h : pool.Sound threads log) (hold : pool.workers[index]? = some .waiting)
    {notifying : Nat} (hnotifying : pool.notifying ≤ notifying + 1) :
    ThreadPool.Sound { pool.set_worker index .checking with notifying := notifying } threads log := by
  obtain ⟨checking, waiting, running, exited, busy, ⟨hchecking, hwaiting, hrunning, hexited, hbusy⟩,
    hchecking', hwaiting', hrunning', hexited', hbusy'⟩ := ThreadPool.counts_set hold .checking
  have hawake := h.awake
  have hstopped := h.stopped
  have hleft := h.left
  simp only [PoolWorker.is_checking, PoolWorker.is_waiting, PoolWorker.is_exited, Bool.toNat_false,
    Bool.toNat_true] at hchecking hwaiting hexited hchecking' hwaiting' hexited'
  refine ⟨?_, h.in_order, h.once.trans ((hbusy.trans hbusy'.symm).append_left _), ?_, ?_, ?_⟩
  · exact (List.length_set ..).trans h.length
  · have henough := hawake.resolve_left (by omega)
    refine .inr ?_
    change pool.tasks.length ≤ notifying + (pool.set_worker index .checking).checking
    omega
  · exact fun hstop => .inr ((hstopped hstop).resolve_left (by omega))
  · intro hpositive
    have hsame : 0 < (pool.set_worker index .checking).exited := hpositive
    exact hleft (by omega)

/-- A worker that finds no task in a stopped pool leaves. -/
theorem ThreadPool.Sound.leave (h : pool.Sound threads log) (hold : pool.workers[index]? = some .checking)
    (htasks : pool.tasks = []) (hstop : pool.stop = true) : (pool.set_worker index .exited).Sound threads log := by
  obtain ⟨checking, waiting, running, exited, busy, ⟨hchecking, hwaiting, hrunning, hexited, hbusy⟩,
    hchecking', hwaiting', hrunning', hexited', hbusy'⟩ := ThreadPool.counts_set hold .exited
  have hstopped := h.stopped hstop
  simp only [PoolWorker.is_waiting, Bool.toNat_false] at hwaiting hwaiting'
  refine ⟨(List.length_set ..).trans h.length, h.in_order,
    h.once.trans ((hbusy.trans hbusy'.symm).append_left _), .inr ?_, ?_, fun _ => ⟨hstop, htasks⟩⟩
  · change pool.tasks.length ≤ _
    simp [htasks]
  · exact fun _ => hstopped.imp_left fun hnone => by omega

/-- A worker that finds no task goes to sleep. -/
theorem ThreadPool.Sound.sleep (h : pool.Sound threads log) (hold : pool.workers[index]? = some .checking)
    (htasks : pool.tasks = []) (hstop : pool.stop = false) : (pool.set_worker index .waiting).Sound threads log := by
  obtain ⟨checking, waiting, running, exited, busy, ⟨hchecking, hwaiting, hrunning, hexited, hbusy⟩,
    hchecking', hwaiting', hrunning', hexited', hbusy'⟩ := ThreadPool.counts_set hold .waiting
  have hleft := h.left
  simp only [PoolWorker.is_exited, Bool.toNat_false] at hexited hexited'
  refine ⟨(List.length_set ..).trans h.length, h.in_order,
    h.once.trans ((hbusy.trans hbusy'.symm).append_left _), .inr ?_, ?_, ?_⟩
  · change pool.tasks.length ≤ _
    simp [htasks]
  · exact fun hset => absurd (hstop.symm.trans hset) (by simp)
  · exact fun hpositive => hleft (by omega)

/-- A worker takes the first task. -/
theorem ThreadPool.Sound.take {task : α} {rest : List α} (h : pool.Sound threads log)
    (hold : pool.workers[index]? = some .checking) (htasks : pool.tasks = task :: rest) :
    ThreadPool.Sound { pool.set_worker index (.running task) with tasks := rest } threads
      (log ++ [.started task]) := by
  obtain ⟨checking, waiting, running, exited, busy, ⟨hchecking, hwaiting, hrunning, hexited, hbusy⟩,
    hchecking', hwaiting', hrunning', hexited', hbusy'⟩ := ThreadPool.counts_set hold (.running task)
  have hleft := h.left
  simp only [PoolWorker.is_checking, PoolWorker.is_waiting, PoolWorker.is_exited, Bool.toNat_false,
    Bool.toNat_true] at hchecking hwaiting hexited hchecking' hwaiting' hexited'
  have hstarted : started (log ++ [.started task]) = started log ++ [task] := by simp [started]
  have hsame : accepted (log ++ [.started task]) = accepted log ∧
      completed (log ++ [.started task]) = completed log := by
    simp [accepted, completed]
  refine ⟨(List.length_set ..).trans h.length, ?_, ?_, ?_, ?_, ?_⟩
  · rw [hsame.1, hstarted, h.in_order, htasks, List.append_assoc]
    rfl
  · rw [hsame.2, hstarted]
    have hmore : (completed log ++ (task :: pool.busy)).Perm
        (completed log ++ (pool.set_worker index (.running task)).busy) :=
      ((hbusy.cons task).trans hbusy'.symm).append_left _
    refine List.Perm.trans ?_ hmore
    exact (h.once.append_right [task]).trans ((List.perm_append_singleton task _).trans List.perm_middle.symm)
  · refine h.awake.imp (fun hnone => ?_) fun henough => ?_
    · change (pool.set_worker index (.running task)).waiting = 0
      omega
    · change rest.length ≤ pool.notifying + (pool.set_worker index (.running task)).checking
      rw [htasks, List.length_cons] at henough
      omega
  · intro hstop
    refine (h.stopped hstop).imp_left fun hnone => ?_
    change (pool.set_worker index (.running task)).waiting = 0
    omega
  · intro hpositive
    have hexited : 0 < (pool.set_worker index (.running task)).exited := hpositive
    have hempty := (hleft (by omega)).2
    rw [htasks] at hempty
    cases hempty

/-- A worker is done with its task. -/
theorem ThreadPool.Sound.finish {task : α} (h : pool.Sound threads log)
    (hold : pool.workers[index]? = some (.running task)) :
    (pool.set_worker index .checking).Sound threads (log ++ [.finished task]) := by
  obtain ⟨checking, waiting, running, exited, busy, ⟨hchecking, hwaiting, hrunning, hexited, hbusy⟩,
    hchecking', hwaiting', hrunning', hexited', hbusy'⟩ := ThreadPool.counts_set hold .checking
  have hleft := h.left
  simp only [PoolWorker.is_checking, PoolWorker.is_waiting, PoolWorker.is_exited, Bool.toNat_false,
    Bool.toNat_true] at hchecking hwaiting hexited hchecking' hwaiting' hexited'
  have hcompleted : completed (log ++ [.finished task]) = completed log ++ [task] := by simp [completed]
  have hsame : accepted (log ++ [.finished task]) = accepted log ∧
      started (log ++ [.finished task]) = started log := by
    simp [accepted, started]
  refine ⟨(List.length_set ..).trans h.length, ?_, ?_, ?_, ?_, ?_⟩
  · rw [hsame.1, hsame.2, h.in_order]
    rfl
  · rw [hsame.2, hcompleted, List.append_assoc]
    exact h.once.trans ((hbusy.trans (hbusy'.cons task).symm).append_left _)
  · refine h.awake.imp (fun hnone => ?_) fun henough => ?_
    · omega
    · change pool.tasks.length ≤ pool.notifying + (pool.set_worker index .checking).checking
      omega
  · exact fun hstop => (h.stopped hstop).imp_left fun hnone => by omega
  · exact fun hpositive => hleft (by omega)

theorem ThreadPool.Sound.enqueue (h : pool.Sound threads log) (hrunning : pool.stop = false) (task : α) :
    ThreadPool.Sound { pool with tasks := pool.tasks ++ [task], notifying := pool.notifying + 1 } threads
      (log ++ [.accepted task]) := by
  have hsame : started (log ++ [.accepted task]) = started log ∧ completed (log ++ [.accepted task]) = completed log := by
    simp [started, completed]
  refine ⟨h.length, ?_, ?_, ?_, h.stopped, fun hexited => ?_⟩
  · rw [accepted_append, hsame.1, h.in_order, List.append_assoc]
    rfl
  · rw [hsame.1, hsame.2]
    exact h.once
  · refine h.awake.imp_right fun henough => ?_
    change (pool.tasks ++ [task]).length ≤ pool.notifying + 1 + pool.checking
    rw [List.length_append, List.length_singleton]
    omega
  · exact absurd ((h.left hexited).1.symm.trans hrunning) (by simp)

/-- `notify_all` leaves nobody asleep. -/
theorem ThreadPool.Sound.notify_all (h : pool.Sound threads log) :
    ThreadPool.Sound { pool with workers := pool.workers.map PoolWorker.woken, stopping := false } threads log := by
  obtain ⟨hchecking, hwaiting, hrunning, hexited, hbusy⟩ := pool.counts_woken
  refine ⟨(List.length_map ..).trans h.length, h.in_order, ?_, .inl hwaiting, fun _ => .inl hwaiting, ?_⟩
  · unfold ThreadPool.busy
    rw [hbusy]
    exact h.once
  · intro hpositive
    unfold ThreadPool.exited at hpositive
    rw [hexited] at hpositive
    exact h.left hpositive

theorem ThreadPool.Sound.step (h : pool.Sound threads log) (hstep : pool.step event = some (next, later)) :
    next.Sound threads (log ++ later) := by
  cases ThreadPool.step_cases hstep with
  | enqueue hrunning => exact h.enqueue hrunning _
  | notify_one hcalling hasleep =>
    rw [List.append_nil]
    exact h.wake hasleep (by omega)
  | notify_nobody hcalling hawake =>
    rw [List.append_nil]
    exact ⟨h.length, h.in_order, h.once, .inl hawake, h.stopped, h.left⟩
  | wake hasleep =>
    rw [List.append_nil]
    exact h.wake hasleep (Nat.le_succ _)
  | leave hready hdrained hstopped =>
    rw [List.append_nil]
    exact h.leave hready hdrained hstopped
  | sleep hready hdrained hrunning =>
    rw [List.append_nil]
    exact h.sleep hready hdrained hrunning
  | take hready hqueued => exact h.take hready hqueued
  | finish hbusy => exact h.finish hbusy
  | shutdown hrunning =>
    rw [List.append_nil]
    exact ⟨h.length, h.in_order, h.once, h.awake, fun _ => .inr rfl, fun hexited => ⟨rfl, (h.left hexited).2⟩⟩
  | notify_all hstopping =>
    rw [List.append_nil]
    exact h.notify_all

theorem ThreadPool.Sound.run (h : pool.Sound threads log) (hrun : pool.run events = some (last, later)) :
    last.Sound threads (log ++ later) := by
  induction events generalizing pool log later with
  | nil =>
    cases hrun
    rwa [List.append_nil]
  | cons event events ih =>
    obtain ⟨⟨next, first⟩, hstep, hrest⟩ := Option.bind_eq_some_iff.mp hrun
    obtain ⟨⟨final, rest⟩, htail, heq⟩ := Option.map_eq_some_iff.mp hrest
    cases heq
    rw [← List.append_assoc]
    exact ih (h.step hstep) htail

/-- What a stopped pool can still do. -/
def ThreadPool.rank (pool : ThreadPool α) : Nat :=
  2 * pool.tasks.length + 2 * pool.running + 2 * pool.waiting + pool.checking + pool.notifying + pool.stopping.toNat

theorem ThreadPool.rank_set_worker {old new : PoolWorker α} (hold : pool.workers[index]? = some old)
    {tasks : List α} {notifying : Nat}
    (hless : 2 * tasks.length + 2 * new.is_running.toNat + 2 * new.is_waiting.toNat + new.is_checking.toNat + notifying <
      2 * pool.tasks.length + 2 * old.is_running.toNat + 2 * old.is_waiting.toNat + old.is_checking.toNat +
        pool.notifying) :
    ThreadPool.rank { pool.set_worker index new with tasks := tasks, notifying := notifying } < pool.rank := by
  obtain ⟨checking, waiting, running, exited, busy, ⟨hchecking, hwaiting, hrunning, -⟩,
    hchecking', hwaiting', hrunning', -⟩ := ThreadPool.counts_set hold new
  have hsame : ThreadPool.rank { pool.set_worker index new with tasks := tasks, notifying := notifying } =
      2 * tasks.length + 2 * (pool.set_worker index new).running + 2 * (pool.set_worker index new).waiting +
        (pool.set_worker index new).checking + notifying + pool.stopping.toNat := rfl
  rw [hsame, rank, hchecking, hwaiting, hrunning, hchecking', hwaiting', hrunning']
  omega

theorem ThreadPool.rank_notify_all (hstopping : pool.stopping = true) :
    ThreadPool.rank { pool with workers := pool.workers.map PoolWorker.woken, stopping := false } < pool.rank := by
  obtain ⟨hchecking, hwaiting, hrunning, -⟩ := pool.counts_woken
  unfold ThreadPool.rank ThreadPool.running ThreadPool.waiting ThreadPool.checking
  dsimp only
  rw [hchecking, hwaiting, hrunning, hstopping, Bool.toNat_true, Bool.toNat_false]
  unfold ThreadPool.running ThreadPool.waiting ThreadPool.checking
  omega

/-- Once a pool is stopped, every step brings it closer to its end. -/
theorem ThreadPool.step_rank (hstop : pool.stop = true) (hstep : pool.step event = some (next, later)) :
    next.stop = true ∧ accepted later = [] ∧ next.rank < pool.rank := by
  have hnot : pool.stop ≠ false := by simp [hstop]
  cases ThreadPool.step_cases hstep with
  | enqueue hrunning => exact absurd hrunning hnot
  | notify_one hcalling hasleep =>
    refine ⟨hstop, rfl, ThreadPool.rank_set_worker hasleep ?_⟩
    simp only [PoolWorker.is_running, PoolWorker.is_waiting, PoolWorker.is_checking, Bool.toNat_false, Bool.toNat_true]
    change 2 * pool.tasks.length + _ + _ + _ + _ < _
    omega
  | notify_nobody hcalling hawake =>
    refine ⟨hstop, rfl, ?_⟩
    change 2 * pool.tasks.length + 2 * pool.running + 2 * pool.waiting + pool.checking + (pool.notifying - 1) +
      pool.stopping.toNat < pool.rank
    rw [rank]
    omega
  | wake hasleep =>
    refine ⟨hstop, rfl, ThreadPool.rank_set_worker hasleep ?_⟩
    simp [PoolWorker.is_running, PoolWorker.is_waiting, PoolWorker.is_checking]
  | leave hready hdrained hstopped =>
    refine ⟨hstop, rfl, ThreadPool.rank_set_worker hready ?_⟩
    simp [PoolWorker.is_running, PoolWorker.is_waiting, PoolWorker.is_checking]
  | sleep hready hdrained hrunning => exact absurd hrunning hnot
  | take hready hqueued =>
    refine ⟨hstop, rfl, ThreadPool.rank_set_worker hready ?_⟩
    rw [hqueued, List.length_cons]
    simp only [PoolWorker.is_running, PoolWorker.is_waiting, PoolWorker.is_checking, Bool.toNat_false,
      Bool.toNat_true, ThreadPool.set_worker]
    omega
  | finish hbusy =>
    refine ⟨hstop, rfl, ThreadPool.rank_set_worker hbusy ?_⟩
    simp [PoolWorker.is_running, PoolWorker.is_waiting, PoolWorker.is_checking]
  | shutdown hrunning => exact absurd hrunning hnot
  | notify_all hstopping => exact ⟨hstop, rfl, ThreadPool.rank_notify_all hstopping⟩

/-- A step, without what happens in it. -/
def ThreadPool.move (pool : ThreadPool α) (event : PoolEvent α) : Option (ThreadPool α) :=
  (pool.step event).map Prod.fst

theorem ThreadPool.descends : Descends (ThreadPool.move (α := α)) (fun pool => pool.stop = true) ThreadPool.rank where
  keeps hstop hmove := by
    obtain ⟨⟨next, later⟩, hstep, rfl⟩ := Option.map_eq_some_iff.mp hmove
    exact (ThreadPool.step_rank hstop hstep).1
  down hstop hmove := by
    obtain ⟨⟨next, later⟩, hstep, rfl⟩ := Option.map_eq_some_iff.mp hmove
    exact (ThreadPool.step_rank hstop hstep).2.2

theorem ThreadPool.run_iff : (∃ later, pool.run events = some (last, later)) ↔
    runSteps ThreadPool.move pool events = some last := by
  induction events generalizing pool with
  | nil =>
    constructor
    · rintro ⟨later, hrun⟩
      cases hrun
      rfl
    · intro hrun
      cases hrun
      exact ⟨[], rfl⟩
  | cons event events ih =>
    constructor
    · rintro ⟨later, hrun⟩
      obtain ⟨⟨next, first⟩, hstep, hrest⟩ := Option.bind_eq_some_iff.mp hrun
      obtain ⟨⟨final, rest⟩, htail, heq⟩ := Option.map_eq_some_iff.mp hrest
      cases heq
      have hmove : pool.move event = some next := by rw [move, hstep, Option.map_some]
      rw [runSteps, hmove]
      exact ih.mp ⟨rest, htail⟩
    · intro hrun
      obtain ⟨next, hmove, hrest⟩ := Option.bind_eq_some_iff.mp hrun
      obtain ⟨⟨next, first⟩, hstep, rfl⟩ := Option.map_eq_some_iff.mp hmove
      obtain ⟨rest, htail⟩ := ih.mpr hrest
      refine ⟨first ++ rest, ?_⟩
      rw [run, hstep, Option.bind_some]
      dsimp only at htail ⊢
      rw [htail, Option.map_some]

theorem ThreadPool.run_accepts_nothing (hstop : pool.stop = true) (hrun : pool.run events = some (last, later)) :
    accepted later = [] ∧ last.stop = true := by
  induction events generalizing pool later with
  | nil =>
    cases hrun
    exact ⟨rfl, hstop⟩
  | cons event events ih =>
    obtain ⟨⟨next, first⟩, hstep, hrest⟩ := Option.bind_eq_some_iff.mp hrun
    obtain ⟨⟨final, rest⟩, htail, heq⟩ := Option.map_eq_some_iff.mp hrest
    cases heq
    obtain ⟨hnext, hnone, -⟩ := ThreadPool.step_rank hstop hstep
    obtain ⟨hrest, hlast⟩ := ih hnext htail
    exact ⟨by rw [accepted_append, hnone, hrest]; rfl, hlast⟩

/-- A worker of a kind that there is. -/
theorem exists_worker {p : PoolWorker α → Bool} (h : 0 < pool.workers.countP p) :
    ∃ (index : Nat) (worker : PoolWorker α), pool.workers[index]? = some worker ∧ p worker = true := by
  obtain ⟨worker, hmem, hworker⟩ := List.countP_pos_iff.mp h
  obtain ⟨index, hindex⟩ := List.mem_iff_getElem?.mp hmem
  exact ⟨index, worker, hindex, hworker⟩

/-- A stopped pool in which nothing can happen any more has executed all its tasks. -/
theorem ThreadPool.Sound.final (h : pool.Sound threads log) (hthreads : 0 < threads) (hstop : pool.stop = true)
    (hfinal : ∀ event, pool.step event = none) :
    (∀ worker ∈ pool.workers, worker = .exited) ∧ (completed log).Perm (accepted log) := by
  have hstopping : pool.stopping = false := by
    have hnone := hfinal .notify_all
    simp only [ThreadPool.step] at hnone
    split at hnone
    · cases hnone
    · rename_i hfalse
      simpa using hfalse
  have hwaiting : pool.waiting = 0 := (h.stopped hstop).resolve_right (by simp [hstopping])
  have hchecking : pool.checking = 0 := by
    by_contra hne
    obtain ⟨index, worker, hworker, hkind⟩ := exists_worker (Nat.pos_of_ne_zero hne)
    have hnone := hfinal (.check index)
    cases worker with
    | checking =>
      simp only [ThreadPool.step, hworker] at hnone
      split at hnone <;> cases hnone
    | _ => cases hkind
  have hrunning : pool.running = 0 := by
    by_contra hne
    obtain ⟨index, worker, hworker, hkind⟩ := exists_worker (Nat.pos_of_ne_zero hne)
    have hnone := hfinal (.finish index)
    cases worker with
    | running task =>
      simp only [ThreadPool.step, hworker] at hnone
      cases hnone
    | _ => cases hkind
  have hexited : pool.exited = pool.workers.length := by
    rw [pool.length_eq]
    omega
  have hempty := (h.left (by rw [hexited, h.length]; exact hthreads)).2
  constructor
  · intro worker hmem
    have hkind := List.countP_eq_length.mp hexited worker hmem
    cases worker with
    | exited => rfl
    | _ => cases hkind
  · have hbusy : pool.busy = [] := List.eq_nil_of_length_eq_zero (pool.length_busy.trans hrunning)
    have honce := h.once
    rw [hbusy, List.append_nil] at honce
    rw [h.in_order, hempty, List.append_nil]
    exact honce.symm

/-- Tasks are started in the order in which they were accepted, each one once, by no more
workers than there are. When every `enqueue` has returned, no worker sleeps while there
are more tasks than workers on their way to them; in particular one that is free is on
its way while there are tasks. -/
theorem ThreadPool.run_wakes (hrun : (ThreadPool.new threads).run events = some (pool, log)) :
    accepted log = started log ++ pool.tasks ∧ (started log).Perm (completed log ++ pool.busy) ∧
      pool.busy.length ≤ threads ∧
      (pool.notifying = 0 → (pool.waiting = 0 ∨ pool.tasks.length ≤ pool.checking) ∧
        (pool.tasks ≠ [] → pool.busy.length < threads → ∃ index : Nat, pool.workers[index]? = some .checking)) := by
  have hsound := (ThreadPool.new_sound threads).run hrun
  rw [List.nil_append] at hsound
  have hlength := pool.length_eq
  rw [hsound.length] at hlength
  refine ⟨hsound.in_order, hsound.once, by rw [pool.length_busy]; omega, fun hcalls => ?_⟩
  have hawake := hsound.awake
  rw [hcalls, Nat.zero_add] at hawake
  refine ⟨hawake, fun htasks hfree => ?_⟩
  have hexited : pool.exited = 0 := by
    by_contra hne
    exact htasks (hsound.left (Nat.pos_of_ne_zero hne)).2
  have hpositive : 0 < pool.checking := by
    have hlt := List.length_pos_iff.mpr htasks
    rw [pool.length_busy] at hfree
    omega
  obtain ⟨index, worker, hworker, hkind⟩ := exists_worker hpositive
  cases worker with
  | checking => exact ⟨index, hworker⟩
  | _ => cases hkind

/-- After `Shutdown` has set `stop`, the pool makes no more steps than its rank says,
whatever the workers do, and it can always come to its end. Then all workers have left
their loops, so that `Shutdown` returns, and each task that was ever accepted has been
executed exactly once. -/
theorem ThreadPool.run_shuts_down (hthreads : 0 < threads)
    (hrun : (ThreadPool.new threads).run events = some (pool, log)) (hstop : pool.stop = true) :
    (∀ events last later, pool.run events = some (last, later) → events.length ≤ pool.rank ∧
      ((∀ event, last.step event = none) →
        (∀ worker ∈ last.workers, worker = .exited) ∧ (completed (log ++ later)).Perm (accepted log))) ∧
      ∃ events last later, pool.run events = some (last, later) ∧ ∀ event, last.step event = none := by
  have hsound := (ThreadPool.new_sound threads).run hrun
  rw [List.nil_append] at hsound
  constructor
  · intro events last later hmore
    obtain ⟨-, hlength⟩ := ThreadPool.descends.run hstop (ThreadPool.run_iff.mp ⟨later, hmore⟩)
    refine ⟨by omega, fun hfinal => ?_⟩
    obtain ⟨hnone, hlast⟩ := ThreadPool.run_accepts_nothing hstop hmore
    obtain ⟨hexited, hall⟩ := (hsound.run hmore).final hthreads hlast hfinal
    rw [accepted_append, hnone, List.append_nil] at hall
    exact ⟨hexited, hall⟩
  · obtain ⟨events, last, hsteps, hfinal⟩ := ThreadPool.descends.exists_final hstop
    obtain ⟨later, hmore⟩ := ThreadPool.run_iff.mpr hsteps
    refine ⟨events, last, later, hmore, fun event => ?_⟩
    exact Option.map_eq_none_iff.mp (hfinal event)

/-- Two threads go to sleep, and both are woken for a task. -/
theorem ThreadPool.run_wakes_two : ∃ (pool : ThreadPool Nat) (log : List (PoolObservation Nat)),
    (ThreadPool.new 2).run [.check 0, .check 1, .enqueue 7, .enqueue 8, .notify_one 1, .notify_one 0, .check 1] =
      some (pool, log) ∧
    accepted log = started log ++ pool.tasks ∧ (started log).Perm (completed log ++ pool.busy) ∧
      pool.busy.length ≤ 2 ∧
      (pool.notifying = 0 → (pool.waiting = 0 ∨ pool.tasks.length ≤ pool.checking) ∧
        (pool.tasks ≠ [] → pool.busy.length < 2 → ∃ index : Nat, pool.workers[index]? = some .checking)) := by
  have hsome : ((ThreadPool.new 2 : ThreadPool Nat).run
      [.check 0, .check 1, .enqueue 7, .enqueue 8, .notify_one 1, .notify_one 0, .check 1]).isSome = true := rfl
  obtain ⟨⟨pool, log⟩, hrun⟩ := Option.isSome_iff_exists.mp hsome
  exact ⟨pool, log, hrun, ThreadPool.run_wakes hrun⟩

/-- A pool is stopped while a thread sleeps and a task is in the queue. -/
theorem ThreadPool.run_shuts_down_one : ∃ (pool : ThreadPool Nat) (log : List (PoolObservation Nat)),
    (ThreadPool.new 1).run [.check 0, .enqueue 7, .shutdown] = some (pool, log) ∧
      (∀ events last later, pool.run events = some (last, later) → events.length ≤ pool.rank ∧
        ((∀ event, last.step event = none) →
          (∀ worker ∈ last.workers, worker = .exited) ∧ (completed (log ++ later)).Perm (accepted log))) ∧
      ∃ events last later, pool.run events = some (last, later) ∧ ∀ event, last.step event = none := by
  have hstopped : ((ThreadPool.new 1 : ThreadPool Nat).run [.check 0, .enqueue 7, .shutdown]).map (·.1.stop) =
      some true := rfl
  obtain ⟨⟨pool, log⟩, hrun, hstop⟩ := Option.map_eq_some_iff.mp hstopped
  exact ⟨pool, log, hrun, ThreadPool.run_shuts_down (by decide) hrun hstop⟩

end

/-- The server's view of its thread pool after what happens to tasks. -/
inductive TcpServer.Follows : TcpServer → List (PoolObservation WorkerTask) → TcpServer → Prop
  | none {server} : Follows server [] server
  | accepted {server last log task} (rest : Follows { server with tasks := server.tasks ++ [task] } log last) :
      Follows server (.accepted task :: log) last
  | started {server last log task} (first : server.tasks.head? = some task)
      (free : server.busy.length < TcpServer.kWorkers) (rest : Follows server.worker_start.server log last) :
      Follows server (.started task :: log) last
  | finished {server last log task response} {index : Nat} (found : server.busy[index]? = some task)
      (rest : Follows (server.worker_finish index response).server log last) :
      Follows server (.finished task :: log) last

section

variable {pool next : ThreadPool WorkerTask} {server : TcpServer} {log later : List (PoolObservation WorkerTask)}
  {event : PoolEvent WorkerTask} {events : List (PoolEvent WorkerTask)}

theorem TcpServer.Follows.trans {middle last : TcpServer} (hfirst : server.Follows log middle)
    (hsecond : middle.Follows later last) : server.Follows (log ++ later) last := by
  induction hfirst with
  | none => exact hsecond
  | accepted _ ih => exact .accepted (ih hsecond)
  | started hhead hfree _ ih => exact .started hhead hfree (ih hsecond)
  | finished hfound _ ih => exact .finished hfound (ih hsecond)

/-- The server sees the queue of its pool and what its workers are executing. -/
structure TcpServer.Sees (server : TcpServer) (pool : ThreadPool WorkerTask) : Prop where
  tasks : server.tasks = pool.tasks
  busy : server.busy.Perm pool.busy

/-- A worker is free when one is on its way to the tasks. -/
theorem ThreadPool.Sound.follow_take {index : Nat} {task : WorkerTask} {rest : List WorkerTask}
    (hsound : pool.Sound TcpServer.kWorkers log) (h : server.Sees pool)
    (hready : pool.workers[index]? = some .checking) (hqueued : pool.tasks = task :: rest) :
    ∃ server', server.Follows [.started task] server' ∧
      server'.Sees { pool.set_worker index (.running task) with tasks := rest } := by
  obtain ⟨checking, _, _, _, busy, ⟨hchecking, -, -, -, hbusy⟩, -, -, -, -, hbusy'⟩ :=
    ThreadPool.counts_set hready (.running task)
  have hfree : server.busy.length < TcpServer.kWorkers := by
    have hlength := pool.length_eq
    simp only [PoolWorker.is_checking, Bool.toNat_true] at hchecking
    rw [hsound.length] at hlength
    rw [h.busy.length_eq, pool.length_busy]
    omega
  have hserver : server.worker_start.server = { server with tasks := rest, busy := server.busy ++ [task] } := by
    simp [TcpServer.worker_start, h.tasks, hqueued, hfree]
  refine ⟨_, .started (by rw [h.tasks, hqueued]; rfl) hfree .none, ?_⟩
  rw [hserver]
  refine ⟨rfl, (List.perm_append_singleton task _).trans ?_⟩
  exact ((h.busy.trans hbusy).cons task).trans hbusy'.symm

/-- The server finds the task that a worker of the pool ends. -/
theorem TcpServer.Sees.follow_finish {index : Nat} {task : WorkerTask} (h : server.Sees pool)
    (hrunning : pool.workers[index]? = some (.running task)) :
    ∃ server', server.Follows [.finished task] server' ∧ server'.Sees (pool.set_worker index .checking) := by
  obtain ⟨_, _, _, _, busy, ⟨-, -, -, -, hbusy⟩, -, -, -, -, hbusy'⟩ := ThreadPool.counts_set hrunning .checking
  have hmem : task ∈ server.busy := (h.busy.trans hbusy).mem_iff.mpr List.mem_cons_self
  obtain ⟨position, hposition⟩ := List.mem_iff_getElem?.mp hmem
  obtain ⟨hlt, hfound⟩ := List.getElem?_eq_some_iff.mp hposition
  refine ⟨(server.worker_finish position []).server, .finished hposition .none, ?_⟩
  have htaken : (task :: server.busy.eraseIdx position).Perm server.busy := by
    rw [← hfound]
    exact List.getElem_cons_eraseIdx_perm hlt
  simp only [TcpServer.worker_finish, hposition]
  refine ⟨h.tasks, List.Perm.cons_inv (a := task) ?_⟩
  exact (htaken.trans (h.busy.trans hbusy)).trans (hbusy'.symm.cons task)

theorem ThreadPool.Sound.follow (hsound : pool.Sound TcpServer.kWorkers log) (h : server.Sees pool)
    (hstep : pool.step event = some (next, later)) : ∃ server', server.Follows later server' ∧ server'.Sees next := by
  cases ThreadPool.step_cases hstep with
  | @enqueue task _ => exact ⟨_, .accepted .none, congrArg (· ++ [task]) h.tasks, h.busy⟩
  | notify_one _ hasleep =>
    exact ⟨server, .none, h.tasks, h.busy.trans (ThreadPool.busy_set_worker hasleep rfl rfl).symm⟩
  | notify_nobody => exact ⟨server, .none, h.tasks, h.busy⟩
  | wake hasleep => exact ⟨server, .none, h.tasks, h.busy.trans (ThreadPool.busy_set_worker hasleep rfl rfl).symm⟩
  | leave hready => exact ⟨server, .none, h.tasks, h.busy.trans (ThreadPool.busy_set_worker hready rfl rfl).symm⟩
  | sleep hready => exact ⟨server, .none, h.tasks, h.busy.trans (ThreadPool.busy_set_worker hready rfl rfl).symm⟩
  | take hready hqueued => exact hsound.follow_take h hready hqueued
  | finish hrunning => exact h.follow_finish hrunning
  | shutdown => exact ⟨server, .none, h.tasks, h.busy⟩
  | notify_all =>
    obtain ⟨-, -, -, -, hbusy⟩ := pool.counts_woken
    refine ⟨server, .none, h.tasks, ?_⟩
    unfold ThreadPool.busy
    rw [hbusy]
    exact h.busy

theorem ThreadPool.Sound.follows (hsound : pool.Sound TcpServer.kWorkers log) (h : server.Sees pool)
    (hrun : pool.run events = some (next, later)) : ∃ server', server.Follows later server' ∧ server'.Sees next := by
  induction events generalizing pool server log later with
  | nil =>
    cases hrun
    exact ⟨server, .none, h⟩
  | cons event events ih =>
    obtain ⟨⟨middle, first⟩, hstep, hrest⟩ := Option.bind_eq_some_iff.mp hrun
    obtain ⟨⟨final, rest⟩, htail, heq⟩ := Option.map_eq_some_iff.mp hrest
    cases heq
    obtain ⟨server', hfollows, hsees⟩ := hsound.follow h hstep
    obtain ⟨last, hlater, hlast⟩ := ih (hsound.step hstep) hsees htail
    exact ⟨last, hfollows.trans hlater, hlast⟩

/-- The pool of the server, with its mutex and its condition variable, does with tasks
what the server's queue and its at most `kWorkers` busy workers do. -/
theorem ThreadPool.run_refines (hrun : (ThreadPool.new TcpServer.kWorkers).run events = some (pool, log)) :
    ∃ server, TcpServer.start.Follows log server ∧ server.tasks = pool.tasks ∧ server.busy.Perm pool.busy := by
  have hstart : TcpServer.start.Sees (ThreadPool.new TcpServer.kWorkers) := by
    refine ⟨rfl, ?_⟩
    simp [TcpServer.start, ThreadPool.busy, ThreadPool.new, List.filterMap_replicate, PoolWorker.task?]
  obtain ⟨server, hfollows, hsees⟩ := (ThreadPool.new_sound TcpServer.kWorkers).follows hstart hrun
  exact ⟨server, hfollows, hsees.tasks, hsees.busy⟩

theorem ThreadPool.run_refines_task : ∃ (pool : ThreadPool WorkerTask) (log : List (PoolObservation WorkerTask)),
    (ThreadPool.new TcpServer.kWorkers).run
      [.check 3, .enqueue ⟨3, 1, 0, []⟩, .notify_one 3, .check 3, .enqueue ⟨3, 1, 1, []⟩, .finish 3, .check 0] =
        some (pool, log) ∧
      ∃ server, TcpServer.start.Follows log server ∧ server.tasks = pool.tasks ∧ server.busy.Perm pool.busy := by
  have hsome : ((ThreadPool.new TcpServer.kWorkers : ThreadPool WorkerTask).run
      [.check 3, .enqueue ⟨3, 1, 0, []⟩, .notify_one 3, .check 3, .enqueue ⟨3, 1, 1, []⟩, .finish 3,
        .check 0]).isSome = true := rfl
  obtain ⟨⟨pool, log⟩, hrun⟩ := Option.isSome_iff_exists.mp hsome
  exact ⟨pool, log, hrun, ThreadPool.run_refines hrun⟩

end

end NovaKV
