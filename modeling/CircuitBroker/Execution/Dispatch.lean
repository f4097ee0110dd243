/-
  CircuitBroker/Execution/Dispatch.lean
  =====================================
  **Carrying out a request.**

  A local request is run by the simulator at once.  A remote one is submitted and then
  polled: each poll either ends the execution or says when to poll again, which is never
  later than the deadline, and the poll at the deadline is the last.  `beginAt` and
  `resumeAt` are the execution up to its next pause, with what the clock shows around the
  calls; `begin` and `resume` are the same with a clock that stands still meanwhile, and
  `complete` lets the pauses pass one after the other.
-/
import CircuitBroker.Execution.Adapter
import CircuitBroker.Execution.Result

namespace CircuitBroker

structure Dispatcher where
  simulator : Simulator
  deriving DecidableEq, Inhabited

/-- A submitted task that is not known to have ended. -/
structure PendingTask (σ : Type) where
  service : TaskService σ
  payload : TaskPayload
  job : Job
  started : Instant
  deadline : Instant
  timeout : Duration
  interval : Duration

/-- An execution between two calls: asleep until some time, or over. -/
inductive Progress (σ : Type) where
  | asleep (task : PendingTask σ) (wake : Instant)
  | ended (outcome : Except ExecutionFailure ExecutionResult)

/-- What the clock shows up to the first pause of an execution: before anything is asked of
    the service, when the task has been created, when its first poll has been answered, and
    when its result has come. -/
structure Readings where
  started : Instant
  created : Instant
  answered : Instant
  fetched : Instant

def Readings.still (now : Instant) : Readings := ⟨now, now, now, now⟩

namespace Dispatcher

variable {σ : Type} [Build]

/-- The first instant that a clock of 64-bit seconds cannot show. -/
def endOfTime : Instant := Duration.ofSeconds (1 <<< 63)

/-- The result of a completed task, whose counts must be as many as were asked for. -/
def collect (task : PendingTask σ) (now : Instant) : Call σ ExecutionResult := fun world =>
  match task.service.result task.job.id task.payload world with
  | (.error e, world) => (.error e, world)
  | (.ok counts, world) =>
    match counts.total? with
    | .error fault => (.error (.machine fault), world)
    | .ok total =>
      let actual := total.toNat
      if actual ≠ task.payload.shots then
        (.error (.incompleteResult task.job.id task.payload.shots actual), world)
      else
        (.ok ⟨counts, task.payload.shots, some task.job.backend, some (now - task.started),
          some task.job⟩, world)

/-- How long to wait before the next poll: the interval, but not beyond the deadline; some
    time always passes. -/
def pause (task : PendingTask σ) (now : Instant) : Duration :=
  max 1 (min task.interval (task.deadline - now))

/-- One poll of a task, and what follows from its answer.  Polls are counted in 32 bits. -/
def resumeAt (task : PendingTask σ) (answered fetched : Instant) (world : σ) :
    Progress σ × σ :=
  match task.service.status task.job.id world with
  | (.error e, world) => (.ended (.error e), world)
  | (.ok status, world) =>
    match Word.reduce UInt32.size (task.job.polls + 1) with
    | .error fault => (.ended (.error (.machine fault)), world)
    | .ok polls =>
      let job := ({ task.job with polls }).withStatus status answered
      let task := { task with job }
      match status with
      | .completed =>
        let (outcome, world) := collect task fetched world
        (.ended outcome, world)
      | .failed reason => (.ended (.error (.taskFailed job.id reason)), world)
      | .cancelled => (.ended (.error (.taskCancelled job.id)), world)
      | .queued | .running =>
        if answered < task.deadline then (.asleep task (answered + pause task answered), world)
        else
          let (_, world) := task.service.cancel job.id world
          (.ended (.error (.taskTimeout job.id task.timeout)), world)

def resume (task : PendingTask σ) (now : Instant) (world : σ) : Progress σ × σ :=
  resumeAt task now now world

/-- The submission of a payload and the first poll.  The deadline counts from the time at which
    the task has been created. -/
def submitAt (service : TaskService σ) (backend : Backend) (payload : TaskPayload)
    (request : ExecutionRequest) (clock : Readings) (world : σ) : Progress σ × σ :=
  match service.create payload world with
  | (.error e, world) => (.ended (.error e), world)
  | (.ok id, world) =>
    let deadline := clock.created + request.pollTimeout
    if endOfTime ≤ deadline then (.ended (.error (.machine .timeOutOfRange)), world)
    else
      resumeAt ⟨service, payload, .new id backend payload.shots clock.created, clock.started,
        deadline, request.pollTimeout, request.pollInterval⟩ clock.answered clock.fetched world

def submit (service : TaskService σ) (backend : Backend) (payload : TaskPayload)
    (request : ExecutionRequest) (now : Instant) (world : σ) : Progress σ × σ :=
  submitAt service backend payload request (.still now) world

def runLocal (d : Dispatcher) (backend : Backend) (native : Native Float) (shots : Nat) :
    Except ExecutionFailure ExecutionResult := do
  let lowered ← native.lower
  let counts ← d.simulator.run lowered shots
  return ⟨counts, shots, some backend, some 0, none⟩

/-- An execution up to its first pause.  Nothing is asked of a service before the request,
    its route, its credential and its payload have all been accepted. -/
def beginAt (d : Dispatcher) (adapter : Adapter σ) (native : Native Float)
    (request : ExecutionRequest) (clock : Readings) (world : σ) : Progress σ × σ :=
  let plan : Except ExecutionFailure
      (ExecutionResult ⊕ (TaskService σ × TaskPayload)) := do
    request.validate
    match ← adapter.route request with
    | .local => return .inl (← d.runLocal adapter.backend native request.repetitions)
    | .remote target =>
      let service ← adapter.connect request
      let payload ← adapter.payload native request target
      return .inr (service, payload)
  match plan with
  | .error e => (.ended (.error e), world)
  | .ok (.inl result) => (.ended (.ok result), world)
  | .ok (.inr (service, payload)) =>
    submitAt service adapter.backend payload request clock world

def begin (d : Dispatcher) (adapter : Adapter σ) (native : Native Float)
    (request : ExecutionRequest) (now : Instant) (world : σ) : Progress σ × σ :=
  d.beginAt adapter native request (.still now) world

/-! ### One execution alone -/

theorem wake_of_resumeAt {task task' : PendingTask σ} {answered fetched wake : Instant}
    {world world' : σ} (h : resumeAt task answered fetched world = (.asleep task' wake, world')) :
    answered < task.deadline ∧ answered < wake ∧ task'.deadline = task.deadline := by
  unfold resumeAt at h
  split at h
  · simp at h
  · split at h
    · simp at h
    · dsimp only at h
      split at h
      case h_2 | h_3 => simp at h
      case h_1 => simp at h
      all_goals
        split at h
        · rename_i hlt
          simp only [Prod.mk.injEq, Progress.asleep.injEq] at h
          obtain ⟨⟨rfl, rfl⟩, -⟩ := h
          exact ⟨hlt, Nat.lt_add_of_pos_right (Nat.le_max_left 1 _), rfl⟩
        · simp at h

theorem wake_of_resume {task task' : PendingTask σ} {now wake : Instant} {world world' : σ}
    (h : resume task now world = (.asleep task' wake, world')) :
    now < task.deadline ∧ now < wake ∧ task'.deadline = task.deadline :=
  wake_of_resumeAt h

/-- The outcome of an execution that is asleep until `now`, with the time at which it is
    over. -/
def complete (task : PendingTask σ) (now : Instant) (world : σ) :
    Except ExecutionFailure ExecutionResult × Instant × σ :=
  match h : resume task now world with
  | (.ended outcome, world) => (outcome, now, world)
  | (.asleep task' wake, world) =>
    have := wake_of_resume h
    complete task' wake world
termination_by task.deadline - now
decreasing_by
  obtain ⟨h1, h2, h3⟩ := this
  rw [h3]
  exact Nat.sub_lt_sub_left h1 h2

def execute (d : Dispatcher) (adapter : Adapter σ) (native : Native Float)
    (request : ExecutionRequest) (now : Instant) (world : σ) :
    Except ExecutionFailure ExecutionResult × Instant × σ :=
  match d.begin adapter native request now world with
  | (.ended outcome, world) => (outcome, now, world)
  | (.asleep task wake, world) => complete task wake world

end Dispatcher

end CircuitBroker
