/-
  CircuitBroker/Proofs/Execution/Transcript.lean
  ==============================================
  **What a remote execution asks of its service.**

  A service is watched by writing every call down with its answer (`TaskService.logged`),
  which changes nothing about the execution (`execute_logged`).  One poll either leaves the
  task pending or ends the execution in one of the ways of `Concluded` (`resumeAt_logged`);
  by induction on the resumptions, whatever the clock shows around the calls, a task is asked
  for its status until an answer ends the execution (`Settles.concluded`).  `Transcript` puts
  this together with what happens before the first poll.
-/
import CircuitBroker.Execution.Dispatch
import CircuitBroker.Proofs.Counts
import CircuitBroker.Proofs.Traversal
import CircuitBroker.Service.Script

namespace CircuitBroker

variable {σ : Type}

/-! ## 1. Calls written down -/

inductive TaskCall where
  | create (payload : TaskPayload) (answer : Except ExecutionFailure String)
  | status (id : String) (answer : Except ExecutionFailure JobStatus)
  | result (id : String) (payload : TaskPayload) (answer : Except ExecutionFailure Counts)
  | cancel (id : String) (answer : Except ExecutionFailure Unit)

abbrev Logged (σ : Type) := σ × List TaskCall

/-- A call that is written down as soon as it is answered. -/
def Call.logged {α : Type} (call : Call σ α) (entry : Except ExecutionFailure α → TaskCall) :
    Call (Logged σ) α := fun (world, calls) =>
  let (answer, world) := call world
  (answer, world, calls ++ [entry answer])

def TaskService.logged (s : TaskService σ) : TaskService (Logged σ) where
  create payload := (s.create payload).logged (.create payload)
  status id := (s.status id).logged (.status id)
  result id payload := (s.result id payload).logged (.result id payload)
  cancel id := (s.cancel id).logged (.cancel id)

def PendingTask.logged (t : PendingTask σ) : PendingTask (Logged σ) :=
  ⟨t.service.logged, t.payload, t.job, t.started, t.deadline, t.timeout, t.interval⟩

def Adapter.logged (a : Adapter σ) : Adapter (Logged σ) where
  backend := a.backend
  translate := a.translate
  route := a.route
  connect request := (a.connect request).map TaskService.logged
  payload := a.payload

theorem Call.logged_of_eq {α : Type} {call : Call σ α} {entry : Except ExecutionFailure α → TaskCall}
    {answer : Except ExecutionFailure α} {world world' : σ} {calls : List TaskCall}
    (h : call world = (answer, world')) :
    call.logged entry (world, calls) = (answer, world', calls ++ [entry answer]) := by
  simp only [Call.logged, h]

/-- No result of a service has more counts than a word can hold. -/
def TaskService.Bounded (s : TaskService σ) : Prop :=
  ∀ id payload world counts, (s.result id payload world).1 = .ok counts → counts.sum < 2 ^ 64

/-- A payload asks for as many shots as the request. -/
def Adapter.KeepsRepetitions (a : Adapter σ) : Prop :=
  ∀ native request target payload, a.payload native request target = .ok payload →
    payload.shots = request.repetitions

theorem IbmBackend.keepsRepetitions (b : IbmBackend σ) (transport : Transport σ) :
    (b.adapter transport).KeepsRepetitions := by
  intro native request target payload h
  change IbmBackend.payload native request target = .ok payload at h
  unfold IbmBackend.payload at h
  split at h
  · split at h <;> cases h
    rfl
  · cases h

theorem IonBackend.keepsRepetitions (b : IonBackend σ) (transport : Transport σ) :
    (b.adapter transport).KeepsRepetitions := by
  intro native request target payload h
  change IonBackend.payload native request target = .ok payload at h
  unfold IonBackend.payload at h
  split at h
  · obtain ⟨document, -, h⟩ := bind_eq_ok.mp h
    cases h
    rfl
  · cases h

theorem BraketBackend.keepsRepetitions (b : BraketBackend σ) (transport : Transport σ) :
    (b.adapter transport).KeepsRepetitions := by
  intro native request target payload h
  change BraketBackend.payload native request target = .ok payload at h
  unfold BraketBackend.payload at h
  split at h <;> cases h
  rfl

theorem JobStatus.eq_of_isPending {status : JobStatus} (h : status.isPending = true) :
    status = .queued ∨ status = .running := by
  cases status with
  | queued => exact .inl rfl
  | running => exact .inr rfl
  | completed | failed | cancelled => cases h

namespace Dispatcher

/-! ## 2. One poll -/

section Build

variable [Build]

def polled (task : PendingTask σ) (polls : Nat) (status : JobStatus) (now : Instant) :
    PendingTask σ :=
  { task with job := { task.job with polls }.withStatus status now }

/-- The ways in which a status ends an execution once its poll has been counted: the calls that
    follow, and the outcome. -/
inductive Follows (task : PendingTask σ) (polls : Nat) (answered fetched : Instant) :
    JobStatus → List TaskCall → Except ExecutionFailure ExecutionResult → Prop
  | failed (reason : String) : Follows task polls answered fetched (.failed reason) []
      (.error (.taskFailed task.job.id reason))
  | cancelled :
      Follows task polls answered fetched .cancelled [] (.error (.taskCancelled task.job.id))
  | timedOut {status : JobStatus} (hpending : status.isPending = true)
      (hlate : task.deadline ≤ answered) (answer : Except ExecutionFailure Unit) :
      Follows task polls answered fetched status [.cancel task.job.id answer]
        (.error (.taskTimeout task.job.id task.timeout))
  | withheld (e : ExecutionFailure) : Follows task polls answered fetched .completed
      [.result task.job.id task.payload (.error e)] (.error e)
  | overflowing {counts : Counts} {world : σ} {fault : MachineFault}
      (hresult : (task.service.result task.job.id task.payload world).1 = .ok counts)
      (htotal : counts.total? = .error fault) :
      Follows task polls answered fetched .completed
        [.result task.job.id task.payload (.ok counts)] (.error (.machine fault))
  | incomplete {counts : Counts} {world : σ} {total : UInt64}
      (hresult : (task.service.result task.job.id task.payload world).1 = .ok counts)
      (htotal : counts.total? = .ok total) (hne : total.toNat ≠ task.payload.shots) :
      Follows task polls answered fetched .completed
        [.result task.job.id task.payload (.ok counts)]
        (.error (.incompleteResult task.job.id task.payload.shots total.toNat))
  | complete {counts : Counts} {world : σ} {total : UInt64}
      (hresult : (task.service.result task.job.id task.payload world).1 = .ok counts)
      (htotal : counts.total? = .ok total) (heq : total.toNat = task.payload.shots) :
      Follows task polls answered fetched .completed
        [.result task.job.id task.payload (.ok counts)]
        (.ok ⟨counts, task.payload.shots, some task.job.backend, some (fetched - task.started),
          some (polled task polls .completed answered).job⟩)

/-- The ways in which a poll ends an execution: the answer to the poll, the calls that follow it,
    and the outcome. -/
inductive Concluded (task : PendingTask σ) (answered fetched : Instant) :
    Except ExecutionFailure JobStatus → List TaskCall → Except ExecutionFailure ExecutionResult → Prop
  | unknown (e : ExecutionFailure) : Concluded task answered fetched (.error e) [] (.error e)
  | uncounted {status : JobStatus} {fault : MachineFault}
      (hpolls : Word.reduce UInt32.size (task.job.polls + 1) = .error fault) :
      Concluded task answered fetched (.ok status) [] (.error (.machine fault))
  | counted {status : JobStatus} {polls : Nat} {last : List TaskCall}
      {outcome : Except ExecutionFailure ExecutionResult}
      (hpolls : Word.reduce UInt32.size (task.job.polls + 1) = .ok polls)
      (h : Follows task polls answered fetched status last outcome) :
      Concluded task answered fetched (.ok status) last outcome

theorem collect_of_error {task : PendingTask σ} {now : Instant} {world world' : σ}
    {e : ExecutionFailure}
    (h : task.service.result task.job.id task.payload world = (.error e, world')) :
    collect task now world = (.error e, world') := by
  unfold collect
  rw [h]

theorem collect_of_overflow {task : PendingTask σ} {now : Instant} {world world' : σ}
    {counts : Counts} {fault : MachineFault}
    (h : task.service.result task.job.id task.payload world = (.ok counts, world'))
    (htotal : counts.total? = .error fault) :
    collect task now world = (.error (.machine fault), world') := by
  unfold collect
  simp only [h, htotal]

theorem collect_of_short {task : PendingTask σ} {now : Instant} {world world' : σ} {counts : Counts}
    {total : UInt64} (h : task.service.result task.job.id task.payload world = (.ok counts, world'))
    (htotal : counts.total? = .ok total) (hne : total.toNat ≠ task.payload.shots) :
    collect task now world =
      (.error (.incompleteResult task.job.id task.payload.shots total.toNat), world') := by
  unfold collect
  simp only [h, htotal]
  exact if_pos hne

theorem collect_of_full {task : PendingTask σ} {now : Instant} {world world' : σ} {counts : Counts}
    {total : UInt64} (h : task.service.result task.job.id task.payload world = (.ok counts, world'))
    (htotal : counts.total? = .ok total) (heq : total.toNat = task.payload.shots) :
    collect task now world = (.ok ⟨counts, task.payload.shots, some task.job.backend,
      some (now - task.started), some task.job⟩, world') := by
  unfold collect
  simp only [h, htotal]
  exact if_neg (not_not_intro heq)

/-- The result of a completed task, as one last call. -/
theorem collect_logged (task : PendingTask σ) (polls : Nat) (answered fetched : Instant) (world : σ)
    (calls : List TaskCall) :
    ∃ last outcome world', Follows task polls answered fetched .completed last outcome ∧
      collect (polled task polls .completed answered) fetched world = (outcome, world') ∧
      collect (polled task polls .completed answered).logged fetched (world, calls) =
        (outcome, world', calls ++ last) := by
  obtain ⟨answer, world', hresult⟩ : ∃ answer world',
      task.service.result task.job.id task.payload world = (answer, world') := ⟨_, _, rfl⟩
  have hlogged : task.logged.service.result task.job.id task.payload (world, calls) =
      (answer, world', calls ++ [.result task.job.id task.payload answer]) :=
    Call.logged_of_eq hresult
  cases answer with
  | error e => exact ⟨_, _, _, .withheld e, collect_of_error hresult, collect_of_error hlogged⟩
  | ok counts =>
    have hanswer := congrArg Prod.fst hresult
    match htotal : counts.total? with
    | .error fault =>
      exact ⟨_, _, _, .overflowing hanswer htotal, collect_of_overflow hresult htotal,
        collect_of_overflow hlogged htotal⟩
    | .ok total =>
      by_cases heq : total.toNat = task.payload.shots
      · exact ⟨_, _, _, .complete hanswer htotal heq, collect_of_full hresult htotal heq,
          collect_of_full hlogged htotal heq⟩
      · exact ⟨_, _, _, .incomplete hanswer htotal heq, collect_of_short hresult htotal heq,
          collect_of_short hlogged htotal heq⟩

def follow (task : PendingTask σ) (status : JobStatus) (answered fetched : Instant) (world : σ) :
    Progress σ × σ :=
  match status with
  | .completed => (.ended (collect task fetched world).1, (collect task fetched world).2)
  | .failed reason => (.ended (.error (.taskFailed task.job.id reason)), world)
  | .cancelled => (.ended (.error (.taskCancelled task.job.id)), world)
  | .queued | .running =>
    if answered < task.deadline then (.asleep task (answered + pause task answered), world)
    else
      (.ended (.error (.taskTimeout task.job.id task.timeout)),
        (task.service.cancel task.job.id world).2)

section Answers

variable {task : PendingTask σ} {answered fetched : Instant} {world world₁ : σ} {status : JobStatus}

theorem resumeAt_of_error {e : ExecutionFailure}
    (h : task.service.status task.job.id world = (.error e, world₁)) :
    resumeAt task answered fetched world = (.ended (.error e), world₁) := by
  unfold resumeAt
  rw [h]

theorem resumeAt_of_uncounted {fault : MachineFault}
    (h : task.service.status task.job.id world = (.ok status, world₁))
    (hpolls : Word.reduce UInt32.size (task.job.polls + 1) = .error fault) :
    resumeAt task answered fetched world = (.ended (.error (.machine fault)), world₁) := by
  unfold resumeAt
  simp only [h, hpolls]

theorem resumeAt_of_ok {polls : Nat}
    (h : task.service.status task.job.id world = (.ok status, world₁))
    (hpolls : Word.reduce UInt32.size (task.job.polls + 1) = .ok polls) :
    resumeAt task answered fetched world =
      follow (polled task polls status answered) status answered fetched world₁ := by
  unfold resumeAt
  simp only [h, hpolls]
  cases status <;> rfl

end Answers

/-- A poll of a watched task: it is the poll of the task itself, and what it does is one of
    two things. -/
theorem resumeAt_logged (task : PendingTask σ) (answered fetched : Instant) (world : σ)
    (calls : List TaskCall) :
    (∃ status polls world', task.service.status task.job.id world = (.ok status, world') ∧
      Word.reduce UInt32.size (task.job.polls + 1) = .ok polls ∧
      status.isPending = true ∧ answered < task.deadline ∧
      resumeAt task answered fetched world =
        (.asleep (polled task polls status answered) (answered + pause task answered), world') ∧
      resumeAt task.logged answered fetched (world, calls) =
        (.asleep (polled task polls status answered).logged (answered + pause task answered),
          world', calls ++ [.status task.job.id (.ok status)])) ∨
    ∃ last outcome world',
      Concluded task answered fetched (task.service.status task.job.id world).1 last outcome ∧
      resumeAt task answered fetched world = (.ended outcome, world') ∧
      resumeAt task.logged answered fetched (world, calls) = (.ended outcome, world',
        calls ++ .status task.job.id (task.service.status task.job.id world).1 :: last) := by
  obtain ⟨answer, world₁, hstatus⟩ : ∃ answer world₁, task.service.status task.job.id world =
      (answer, world₁) := ⟨_, _, rfl⟩
  have hlogged : task.logged.service.status task.logged.job.id (world, calls) =
      (answer, world₁, calls ++ [.status task.job.id answer]) := Call.logged_of_eq hstatus
  rw [hstatus]
  cases answer with
  | error e =>
    exact .inr ⟨_, _, _, .unknown e, resumeAt_of_error hstatus, resumeAt_of_error hlogged⟩
  | ok status =>
    match hpolls : Word.reduce UInt32.size (task.job.polls + 1) with
    | .error fault =>
      exact .inr ⟨_, _, _, .uncounted hpolls, resumeAt_of_uncounted hstatus hpolls,
        resumeAt_of_uncounted hlogged hpolls⟩
    | .ok polls =>
      rw [resumeAt_of_ok hstatus hpolls, resumeAt_of_ok hlogged hpolls]
      cases status with
      | failed reason => exact .inr ⟨_, _, _, .counted hpolls (.failed reason), rfl, rfl⟩
      | cancelled => exact .inr ⟨_, _, _, .counted hpolls .cancelled, rfl, rfl⟩
      | completed =>
        obtain ⟨last, outcome, world', hfollows, hcollect, hcollectLogged⟩ :=
          collect_logged task polls answered fetched world₁
            (calls ++ [.status task.job.id (.ok .completed)])
        refine .inr ⟨_, _, world', .counted hpolls hfollows,
          congrArg (Prod.map Progress.ended id) hcollect, ?_⟩
        rw [List.append_assoc] at hcollectLogged
        exact congrArg (Prod.map Progress.ended id) hcollectLogged
      | queued | running =>
        unfold follow
        dsimp only
        by_cases hearly : answered < task.deadline
        · rw [if_pos (show answered < (polled task polls _ answered).deadline from hearly),
            if_pos (show answered < (polled task.logged polls _ answered).deadline from hearly)]
          exact .inl ⟨_, _, _, rfl, rfl, rfl, hearly, rfl, rfl⟩
        · rw [if_neg (show ¬ answered < (polled task polls _ answered).deadline from hearly),
            if_neg (show ¬ answered < (polled task.logged polls _ answered).deadline from hearly)]
          refine .inr ⟨_, _, _, .counted hpolls (.timedOut ?_ (Nat.le_of_not_lt hearly) _), rfl,
            congrArg (fun calls => (_, _, calls)) (List.append_assoc ..)⟩
          rfl

theorem resume_logged (task : PendingTask σ) (now : Instant) (world : σ) (calls : List TaskCall) :
    (∃ status polls world', task.service.status task.job.id world = (.ok status, world') ∧
      Word.reduce UInt32.size (task.job.polls + 1) = .ok polls ∧
      status.isPending = true ∧ now < task.deadline ∧
      resume task now world =
        (.asleep (polled task polls status now) (now + pause task now), world') ∧
      resume task.logged now (world, calls) =
        (.asleep (polled task polls status now).logged (now + pause task now),
          world', calls ++ [.status task.job.id (.ok status)])) ∨
    ∃ last outcome world',
      Concluded task now now (task.service.status task.job.id world).1 last outcome ∧
      resume task now world = (.ended outcome, world') ∧
      resume task.logged now (world, calls) = (.ended outcome, world',
        calls ++ .status task.job.id (task.service.status task.job.id world).1 :: last) :=
  resumeAt_logged task now now world calls

/-! ## 3. Poll after poll -/

/-- An execution that is resumed again and again, each time no earlier than it wakes, until
    it ends: when its polls are answered is up to the clock and the service. -/
inductive Settles : Progress σ × σ → Readings → Except ExecutionFailure ExecutionResult →
    Readings → σ → Prop
  | ended {outcome : Except ExecutionFailure ExecutionResult} {world : σ} {clock : Readings} :
      Settles (.ended outcome, world) clock outcome clock world
  | resumed {task : PendingTask σ} {wake answered fetched : Instant} {clock final : Readings}
      {world world' : σ} {outcome : Except ExecutionFailure ExecutionResult}
      (hdue : wake ≤ answered) (hfetched : answered ≤ fetched)
      (h : Settles (resumeAt task answered fetched world) { clock with answered, fetched } outcome
        final world') :
      Settles (.asleep task wake, world) clock outcome final world'

/-- When a task was submitted does not change any more. -/
theorem Settles.created_eq {progress : Progress σ × σ} {clock final : Readings} {world' : σ}
    {outcome : Except ExecutionFailure ExecutionResult}
    (h : Settles progress clock outcome final world') :
    final.started = clock.started ∧ final.created = clock.created := by
  induction h with
  | ended => exact ⟨rfl, rfl⟩
  | resumed _ _ _ ih => exact ih

theorem complete_of_ended {task : PendingTask σ} {now : Instant} {world world' : σ}
    {outcome : Except ExecutionFailure ExecutionResult}
    (h : resume task now world = (.ended outcome, world')) :
    complete task now world = (outcome, now, world') := by
  rw [complete]
  split <;> simp_all

theorem complete_of_asleep {task task' : PendingTask σ} {now wake : Instant} {world world' : σ}
    (h : resume task now world = (.asleep task' wake, world')) :
    complete task now world = complete task' wake world' := by
  rw [complete]
  split <;> simp_all

/-- One execution alone is resumed whenever it wakes. -/
theorem settles_complete (task : PendingTask σ) (started created now : Instant) (world : σ) :
    Settles (resume task now world) ⟨started, created, now, now⟩ (complete task now world).1
      ⟨started, created, (complete task now world).2.1, (complete task now world).2.1⟩
      (complete task now world).2.2 := by
  fun_induction complete task now world with
  | case1 task now world outcome world' h => rw [h]; exact .ended
  | case2 task now world task' wake world' h _ ih =>
    rw [h]
    exact .resumed (Nat.le_refl _) (Nat.le_refl _) ih

/-- Watching a task changes neither its outcome nor the time at which it is known. -/
theorem complete_logged (task : PendingTask σ) (now : Instant) (world : σ) (calls : List TaskCall) :
    ∃ calls', complete task.logged now (world, calls) = ((complete task now world).1,
      (complete task now world).2.1, (complete task now world).2.2, calls') := by
  fun_induction complete task now world generalizing calls with
  | case1 task now world outcome world' h =>
    rcases resume_logged task now world calls with
      ⟨_, _, _, -, -, -, -, hasleep, -⟩ | ⟨_, _, _, -, hended, hlogged⟩
    · rw [h] at hasleep
      cases hasleep
    · rw [h] at hended
      cases hended
      exact ⟨_, complete_of_ended hlogged⟩
  | case2 task now world task' wake world' h _ ih =>
    rcases resume_logged task now world calls with
      ⟨_, _, _, -, -, -, -, hasleep, hlogged⟩ | ⟨_, _, _, -, hended, -⟩
    · rw [h] at hasleep
      cases hasleep
      rw [complete_of_asleep hlogged]
      exact ih _
    · rw [h] at hended
      cases hended

/-- A watched task is asked for its status until an answer ends the execution: all answers
    before that one say that it is still on its way, and each of their polls has been counted. -/
theorem Settles.concluded {progress : Progress (Logged σ) × Logged σ} {clock final : Readings}
    {outcome : Except ExecutionFailure ExecutionResult} {world' : Logged σ}
    (h : Settles progress clock outcome final world') (task : PendingTask σ) (world : σ)
    (calls : List TaskCall) (made : Nat) (hmade : Word.reduce UInt32.size made = .ok task.job.polls)
    (hprogress : progress = resumeAt task.logged clock.answered clock.fetched (world, calls)) :
    ∃ (earlier : List JobStatus) (answer : Except ExecutionFailure JobStatus)
      (last : List TaskCall) (job : Job),
      (∀ status ∈ earlier, status.isPending = true) ∧ job.id = task.job.id ∧
      job.backend = task.job.backend ∧
      Word.reduce UInt32.size (made + earlier.length) = .ok job.polls ∧
      world'.2 = calls ++ (earlier.map (.status task.job.id <| .ok ·) ++
        .status task.job.id answer :: last) ∧
      Concluded { task with job } final.answered final.fetched answer last outcome := by
  induction h generalizing task world calls made with
  | ended =>
    rcases resumeAt_logged task _ _ world calls with
      ⟨_, _, _, -, -, -, -, -, hlogged⟩ | ⟨last, _, _, hconcluded, -, hlogged⟩
    · rw [hlogged] at hprogress
      cases hprogress
    · rw [hlogged] at hprogress
      cases hprogress
      exact ⟨[], _, last, task.job, by simp, rfl, rfl, hmade, rfl, hconcluded⟩
  | @resumed task' wake answered fetched clock final world₁ world' outcome hdue hfetched h ih =>
    rcases resumeAt_logged task clock.answered clock.fetched world calls with
      ⟨status, polls, _, -, hpolls, hpending, -, -, hlogged⟩ | ⟨_, _, _, -, -, hlogged⟩
    · rw [hlogged] at hprogress
      cases hprogress
      have hcounted : Word.reduce UInt32.size (made + 1) = .ok polls :=
        (Word.reduce_succ hmade).symm.trans hpolls
      obtain ⟨earlier, answer, last, job, hearlier, hid, hbackend, hlength, hcalls, hconcluded⟩ :=
        ih (polled task polls status clock.answered) _ _ (made + 1) hcounted rfl
      refine ⟨status :: earlier, answer, last, job, ?_, hid, hbackend, ?_, ?_, hconcluded⟩
      · exact List.forall_mem_cons.mpr ⟨hpending, hearlier⟩
      · rw [List.length_cons, Nat.add_comm earlier.length, ← Nat.add_assoc, hlength]
      · rw [hcalls]
        simp [polled, Job.withStatus]
    · rw [hlogged] at hprogress
      cases hprogress

/-! ## 4. Up to the first poll -/

def createdAt (service : TaskService σ) (backend : Backend) (payload : TaskPayload)
    (request : ExecutionRequest) (id : String) (clock : Readings) : PendingTask σ :=
  ⟨service, payload, .new id backend payload.shots clock.created, clock.started,
    clock.created + request.pollTimeout, request.pollTimeout, request.pollInterval⟩

def created (service : TaskService σ) (backend : Backend) (payload : TaskPayload)
    (request : ExecutionRequest) (id : String) (now : Instant) : PendingTask σ :=
  createdAt service backend payload request id (.still now)

/-- A submission either fails or is the first poll of a task; a watched one does the same. -/
theorem submitAt_logged (service : TaskService σ) (backend : Backend) (payload : TaskPayload)
    (request : ExecutionRequest) (clock : Readings) (world : σ) (calls : List TaskCall) :
    (∃ e world', submitAt service backend payload request clock world =
        (.ended (.error e), world') ∧
      submitAt service.logged backend payload request clock (world, calls) =
        (.ended (.error e), world', calls ++ [.create payload (.error e)])) ∨
    (∃ id world', endOfTime ≤ clock.created + request.pollTimeout ∧
      submitAt service backend payload request clock world =
        (.ended (.error (.machine .timeOutOfRange)), world') ∧
      submitAt service.logged backend payload request clock (world, calls) =
        (.ended (.error (.machine .timeOutOfRange)), world', calls ++ [.create payload (.ok id)])) ∨
    ∃ id world', submitAt service backend payload request clock world =
        resumeAt (createdAt service backend payload request id clock) clock.answered clock.fetched
          world' ∧
      submitAt service.logged backend payload request clock (world, calls) =
        resumeAt (createdAt service backend payload request id clock).logged clock.answered
          clock.fetched (world', calls ++ [.create payload (.ok id)]) := by
  obtain ⟨answer, world', hcreate⟩ : ∃ answer world', service.create payload world =
      (answer, world') := ⟨_, _, rfl⟩
  have hlogged : service.logged.create payload (world, calls) =
      (answer, world', calls ++ [.create payload answer]) := Call.logged_of_eq hcreate
  unfold submitAt
  rw [hcreate, hlogged]
  cases answer with
  | error e => exact .inl ⟨e, world', rfl, rfl⟩
  | ok id =>
    dsimp only
    by_cases htime : endOfTime ≤ clock.created + request.pollTimeout
    · rw [if_pos htime, if_pos htime]
      exact .inr (.inl ⟨id, world', htime, rfl, rfl⟩)
    · rw [if_neg htime, if_neg htime]
      exact .inr (.inr ⟨id, world', rfl, rfl⟩)

theorem submit_logged (service : TaskService σ) (backend : Backend) (payload : TaskPayload)
    (request : ExecutionRequest) (now : Instant) (world : σ) (calls : List TaskCall) :
    (∃ e world', submit service backend payload request now world = (.ended (.error e), world') ∧
      submit service.logged backend payload request now (world, calls) =
        (.ended (.error e), world', calls ++ [.create payload (.error e)])) ∨
    (∃ id world', endOfTime ≤ now + request.pollTimeout ∧
      submit service backend payload request now world =
        (.ended (.error (.machine .timeOutOfRange)), world') ∧
      submit service.logged backend payload request now (world, calls) =
        (.ended (.error (.machine .timeOutOfRange)), world', calls ++ [.create payload (.ok id)])) ∨
    ∃ id world', submit service backend payload request now world =
        resume (created service backend payload request id now) now world' ∧
      submit service.logged backend payload request now (world, calls) =
        resume (created service backend payload request id now).logged now
          (world', calls ++ [.create payload (.ok id)]) :=
  submitAt_logged service backend payload request (.still now) world calls

section Remote

variable {d : Dispatcher} {adapter : Adapter σ} {native : Native Float} {request : ExecutionRequest}
  {target : String} {clock final : Readings} {now : Instant}

/-- What is found wrong with a remote request before its service is asked for anything. -/
inductive Refused (adapter : Adapter σ) (native : Native Float) (request : ExecutionRequest)
    (target : String) (e : ExecutionFailure) : Prop
  | invalid (h : request.validate = .error e)
  | unreachable (hvalid : request.validate (R := Float) = .ok ())
      (h : adapter.connect request = .error e)
  | unwritten (hvalid : request.validate (R := Float) = .ok ())
      (h : adapter.payload native request target = .error e)

/-- A remote request is refused without a call, or its payload is submitted; the same is true
    of a watched one. -/
theorem beginAt_logged (d : Dispatcher) (hroute : adapter.route request = .ok (.remote target))
    (native : Native Float) (clock : Readings) (world : σ) (calls : List TaskCall) :
    (∃ e, Refused adapter native request target e ∧
      d.beginAt adapter native request clock world = (.ended (.error e), world) ∧
      d.beginAt adapter.logged native request clock (world, calls) =
        (.ended (.error e), world, calls)) ∨
    ∃ service payload, request.validate (R := Float) = .ok () ∧
      adapter.connect request = .ok service ∧
      adapter.payload native request target = .ok payload ∧
      d.beginAt adapter native request clock world =
        submitAt service adapter.backend payload request clock world ∧
      d.beginAt adapter.logged native request clock (world, calls) =
        submitAt service.logged adapter.backend payload request clock (world, calls) := by
  unfold beginAt
  cases hvalid : request.validate (R := Float) with
  | error e => exact .inl ⟨e, .invalid hvalid, rfl, rfl⟩
  | ok =>
    simp only [Adapter.logged, hroute, bind, Except.bind]
    cases hconnect : adapter.connect request with
    | error e => exact .inl ⟨e, .unreachable hvalid hconnect, rfl, rfl⟩
    | ok service =>
      cases hpayload : adapter.payload native request target with
      | error e => exact .inl ⟨e, .unwritten hvalid hpayload, rfl, rfl⟩
      | ok payload => exact .inr ⟨service, payload, trivial, rfl, rfl, rfl, rfl⟩

theorem begin_logged (d : Dispatcher) (hroute : adapter.route request = .ok (.remote target))
    (native : Native Float) (now : Instant) (world : σ) (calls : List TaskCall) :
    (∃ e, Refused adapter native request target e ∧
      d.begin adapter native request now world = (.ended (.error e), world) ∧
      d.begin adapter.logged native request now (world, calls) =
        (.ended (.error e), world, calls)) ∨
    ∃ service payload, request.validate (R := Float) = .ok () ∧
      adapter.connect request = .ok service ∧
      adapter.payload native request target = .ok payload ∧
      d.begin adapter native request now world =
        submit service adapter.backend payload request now world ∧
      d.begin adapter.logged native request now (world, calls) =
        submit service.logged adapter.backend payload request now (world, calls) :=
  beginAt_logged d hroute native (.still now) world calls

/-! ## 5. Whole executions -/

/-- How the polling of a task goes and what comes of it.  `earlier` are the answers to all
    polls but the last, `answer` is that to the last one, and `last` are the calls after it. -/
structure Polling (request : ExecutionRequest) (backend : Backend) (payload : TaskPayload)
    (clock : Readings) (id : String) (earlier : List JobStatus)
    (answer : Except ExecutionFailure JobStatus) (last : List TaskCall)
    (outcome : Except ExecutionFailure ExecutionResult) : Prop where
  earlier_pending : ∀ status ∈ earlier, status = .queued ∨ status = .running
  last_calls : last = [] ∨ (∃ reply, last = [.result id payload reply]) ∨
    ∃ reply, last = [.cancel id reply]
  result_iff : (∃ reply, last = [.result id payload reply]) ↔ answer = .ok .completed
  cancel_iff : (∃ reply, last = [.cancel id reply]) ↔
    clock.created + request.pollTimeout ≤ clock.answered ∧
      (answer = .ok .queued ∨ answer = .ok .running)
  of_error : ∀ e, answer = .error e → outcome = .error e
  of_failed : ∀ reason, answer = .ok (.failed reason) → outcome = .error (.taskFailed id reason)
  of_cancelled : answer = .ok .cancelled → outcome = .error (.taskCancelled id)
  /-- Whatever the cancellation is answered with. -/
  of_timeout : ∀ reply, last = [.cancel id reply] →
    outcome = .error (.taskTimeout id request.pollTimeout)
  of_withheld : ∀ e, last = [.result id payload (.error e)] → outcome = .error e
  of_short : ∀ counts, last = [.result id payload (.ok counts)] →
    counts.sum ≠ request.repetitions →
    outcome = .error (.incompleteResult id request.repetitions counts.sum)
  of_full : ∀ counts, last = [.result id payload (.ok counts)] →
    counts.sum = request.repetitions → ∃ result, outcome = .ok result
  /-- As many polls as there were, up to what 32 bits can count. -/
  of_ok : ∀ result, outcome = .ok result → ∃ counts job,
    last = [.result id payload (.ok counts)] ∧ counts.sum = request.repetitions ∧
    result = ⟨counts, request.repetitions, some backend, some (clock.fetched - clock.started),
      some job⟩ ∧
    job.id = id ∧ job.status = .completed ∧
    Word.reduce UInt32.size (earlier.length + 1) = .ok job.polls

inductive Transcript (adapter : Adapter σ) (native : Native Float) (request : ExecutionRequest)
    (target : String) (clock : Readings) :
    List TaskCall → Except ExecutionFailure ExecutionResult → Prop
  | refused {e : ExecutionFailure} (h : Refused adapter native request target e) :
      Transcript adapter native request target clock [] (.error e)
  | notCreated {payload : TaskPayload} (hvalid : request.validate (R := Float) = .ok ())
      (hpayload : adapter.payload native request target = .ok payload) (e : ExecutionFailure) :
      Transcript adapter native request target clock [.create payload (.error e)] (.error e)
  | outOfTime {payload : TaskPayload} {id : String}
      (hvalid : request.validate (R := Float) = .ok ())
      (hpayload : adapter.payload native request target = .ok payload)
      (htime : endOfTime ≤ clock.created + request.pollTimeout) :
      Transcript adapter native request target clock [.create payload (.ok id)]
        (.error (.machine .timeOutOfRange))
  /-- More polls than are counted, which are never as many in a build that does not check. -/
  | outOfPolls {payload : TaskPayload} {id : String} {earlier : List JobStatus} {status : JobStatus}
      (hvalid : request.validate (R := Float) = .ok ())
      (hpayload : adapter.payload native request target = .ok payload)
      (hearlier : ∀ status ∈ earlier, status = .queued ∨ status = .running)
      (hpolls : Word.reduce UInt32.size (earlier.length + 1) = .error .overflow) :
      Transcript adapter native request target clock
        (.create payload (.ok id) ::
          (earlier.map (.status id <| .ok ·) ++ [.status id (.ok status)]))
        (.error (.machine .overflow))
  | polled {payload : TaskPayload} {id : String} {earlier : List JobStatus}
      {answer : Except ExecutionFailure JobStatus} {last : List TaskCall}
      {outcome : Except ExecutionFailure ExecutionResult}
      (hvalid : request.validate (R := Float) = .ok ())
      (hpayload : adapter.payload native request target = .ok payload)
      (h : Polling request adapter.backend payload clock id earlier answer last outcome) :
      Transcript adapter native request target clock
        (.create payload (.ok id) ::
          (earlier.map (.status id <| .ok ·) ++ .status id answer :: last)) outcome

/-- The way in which a counted poll ends the execution is that of the whole polling. -/
theorem Follows.polling {service : TaskService σ} {backend : Backend} {payload : TaskPayload}
    {id : String} {clock : Readings} {job : Job} {earlier : List JobStatus} {polls : Nat}
    {status : JobStatus} {last : List TaskCall} {outcome : Except ExecutionFailure ExecutionResult}
    (h : Follows { createdAt service backend payload request id clock with job } polls clock.answered
      clock.fetched status last outcome)
    (hearlier : ∀ status ∈ earlier, status = .queued ∨ status = .running) (hid : job.id = id)
    (hbackend : job.backend = backend)
    (hpolls : Word.reduce UInt32.size (earlier.length + 1) = .ok polls)
    (hshots : payload.shots = request.repetitions) (hbounded : service.Bounded) :
    Polling request backend payload clock id earlier (.ok status) last outcome := by
  subst hid
  cases h with
  | failed reason => constructor <;> simp_all
  | cancelled => constructor <;> simp_all
  | timedOut hstatus hlate reply =>
    simp only [createdAt] at hlate
    cases status <;> cases hstatus <;> constructor <;> simp_all [createdAt]
  | withheld e => constructor <;> simp_all [createdAt]
  | @overflowing counts world fault hresult htotal =>
    obtain ⟨⟨hlarge, -⟩, -⟩ := Counts.total?_eq_error_iff.mp htotal
    exact absurd (hbounded _ _ _ _ hresult) (Nat.not_lt.mpr hlarge)
  | @incomplete counts world total hresult htotal hne =>
    obtain ⟨-, rfl⟩ := Counts.total?_eq_ok_iff.mp htotal
    have hsum := Counts.toNat_total (hbounded _ _ _ _ hresult)
    constructor <;> simp_all [createdAt]
  | @complete counts world total hresult htotal heq =>
    obtain ⟨-, rfl⟩ := Counts.total?_eq_ok_iff.mp htotal
    have hsum := Counts.toNat_total (hbounded _ _ _ _ hresult)
    constructor <;> simp_all [createdAt, Dispatcher.polled, Job.withStatus]

/-- Whenever the polls of a watched execution are answered, its calls and its outcome are those
    of a transcript. -/
theorem Settles.transcript {d : Dispatcher} {world : σ}
    {outcome : Except ExecutionFailure ExecutionResult} {world' : Logged σ}
    (hroute : adapter.route request = .ok (.remote target)) (hkeeps : adapter.KeepsRepetitions)
    (hbounded : ∀ service, adapter.connect request = .ok service → service.Bounded)
    (h : Settles (d.beginAt adapter.logged native request clock (world, [])) clock outcome final
      world') :
    Transcript adapter native request target final world'.2 outcome := by
  obtain ⟨hstarted, hcreated⟩ := h.created_eq
  rcases beginAt_logged d hroute native clock world [] with
    ⟨e, hrefused, -, hbegin⟩ | ⟨service, payload, hvalid, hconnect, hpayload, -, hbegin⟩
  · rw [hbegin] at h
    cases h
    exact .refused hrefused
  · rcases submitAt_logged service adapter.backend payload request clock world [] with
      ⟨e, _, -, hsubmit⟩ | ⟨id, _, htime, -, hsubmit⟩ | ⟨id, _, -, hsubmit⟩
    · rw [hbegin, hsubmit] at h
      cases h
      exact .notCreated hvalid hpayload e
    · rw [hbegin, hsubmit] at h
      cases h
      exact .outOfTime hvalid hpayload htime
    · obtain ⟨earlier, answer, last, job, hpending, hid, hbackend, hpolls, hcalls, hconcluded⟩ :=
        h.concluded _ _ _ 0 rfl (hbegin.trans hsubmit)
      have hearlier : ∀ status ∈ earlier, status = .queued ∨ status = .running :=
        fun status hmem => JobStatus.eq_of_isPending (hpending status hmem)
      rw [Nat.zero_add] at hpolls
      rw [hcalls]
      cases hconcluded with
      | unknown e =>
        refine .polled hvalid hpayload ?_
        constructor <;> simp_all
      | @uncounted status fault hoverflow =>
        rw [Word.reduce_succ hpolls] at hoverflow
        obtain rfl := (Word.reduce_eq_error_iff.mp hoverflow).2
        exact .outOfPolls hvalid hpayload hearlier hoverflow
      | @counted status polls last outcome hcounted hfollows =>
        rw [Word.reduce_succ hpolls] at hcounted
        have hclock : createdAt service adapter.backend payload request id clock =
            createdAt service adapter.backend payload request id final := by
          rw [createdAt, createdAt, hstarted, hcreated]
        rw [hclock] at hfollows
        exact .polled hvalid hpayload (hfollows.polling hearlier hid hbackend hcounted
          (hkeeps _ _ _ _ hpayload) (hbounded service hconnect))

/-- An execution is one of those that are resumed whenever they wake. -/
theorem settles_execute (d : Dispatcher) (adapter : Adapter σ) (native : Native Float)
    (request : ExecutionRequest) (now : Instant) (world : σ) :
    Settles (d.begin adapter native request now world) (.still now)
      (d.execute adapter native request now world).1
      ⟨now, now, (d.execute adapter native request now world).2.1,
        (d.execute adapter native request now world).2.1⟩
      (d.execute adapter native request now world).2.2 := by
  unfold execute
  split
  · rename_i hbegin
    rw [hbegin]
    exact .ended
  · rename_i hbegin
    rw [hbegin]
    exact .resumed (Nat.le_refl _) (Nat.le_refl _) (settles_complete _ _ _ _ _)

/-- An execution that begins with a poll is the completion of the polled task. -/
theorem execute_of_resume {d : Dispatcher} {now : Instant} {world world' : σ} {task : PendingTask σ}
    (h : d.begin adapter native request now world = resume task now world') :
    d.execute adapter native request now world = complete task now world' := by
  unfold execute
  rw [h]
  match hresume : resume task now world' with
  | (.ended _, _) => exact (complete_of_ended hresume).symm
  | (.asleep _ _, _) => exact (complete_of_asleep hresume).symm

/-- Watching a remote execution changes neither its outcome nor the time at which it is
    known, nor what it leaves behind. -/
theorem execute_logged (d : Dispatcher) (hroute : adapter.route request = .ok (.remote target))
    (native : Native Float) (now : Instant) (world : σ) :
    ∃ calls, d.execute adapter.logged native request now (world, []) =
      ((d.execute adapter native request now world).1,
        (d.execute adapter native request now world).2.1,
        (d.execute adapter native request now world).2.2, calls) := by
  rcases begin_logged d hroute native now world [] with
    ⟨e, -, hbegin, hlogged⟩ | ⟨service, payload, -, -, -, hbegin, hlogged⟩
  · unfold execute
    rw [hbegin, hlogged]
    exact ⟨_, rfl⟩
  · rcases submit_logged service adapter.backend payload request now world [] with
      ⟨_, _, hsubmit, hsubmitLogged⟩ | ⟨_, _, -, hsubmit, hsubmitLogged⟩ |
        ⟨_, _, hsubmit, hsubmitLogged⟩
    · unfold execute
      rw [hbegin, hlogged, hsubmit, hsubmitLogged]
      exact ⟨_, rfl⟩
    · unfold execute
      rw [hbegin, hlogged, hsubmit, hsubmitLogged]
      exact ⟨_, rfl⟩
    · rw [execute_of_resume (hbegin.trans hsubmit), execute_of_resume (hlogged.trans hsubmitLogged)]
      exact complete_logged _ _ _ _

omit [Build] in
theorem validate_of_zero
    (h : request.repetitions = 0 ∨ request.pollTimeout = 0 ∨ request.pollInterval = 0) :
    ∃ reason, request.validate (R := Float) = .error (.malformedRequest reason) := by
  unfold ExecutionRequest.validate
  split
  · exact ⟨_, rfl⟩
  · rename_i hrepetitions
    rw [if_pos (h.resolve_left hrepetitions).symm]
    exact ⟨_, rfl⟩

theorem Transcript.of_invalid {calls : List TaskCall}
    {outcome : Except ExecutionFailure ExecutionResult} {e : ExecutionFailure}
    (h : Transcript adapter native request target clock calls outcome)
    (hinvalid : request.validate = .error e) : calls = [] ∧ outcome = .error e := by
  cases h with
  | refused h =>
    cases h with
    | invalid h =>
      rw [hinvalid] at h
      exact ⟨rfl, by rw [Except.error.inj h]⟩
    | unreachable hvalid | unwritten hvalid => simp [hinvalid] at hvalid
  | notCreated hvalid | outOfTime hvalid | outOfPolls hvalid | polled hvalid =>
    simp [hinvalid] at hvalid

/-- A remote execution follows the protocol of its service, whatever the service answers and
    whatever the clock shows when it does. -/
theorem execute_transcript (d : Dispatcher) (hroute : adapter.route request = .ok (.remote target))
    (hkeeps : adapter.KeepsRepetitions)
    (hbounded : ∀ service, adapter.connect request = .ok service → service.Bounded)
    (native : Native Float) :
    (∀ now world,
      ∃ calls, d.execute adapter.logged native request now (world, []) =
          ((d.execute adapter native request now world).1,
            (d.execute adapter native request now world).2.1,
            (d.execute adapter native request now world).2.2, calls) ∧
        Transcript adapter native request target
          ⟨now, now, (d.execute adapter native request now world).2.1,
            (d.execute adapter native request now world).2.1⟩
          calls (d.execute adapter native request now world).1) ∧
    ∀ clock world outcome final world',
      Settles (d.beginAt adapter.logged native request clock (world, [])) clock outcome final
        world' →
      Transcript adapter native request target final world'.2 outcome ∧
        (request.repetitions = 0 ∨ request.pollTimeout = 0 ∨ request.pollInterval = 0 →
          world'.2 = [] ∧ ∃ reason, outcome = .error (.malformedRequest reason)) := by
  refine ⟨fun now world => ?_, fun clock world outcome final world' h => ?_⟩
  · obtain ⟨calls, hlogged⟩ := execute_logged d hroute native now world
    have hsettles := settles_execute d adapter.logged native request now (world, [])
    rw [hlogged] at hsettles
    exact ⟨calls, hlogged, hsettles.transcript hroute hkeeps hbounded⟩
  · have htranscript := h.transcript hroute hkeeps hbounded
    refine ⟨htranscript, fun hzero => ?_⟩
    obtain ⟨reason, hinvalid⟩ := validate_of_zero hzero
    obtain ⟨hcalls, houtcome⟩ := htranscript.of_invalid hinvalid
    exact ⟨hcalls, reason, houtcome⟩

end Remote

end Build

/-! ### A task that does not end -/

/-- A service whose tasks keep running and cannot be cancelled. -/
def unending : ServiceScript :=
  ⟨.ok "task-1", .ok (some ⟨[("0", 1024)]⟩), .error "no such task"⟩

def unendingAdapter : Adapter ScriptState := IonBackend.adapter ⟨"", some unending.service⟩ .offline

def impatient : ExecutionRequest :=
  { ExecutionRequest.new .ionq with
    credential := some ⟨"key"⟩, pollTimeout := 5, pollInterval := 60 }

theorem execute_transcript_unending :
    unendingAdapter.KeepsRepetitions ∧
      (∀ service, unendingAdapter.connect impatient = .ok service → service.Bounded) ∧
      (∃ calls world, (⟨⟨0, 1⟩⟩ : Dispatcher).execute unendingAdapter.logged (.ion ⟨.empty 1⟩)
          impatient 0 (⟨[], []⟩, []) = (.error (.taskTimeout "task-1" 5), 5, world, calls) ∧
        Transcript unendingAdapter (.ion ⟨.empty 1⟩) impatient "simulator" ⟨0, 0, 5, 5⟩ calls
          (.error (.taskTimeout "task-1" 5))) ∧
      -- an answer that comes behind the deadline is the first and the last
      ∃ payload world, Transcript unendingAdapter (.ion ⟨.empty 1⟩) impatient "simulator"
        ⟨0, 1, 7, 7⟩ [.create payload (.ok "task-1"), .status "task-1" (.ok .running),
          .cancel "task-1" (unending.service.cancel "task-1" world).1]
        (.error (.taskTimeout "task-1" 5)) := by
  have hkeeps : unendingAdapter.KeepsRepetitions := IonBackend.keepsRepetitions _ _
  have hbounded : ∀ service, unendingAdapter.connect impatient = .ok service → service.Bounded := by
    intro service hconnect id payload world counts hresult
    cases hconnect
    cases hresult
    change (⟨[("0", 1024)]⟩ : Counts).sum < 2 ^ 64
    decide
  obtain ⟨task, world, world', hbegin, hresume⟩ : ∃ task world world',
      (⟨⟨0, 1⟩⟩ : Dispatcher).begin unendingAdapter (.ion ⟨.empty 1⟩) impatient 0 ⟨[], []⟩ =
        (.asleep task 5, world) ∧
      resume task 5 world = (.ended (.error (.taskTimeout "task-1" 5)), world') :=
    ⟨_, _, _, rfl, rfl⟩
  have hexecute : (⟨⟨0, 1⟩⟩ : Dispatcher).execute unendingAdapter (.ion ⟨.empty 1⟩) impatient 0
      ⟨[], []⟩ = (.error (.taskTimeout "task-1" 5), 5, world') := by
    unfold execute
    rw [hbegin]
    exact complete_of_ended hresume
  obtain ⟨halone, hsettles⟩ :=
    execute_transcript ⟨⟨0, 1⟩⟩ rfl hkeeps hbounded (.ion ⟨.empty 1⟩)
  obtain ⟨calls, hlogged, htranscript⟩ := halone 0 ⟨[], []⟩
  rw [hexecute] at hlogged htranscript
  exact ⟨hkeeps, hbounded, ⟨calls, world', hlogged, htranscript⟩, _, ⟨[], []⟩,
    (hsettles ⟨0, 1, 7, 7⟩ ⟨[], []⟩ _ _ _ .ended).1⟩

def tireless : ExecutionRequest := { impatient with pollTimeout := .ofSeconds (UInt64.size - 1) }

end Dispatcher

end CircuitBroker
