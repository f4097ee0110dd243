/-
  CircuitBroker/Proofs/Execution/Isolation.lean
  =============================================
  **Executions at the same time come out as each would alone.**

  The calls about one task may be confined to a part of the world, and may spare a part of it.
  Two runs of a task whose calls are confined to a part that looks the same in both go the
  same way, later or earlier (`finish_twin`).  If each of several executions is confined to a
  part that the others spare, a round of resumptions changes nothing about how any of them
  will finish (`resumeDue_apart`), and so nothing does (`settle_apart`).
-/
import CircuitBroker.Execution.Schedule
import CircuitBroker.Proofs.Execution.Transcript

namespace CircuitBroker

variable {σ τ : Type}

/-! ## 1. Outcomes without their times -/

/-- A job without its times; that there are such times stays. -/
def Job.timeless (j : Job) : Job :=
  { j with
    createdAt := 0
    startedAt := j.startedAt.map fun _ => 0
    finishedAt := j.finishedAt.map fun _ => 0 }

def ExecutionResult.timeless (r : ExecutionResult) : ExecutionResult :=
  { r with elapsed := r.elapsed.map fun _ => 0, job := r.job.map Job.timeless }

/-- An outcome without the times in it. -/
def timelessOutcome (outcome : Except ExecutionFailure ExecutionResult) :
    Except ExecutionFailure ExecutionResult :=
  outcome.map ExecutionResult.timeless

theorem Job.timeless_withStatus (j : Job) (status : JobStatus) (now : Instant) :
    (j.withStatus status now).timeless = j.timeless.withStatus status 0 := by
  obtain ⟨id, status', shots, backend, created, started, finished, polls⟩ := j
  cases status <;> cases started <;> cases finished <;> rfl

theorem timelessOutcome_eq_error {outcome : Except ExecutionFailure ExecutionResult}
    {e : ExecutionFailure} : timelessOutcome outcome = .error e ↔ outcome = .error e := by
  cases outcome <;> simp [timelessOutcome, Except.map]

/-! ## 2. What calls see and touch -/

abbrev CallProperty (σ : Type) := (α : Type) → Call σ α → Prop

/-- The answer is decided by a part of the world, and so is this part afterwards. -/
def confined (view : σ → τ) : CallProperty σ := fun _ call =>
  ∀ world world', view world = view world' →
    (call world).1 = (call world').1 ∧ view (call world).2 = view (call world').2

/-- A part of the world stays as it is. -/
def sparing (view : σ → τ) : CallProperty σ := fun _ call => ∀ world, view (call world).2 = view world

structure TaskService.TaskCalls (s : TaskService σ) (payload : TaskPayload)
    (P : CallProperty σ) : Prop where
  create : P _ (s.create payload)
  status : ∀ world id, (s.create payload world).1 = .ok id → P _ (s.status id)
  result : ∀ world id, (s.create payload world).1 = .ok id → P _ (s.result id payload)
  cancel : ∀ world id, (s.create payload world).1 = .ok id → P _ (s.cancel id)

structure PendingTask.PollCalls (t : PendingTask σ) (P : CallProperty σ) : Prop where
  status : P _ (t.service.status t.job.id)
  result : P _ (t.service.result t.job.id t.payload)
  cancel : P _ (t.service.cancel t.job.id)

def Progress.PollCalls (p : Progress σ) (P : CallProperty σ) : Prop :=
  match p with
  | .asleep task _ => task.PollCalls P
  | .ended _ => True

/-! ## 3. Two runs of one task -/

/-- The same task in two runs, the one begun at `a` and the other at `b`. -/
structure PendingTask.Twin (a b : Instant) (t t' : PendingTask σ) : Prop where
  service : t'.service = t.service
  payload : t'.payload = t.payload
  job : t'.job.timeless = t.job.timeless
  deadline : t.deadline + b = t'.deadline + a
  timeout : t'.timeout = t.timeout
  interval : t'.interval = t.interval

inductive Progress.Twin (a b : Instant) : Progress σ → Progress σ → Prop
  | asleep {t t' : PendingTask σ} {wake wake' : Instant} (htask : t.Twin a b t')
      (hwake : wake + b = wake' + a) : Twin a b (.asleep t wake) (.asleep t' wake')
  | ended {outcome outcome' : Except ExecutionFailure ExecutionResult}
      (h : timelessOutcome outcome = timelessOutcome outcome') :
      Twin a b (.ended outcome) (.ended outcome')

theorem Progress.Twin.refl (p : Progress σ) : p.Twin 0 0 p := by
  cases p with
  | asleep task wake => exact .asleep ⟨rfl, rfl, rfl, rfl, rfl, rfl⟩ rfl
  | ended outcome => exact .ended rfl

namespace Dispatcher

variable [Build]

/-- How an execution comes out, times aside, if it goes on alone. -/
def finish (p : Progress σ) (world : σ) : Except ExecutionFailure ExecutionResult :=
  match p with
  | .asleep task wake => timelessOutcome (complete task wake world).1
  | .ended outcome => timelessOutcome outcome

theorem finish_resume (task : PendingTask σ) (wake : Instant) (world : σ) :
    finish (.asleep task wake) world =
      finish (resume task wake world).1 (resume task wake world).2 := by
  rcases h : resume task wake world with ⟨⟨task', wake'⟩ | ⟨outcome⟩, world'⟩
  · rw [finish, complete_of_asleep h]
    rfl
  · rw [finish, complete_of_ended h]
    rfl

theorem execute_eq_finish (d : Dispatcher) (adapter : Adapter σ) (native : Native Float)
    (request : ExecutionRequest) (now : Instant) (world : σ) :
    timelessOutcome (d.execute adapter native request now world).1 =
      finish (d.begin adapter native request now world).1
        (d.begin adapter native request now world).2 := by
  unfold execute
  rcases d.begin adapter native request now world with ⟨⟨task, wake⟩ | ⟨outcome⟩, world'⟩ <;> rfl

variable {a b now now' : Instant} {t t' : PendingTask σ} {view : σ → τ} {world world' : σ}

omit [Build] in
theorem twin_polled (h : t.Twin a b t') (polls : Nat) (status : JobStatus) :
    (polled t polls status now).Twin a b (polled t' polls status now') := by
  have hpolls : ({ t'.job with polls } : Job).timeless = ({ t.job with polls } : Job).timeless := by
    have hjob := h.job
    simp only [Job.timeless, Job.mk.injEq] at hjob ⊢
    simp [hjob]
  refine ⟨h.service, h.payload, ?_, h.deadline, h.timeout, h.interval⟩
  simp only [polled, Job.timeless_withStatus, hpolls]

omit [Build] in
theorem polls_eq_of_twin (h : t.Twin a b t') : t'.job.polls = t.job.polls := by
  have hpolls := congrArg Job.polls h.job
  exact hpolls

omit [Build] in
theorem id_eq_of_twin (h : t.Twin a b t') : t'.job.id = t.job.id := by
  have hid := congrArg Job.id h.job
  exact hid

theorem collect_twin (h : t.Twin a b t') (hcalls : t.PollCalls (confined view))
    (hview : view world = view world') :
    timelessOutcome (collect t now world).1 = timelessOutcome (collect t' now' world').1 ∧
      view (collect t now world).2 = view (collect t' now' world').2 := by
  obtain ⟨hanswer, hafter⟩ := hcalls.result world world' hview
  have hbackend : t'.job.backend = t.job.backend := by
    have hjob := congrArg Job.backend h.job
    exact hjob
  unfold collect
  rw [h.service, h.payload, id_eq_of_twin h]
  obtain ⟨answer, world₁, hresult⟩ : ∃ answer world₁,
      t.service.result t.job.id t.payload world = (answer, world₁) := ⟨_, _, rfl⟩
  obtain ⟨answer', world₁', hresult'⟩ : ∃ answer world₁,
      t.service.result t.job.id t.payload world' = (answer, world₁) := ⟨_, _, rfl⟩
  rw [hresult, hresult'] at hanswer hafter ⊢
  obtain rfl : answer = answer' := hanswer
  cases answer with
  | error e => exact ⟨rfl, hafter⟩
  | ok counts =>
    dsimp only
    split
    · exact ⟨rfl, hafter⟩
    · split
      · exact ⟨rfl, hafter⟩
      · refine ⟨?_, hafter⟩
        simp [timelessOutcome, Except.map, ExecutionResult.timeless, h.job, hbackend]

theorem resume_of_error {e : ExecutionFailure} {world₁ : σ}
    (h : t.service.status t.job.id world = (.error e, world₁)) :
    resume t now world = (.ended (.error e), world₁) :=
  resumeAt_of_error h

theorem resume_of_uncounted {status : JobStatus} {world₁ : σ} {fault : MachineFault}
    (h : t.service.status t.job.id world = (.ok status, world₁))
    (hpolls : Word.reduce UInt32.size (t.job.polls + 1) = .error fault) :
    resume t now world = (.ended (.error (.machine fault)), world₁) :=
  resumeAt_of_uncounted h hpolls

theorem resume_of_ok {status : JobStatus} {polls : Nat} {world₁ : σ}
    (h : t.service.status t.job.id world = (.ok status, world₁))
    (hpolls : Word.reduce UInt32.size (t.job.polls + 1) = .ok polls) :
    resume t now world = follow (polled t polls status now) status now now world₁ :=
  resumeAt_of_ok h hpolls

omit [Build] in
/-- Two runs are as far from their deadlines. -/
theorem shift_lt_iff {m m' n n' s s' : Nat} (hm : m + s' = m' + s) (hn : n + s' = n' + s) :
    n < m ↔ n' < m' := by omega

omit [Build] in
theorem shift_sub {m m' n n' s s' : Nat} (hm : m + s' = m' + s) (hn : n + s' = n' + s) :
    m - n = m' - n' := by omega

theorem follow_twin (h : t.Twin a b t') (hcalls : t.PollCalls (confined view))
    (hnow : now + b = now' + a) (hview : view world = view world') (status : JobStatus) :
    (follow t status now now world).1.Twin a b (follow t' status now' now' world').1 ∧
      view (follow t status now now world).2 = view (follow t' status now' now' world').2 := by
  have hid := id_eq_of_twin h
  cases status with
  | completed =>
    obtain ⟨hcounts, hafter⟩ := collect_twin h hcalls hview
    exact ⟨.ended hcounts, hafter⟩
  | failed reason => exact ⟨.ended (by rw [hid]), hview⟩
  | cancelled => exact ⟨.ended (by rw [hid]), hview⟩
  | queued | running =>
    -- both are before their deadlines or both are past them, and pause for as long
    have hiff := shift_lt_iff h.deadline hnow
    unfold follow
    by_cases hearly : now < t.deadline
    · rw [if_pos hearly, if_pos (hiff.mp hearly)]
      refine ⟨.asleep h ?_, hview⟩
      have hpause : pause t' now' = pause t now := by
        rw [pause, pause, h.interval, shift_sub h.deadline hnow]
      rw [hpause, Nat.add_right_comm, hnow, Nat.add_right_comm]
    · rw [if_neg hearly, if_neg (hiff.not.mp hearly)]
      refine ⟨.ended (by rw [hid, h.timeout]), ?_⟩
      rw [h.service, hid]
      exact (hcalls.cancel _ _ hview).2

theorem resume_twin (h : t.Twin a b t') (hcalls : t.PollCalls (confined view))
    (hnow : now + b = now' + a) (hview : view world = view world') :
    (resume t now world).1.Twin a b (resume t' now' world').1 ∧
      view (resume t now world).2 = view (resume t' now' world').2 := by
  obtain ⟨hanswer, hafter⟩ := hcalls.status world world' hview
  obtain ⟨answer, world₁, hstatus⟩ : ∃ answer world₁,
      t.service.status t.job.id world = (answer, world₁) := ⟨_, _, rfl⟩
  obtain ⟨answer', world₁', hstatus'⟩ : ∃ answer world₁,
      t.service.status t.job.id world' = (answer, world₁) := ⟨_, _, rfl⟩
  rw [hstatus, hstatus'] at hanswer hafter
  obtain rfl : answer = answer' := hanswer
  have htwin : t'.service.status t'.job.id world' = (answer, world₁') := by
    rw [h.service, id_eq_of_twin h, hstatus']
  cases answer with
  | error e =>
    rw [resume_of_error hstatus, resume_of_error htwin]
    exact ⟨.ended rfl, hafter⟩
  | ok status =>
    match hpolls : Word.reduce UInt32.size (t.job.polls + 1) with
    | .error fault =>
      rw [resume_of_uncounted hstatus hpolls,
        resume_of_uncounted htwin (polls_eq_of_twin h ▸ hpolls)]
      exact ⟨.ended rfl, hafter⟩
    | .ok polls =>
      rw [resume_of_ok hstatus hpolls, resume_of_ok htwin (polls_eq_of_twin h ▸ hpolls)]
      exact follow_twin (twin_polled h polls status)
        ⟨hcalls.status, hcalls.result, hcalls.cancel⟩ hnow hafter status

omit [Build] in
theorem pollCalls_polled {P : CallProperty σ} (hcalls : t.PollCalls P) (polls : Nat)
    (status : JobStatus) (now : Instant) : (polled t polls status now).PollCalls P :=
  ⟨hcalls.status, hcalls.result, hcalls.cancel⟩

theorem pollCalls_follow {P : CallProperty σ} (hcalls : t.PollCalls P) (status : JobStatus)
    (now : Instant) (world : σ) : (follow t status now now world).1.PollCalls P := by
  cases status with
  | completed | failed reason | cancelled => trivial
  | queued | running =>
    unfold follow
    dsimp only
    split
    · exact hcalls
    · trivial

theorem pollCalls_resume {P : CallProperty σ} (hcalls : t.PollCalls P) (now : Instant) (world : σ) :
    (resume t now world).1.PollCalls P := by
  obtain ⟨answer, world₁, hstatus⟩ : ∃ answer world₁,
      t.service.status t.job.id world = (answer, world₁) := ⟨_, _, rfl⟩
  cases answer with
  | error e =>
    rw [resume_of_error hstatus]
    trivial
  | ok status =>
    match hpolls : Word.reduce UInt32.size (t.job.polls + 1) with
    | .error fault =>
      rw [resume_of_uncounted hstatus hpolls]
      trivial
    | .ok polls =>
      rw [resume_of_ok hstatus hpolls]
      exact pollCalls_follow (pollCalls_polled hcalls polls status now) status now world₁

theorem view_collect (hcalls : t.PollCalls (sparing view)) (now : Instant) (world : σ) :
    view (collect t now world).2 = view world := by
  have hresult := hcalls.result world
  unfold collect
  split
  · next h =>
    rw [h] at hresult
    exact hresult
  · next h =>
    rw [h] at hresult
    dsimp only
    split
    · exact hresult
    · split <;> exact hresult

theorem view_follow (hcalls : t.PollCalls (sparing view)) (status : JobStatus) (now : Instant)
    (world : σ) : view (follow t status now now world).2 = view world := by
  cases status with
  | completed => exact view_collect hcalls now world
  | failed reason | cancelled => rfl
  | queued | running =>
    unfold follow
    dsimp only
    split
    · rfl
    · exact hcalls.cancel world

theorem view_resume (hcalls : t.PollCalls (sparing view)) (now : Instant) (world : σ) :
    view (resume t now world).2 = view world := by
  have hspared := hcalls.status world
  obtain ⟨answer, world₁, hstatus⟩ : ∃ answer world₁,
      t.service.status t.job.id world = (answer, world₁) := ⟨_, _, rfl⟩
  rw [hstatus] at hspared
  cases answer with
  | error e =>
    rw [resume_of_error hstatus]
    exact hspared
  | ok status =>
    match hpolls : Word.reduce UInt32.size (t.job.polls + 1) with
    | .error fault =>
      rw [resume_of_uncounted hstatus hpolls]
      exact hspared
    | .ok polls =>
      rw [resume_of_ok hstatus hpolls]
      exact (view_follow (pollCalls_polled hcalls polls status now) status now world₁).trans hspared

theorem complete_twin (h : t.Twin a b t') (hcalls : t.PollCalls (confined view))
    (hnow : now + b = now' + a) (hview : view world = view world') :
    timelessOutcome (complete t now world).1 = timelessOutcome (complete t' now' world').1 ∧
      view (complete t now world).2.2 = view (complete t' now' world').2.2 := by
  -- the other run keeps step: `resume_twin` relates the two after each poll as before it
  fun_induction complete t now world generalizing t' now' world' with
  | case1 t now world outcome world₁ hresume =>
    obtain ⟨htwin, hafter⟩ := resume_twin h hcalls hnow hview
    rcases hresume' : resume t' now' world' with ⟨p, world₁'⟩
    rw [hresume, hresume'] at htwin hafter
    cases htwin with
    | ended houtcome =>
      rw [complete_of_ended hresume']
      exact ⟨houtcome, hafter⟩
  | case2 t now world task wake world₁ hresume _ ih =>
    obtain ⟨htwin, hafter⟩ := resume_twin h hcalls hnow hview
    have hgoesOn := pollCalls_resume hcalls now world
    rcases hresume' : resume t' now' world' with ⟨p, world₁'⟩
    rw [hresume, hresume'] at htwin hafter
    rw [hresume] at hgoesOn
    cases htwin with
    | asleep htask hwake =>
      rw [complete_of_asleep hresume']
      exact ih htask hgoesOn hwake hafter

theorem finish_twin {p p' : Progress σ} (h : p.Twin a b p') (hcalls : p.PollCalls (confined view))
    (hview : view world = view world') : finish p world = finish p' world' := by
  cases h with
  | asleep htask hwake => exact (complete_twin htask hcalls hwake hview).1
  | ended houtcome => exact houtcome

theorem finish_congr {p : Progress σ} (hcalls : p.PollCalls (confined view))
    (hview : view world = view world') : finish p world = finish p world' :=
  finish_twin (.refl p) hcalls hview

/-! ## 4. Rounds of resumptions -/

/-- Things that make calls, each with the part of the world to which its calls are confined and
    which all others spare. -/
structure Apart {α : Type} (Calls : α → CallProperty σ → Prop) (xs : List (α × (σ → τ))) : Prop where
  own : ∀ x ∈ xs, Calls x.1 (confined x.2)
  others : xs.Pairwise fun x y => Calls x.1 (sparing y.2) ∧ Calls y.1 (sparing x.2)

omit [Build] in
theorem Apart.nil {α : Type} {Calls : α → CallProperty σ → Prop} :
    Apart Calls ([] : List (α × (σ → τ))) :=
  ⟨fun _ hmem => absurd hmem List.not_mem_nil, .nil⟩

omit [Build] in
theorem exists_mem_of_forall₂ {α β : Type} {R : α → β → Prop} {xs : List α} {ys : List β}
    (h : List.Forall₂ R xs ys) {y : β} (hy : y ∈ ys) : ∃ x ∈ xs, R x y := by
  induction h with
  | nil => cases hy
  | cons hxy _ ih =>
    rcases List.mem_cons.mp hy with rfl | hy
    · exact ⟨_, List.mem_cons_self, hxy⟩
    · obtain ⟨x, hx, hR⟩ := ih hy
      exact ⟨x, List.mem_cons_of_mem _ hx, hR⟩

/-- A thing that has become another one, which makes no other calls. -/
def GoesOn {α β : Type} (Calls : α → CallProperty σ → Prop) (Calls' : β → CallProperty σ → Prop)
    (x : α × (σ → τ)) (x' : β × (σ → τ)) : Prop :=
  x'.2 = x.2 ∧ ∀ P, Calls x.1 P → Calls' x'.1 P

omit [Build] in
theorem Apart.goesOn {α β : Type} {Calls : α → CallProperty σ → Prop}
    {Calls' : β → CallProperty σ → Prop} {xs : List (α × (σ → τ))} {xs' : List (β × (σ → τ))}
    (h : Apart Calls xs) (hgoesOn : List.Forall₂ (GoesOn Calls Calls') xs xs') :
    Apart Calls' xs' := by
  induction hgoesOn with
  | nil => exact .nil
  | @cons x x' xs xs' hx hxs ih =>
    obtain ⟨hown, hpairwise⟩ := h
    obtain ⟨hx', hothers⟩ := List.pairwise_cons.mp hpairwise
    obtain ⟨hownHead, hownTail⟩ := List.forall_mem_cons.mp hown
    have htail := ih ⟨hownTail, hothers⟩
    refine ⟨List.forall_mem_cons.mpr ⟨?_, htail.own⟩, List.pairwise_cons.mpr ⟨?_, htail.others⟩⟩
    -- a step takes its view with it, so what is asked of calls carries over as it is
    · rw [hx.1]
      exact hx.2 _ hownHead
    · intro y' hy'
      obtain ⟨y, hy, hgoes⟩ := exists_mem_of_forall₂ hxs hy'
      obtain ⟨hxy, hyx⟩ := hx' y hy
      exact ⟨hgoes.1 ▸ hx.2 _ hxy, hx.1 ▸ hgoes.2 _ hyx⟩

/-- A resumption that is not late changes nothing about how an execution finishes. -/
theorem finish_resumeIfDue {p : Progress σ} (hwake : ∀ wake, p.wake? = some wake → now ≤ wake)
    (world : σ) :
    finish (resumeIfDue now p world).1 (resumeIfDue now p world).2 = finish p world := by
  cases p with
  | ended outcome => rfl
  | asleep task wake =>
    unfold resumeIfDue
    dsimp only
    split
    · next hdue =>
      -- a poll at any other time than its own would shift all that come after it
      obtain rfl : wake = now := Nat.le_antisymm hdue (hwake wake rfl)
      exact (finish_resume task wake world).symm
    · rfl

theorem view_resumeIfDue {p : Progress σ} (hcalls : p.PollCalls (sparing view)) (now : Instant)
    (world : σ) : view (resumeIfDue now p world).2 = view world := by
  cases p with
  | ended outcome => rfl
  | asleep task wake =>
    unfold resumeIfDue
    dsimp only
    split
    · exact view_resume hcalls now world
    · rfl

theorem pollCalls_resumeIfDue {P : CallProperty σ} {p : Progress σ} (hcalls : p.PollCalls P)
    (now : Instant) (world : σ) : (resumeIfDue now p world).1.PollCalls P := by
  cases p with
  | ended outcome => trivial
  | asleep task wake =>
    unfold resumeIfDue
    dsimp only
    split
    · exact pollCalls_resume hcalls now world
    · exact hcalls

theorem view_resumeDue {ps : List (Progress σ)} (hcalls : ∀ p ∈ ps, p.PollCalls (sparing view))
    (now : Instant) (world : σ) : view (resumeDue now ps world).2 = view world := by
  induction ps generalizing world with
  | nil => rfl
  | cons p ps ih =>
    obtain ⟨hp, hps⟩ := List.forall_mem_cons.mp hcalls
    have hspared := view_resumeIfDue hp now world
    unfold resumeDue
    dsimp only
    split
    · exact hspared
    · exact (ih hps _).trans hspared

/-- An execution that is not to finish with a fault of the machine has none yet. -/
theorem fault?_of_finish {p : Progress σ}
    (h : ∀ fault, finish p world ≠ .error (.machine fault)) : p.fault? = none := by
  rcases p with ⟨task, wake⟩ | ⟨e | result⟩
  · rfl
  · cases e with
    | machine fault => exact absurd rfl (h fault)
    | _ => rfl
  · rfl

/-- **A round of resumptions changes nothing about how any execution finishes**, if the machine
    will be at fault in none of them. -/
theorem resumeDue_apart {running : List (Progress σ × (σ → τ))} (h : Apart Progress.PollCalls running)
    (hwake : ∀ x ∈ running, ∀ wake, x.1.wake? = some wake → now ≤ wake) (world : σ)
    (hfault : ∀ x ∈ running, ∀ fault, finish x.1 world ≠ .error (.machine fault)) :
    ∃ running' world', resumeDue now (running.map (·.1)) world =
        (.ok (running'.map (·.1)), world') ∧
      Apart Progress.PollCalls running' ∧
      List.Forall₂ (GoesOn Progress.PollCalls Progress.PollCalls) running running' ∧
      running'.map (fun x => finish x.1 world') = running.map (fun x => finish x.1 world) := by
  induction running generalizing world with
  | nil => exact ⟨[], world, rfl, h, .nil, rfl⟩
  | cons x xs ih =>
    obtain ⟨hownHead, hownTail⟩ := List.forall_mem_cons.mp h.own
    obtain ⟨hx, hothers⟩ := List.pairwise_cons.mp h.others
    obtain ⟨hwakeHead, hwakeTail⟩ := List.forall_mem_cons.mp hwake
    obtain ⟨hfaultHead, hfaultTail⟩ := List.forall_mem_cons.mp hfault
    obtain ⟨p, world₁, hresume⟩ : ∃ p world₁, resumeIfDue now x.1 world = (p, world₁) := ⟨_, _, rfl⟩
    have hgoesOn : GoesOn Progress.PollCalls Progress.PollCalls x (p, x.2) := by
      refine ⟨rfl, fun P hP => ?_⟩
      have hkept := pollCalls_resumeIfDue hP now world
      rwa [hresume] at hkept
    have hturn := finish_resumeIfDue hwakeHead world
    rw [hresume] at hturn
    -- the turn of the head spares the parts of the others
    have hsame : ∀ y ∈ xs, finish y.1 world₁ = finish y.1 world := by
      intro y hy
      have hspared := view_resumeIfDue (hx y hy).1 now world
      rw [hresume] at hspared
      exact finish_congr (hownTail y hy) hspared
    obtain ⟨xs', world', hrest, -, hgoesOnTail, hfinish⟩ :=
      ih ⟨hownTail, hothers⟩ hwakeTail world₁ fun y hy fault => by
        rw [hsame y hy]
        exact hfaultTail y hy fault
    have hall := List.Forall₂.cons hgoesOn hgoesOnTail
    have hfinishes : ∀ fault, finish p world₁ ≠ .error (.machine fault) :=
      hturn.symm ▸ hfaultHead
    have hnone : p.fault? = none := fault?_of_finish hfinishes
    refine ⟨(p, x.2) :: xs', world', ?_, h.goesOn hall, hall, ?_⟩
    · rw [List.map_cons, resumeDue, hresume]
      dsimp only
      rw [hnone, hrest]
      rfl
    · rw [List.map_cons, List.map_cons, hfinish, List.map_congr_left hsame]
      congr 1
      -- the head has finished its turn, and the turns of the others spare its part
      have hspared : x.2 world' = x.2 world₁ := by
        have hspares : ∀ q ∈ xs.map (·.1), q.PollCalls (sparing x.2) :=
          List.forall_mem_map.mpr fun y hy => (hx y hy).2
        have hview := view_resumeDue hspares now world₁
        rwa [hrest] at hview
      exact (finish_congr (hgoesOn.2 _ hownHead) hspared).trans hturn

omit [Build] in
theorem le_of_nextWake? {ps : List (Progress σ)} {p : Progress σ} {wake wake' : Instant}
    (h : nextWake? ps = some wake) (hp : p ∈ ps) (hwake : p.wake? = some wake') : wake ≤ wake' := by
  have hmem : wake' ∈ ps.filterMap Progress.wake? := List.mem_filterMap.mpr ⟨p, hp, hwake⟩
  exact (List.min?_eq_some_iff.mp h).2 wake' hmem

theorem outcomes_of_ended {running : List (Progress σ × (σ → τ))}
    (h : nextWake? (running.map (·.1)) = none) (world : σ) :
    ((running.map (·.1)).filterMap Progress.outcome?).map timelessOutcome =
      running.map (fun x => finish x.1 world) := by
  have hnone : ∀ x ∈ running, x.1.wake? = none := by
    simpa [nextWake?] using h
  clear h
  induction running with
  | nil => rfl
  | cons x xs ih =>
    obtain ⟨hx, hxs⟩ := List.forall_mem_cons.mp hnone
    obtain ⟨⟨task, wake⟩ | ⟨outcome⟩, view⟩ := x
    · cases hx
    · exact congrArg _ (ih hxs)

/-- **Executions at the same time come out as each would alone**, if the machine is at fault in
    none of them. -/
theorem settle_apart {running : List (Progress σ × (σ → τ))}
    (h : Apart Progress.PollCalls running) (now : Instant) (world : σ)
    (hfault : ∀ x ∈ running, ∀ fault, finish x.1 world ≠ .error (.machine fault)) :
    ∃ outcomes later world', settle (running.map (·.1)) now world = (.ok outcomes, later, world') ∧
      outcomes.map timelessOutcome = running.map (fun x => finish x.1 world) := by
  -- the views stay with their executions from round to round, while `settle` sees these only
  generalize hps : running.map (·.1) = ps
  fun_induction settle ps now world generalizing running with
  | case1 ps now world hnone =>
    subst hps
    exact ⟨_, now, world, rfl, outcomes_of_ended hnone world⟩
  | case2 ps now world wake hwake fault world' hround =>
    subst hps
    obtain ⟨running', world₁, hok, -⟩ := resumeDue_apart h
      (fun x hx wake' hx' => le_of_nextWake? hwake (List.mem_map_of_mem hx) hx') world hfault
    cases hok.symm.trans hround
  | case3 ps now world wake hwake ps' world' hround _ ih =>
    subst hps
    obtain ⟨running', world₁, hok, hapart, -, hfinish⟩ := resumeDue_apart h
      (fun x hx wake' hx' => le_of_nextWake? hwake (List.mem_map_of_mem hx) hx') world hfault
    cases hok.symm.trans hround
    have hlater : ∀ x ∈ running', ∀ fault, finish x.1 world' ≠ .error (.machine fault) := by
      intro x hx fault hout
      have hmem : .error (.machine fault) ∈ running.map fun x => finish x.1 world := by
        rw [← hfinish, ← hout]
        exact List.mem_map_of_mem hx
      obtain ⟨y, hy, hsame⟩ := List.mem_map.mp hmem
      exact hfault y hy fault hsame
    obtain ⟨outcomes, later, world₂, hsettle, houtcomes⟩ := ih hapart hlater rfl
    exact ⟨outcomes, later, world₂, hsettle, houtcomes.trans hfinish⟩

/-! ## 5. Beginnings -/

/-- A request that is submitted to a service, as a payload. -/
structure Submits (adapter : Adapter σ) (native : Native Float) (request : ExecutionRequest)
    (service : TaskService σ) (payload : TaskPayload) : Prop where
  valid : request.validate (R := Float) = .ok ()
  connected : adapter.connect request = .ok service
  written : ∃ target, adapter.route request = .ok (.remote target) ∧
    adapter.payload native request target = .ok payload

/-- What is to be executed: an adapter, a native circuit and a request. -/
abbrev Launch (σ : Type) := Adapter σ × Native Float × ExecutionRequest

def LaunchCalls (l : Launch σ) (P : CallProperty σ) : Prop :=
  ∀ service payload, Submits l.1 l.2.1 l.2.2 service payload → service.TaskCalls payload P

theorem begin_of_local (d : Dispatcher) {adapter : Adapter σ} {request : ExecutionRequest}
    (hvalid : request.validate (R := Float) = .ok ()) (hroute : adapter.route request = .ok .local)
    (native : Native Float) (now : Instant) (world : σ) :
    d.begin adapter native request now world =
      (.ended (d.runLocal adapter.backend native request.repetitions), world) := by
  unfold begin beginAt
  rw [hvalid]
  simp only [bind, Except.bind, pure, Except.pure, hroute]
  cases d.runLocal adapter.backend native request.repetitions <;> rfl

/-- An execution is over before anything is asked of a service, or is the submission of a
    payload. -/
theorem begin_cases (d : Dispatcher) (l : Launch σ) :
    (∃ outcome, ∀ now world, d.begin l.1 l.2.1 l.2.2 now world = (.ended outcome, world)) ∨
    ∃ service payload, Submits l.1 l.2.1 l.2.2 service payload ∧ ∀ now world,
      d.begin l.1 l.2.1 l.2.2 now world = submit service l.1.backend payload l.2.2 now world := by
  obtain ⟨adapter, native, request⟩ := l
  cases hvalid : request.validate (R := Float) with
  | error e =>
    refine .inl ⟨.error e, fun _ _ => ?_⟩
    unfold begin beginAt
    rw [hvalid]
    rfl
  | ok =>
    rcases hroute : adapter.route request with e | ⟨- | target⟩
    · refine .inl ⟨.error e, fun _ _ => ?_⟩
      unfold begin beginAt
      simp [hvalid, hroute, bind, Except.bind]
    · exact .inl ⟨_, begin_of_local d hvalid hroute native⟩
    · unfold begin beginAt
      simp only [hvalid, hroute, bind, Except.bind, pure, Except.pure]
      cases hconnect : adapter.connect request with
      | error e => exact .inl ⟨_, fun _ _ => rfl⟩
      | ok service =>
        dsimp only
        cases hpayload : adapter.payload native request target with
        | error e => exact .inl ⟨_, fun _ _ => rfl⟩
        | ok payload =>
          exact .inr ⟨service, payload, ⟨hvalid, hconnect, target, hroute, hpayload⟩,
            fun _ _ => rfl⟩

theorem begin_of_submits (d : Dispatcher) {adapter : Adapter σ} {native : Native Float}
    {request : ExecutionRequest} {service : TaskService σ} {payload : TaskPayload}
    (h : Submits adapter native request service payload) (now : Instant) (world : σ) :
    d.begin adapter native request now world =
      submit service adapter.backend payload request now world := by
  obtain ⟨hvalid, hconnect, target, hroute, hpayload⟩ := h
  unfold begin beginAt
  simp only [hvalid, hroute, hconnect, hpayload, bind, Except.bind, pure, Except.pure]
  rfl

omit [Build] in
theorem Submits.logged {adapter : Adapter σ} {native : Native Float} {request : ExecutionRequest}
    {service : TaskService σ} {payload : TaskPayload}
    (h : Submits adapter native request service payload) :
    Submits adapter.logged native request service.logged payload := by
  refine ⟨h.valid, ?_, h.written⟩
  change (adapter.connect request).map _ = _
  rw [h.connected]
  rfl

section Submission

variable {service : TaskService σ} {backend : Backend} {payload : TaskPayload}
  {request : ExecutionRequest} {id : String} {world₁ : σ}

theorem submit_of_error {e : ExecutionFailure}
    (h : service.create payload world = (.error e, world₁)) :
    submit service backend payload request now world = (.ended (.error e), world₁) := by
  unfold submit submitAt
  rw [h]

theorem submit_of_late (h : service.create payload world = (.ok id, world₁))
    (hlate : endOfTime ≤ now + request.pollTimeout) :
    submit service backend payload request now world =
      (.ended (.error (.machine .timeOutOfRange)), world₁) := by
  unfold submit submitAt
  rw [h]
  exact if_pos hlate

theorem submit_of_ok (h : service.create payload world = (.ok id, world₁))
    (hearly : ¬ endOfTime ≤ now + request.pollTimeout) :
    submit service backend payload request now world =
      resume (created service backend payload request id now) now world₁ := by
  unfold submit submitAt
  rw [h]
  exact if_neg hearly

omit [Build] in
theorem pollCalls_created {P : CallProperty σ} (hcalls : service.TaskCalls payload P)
    (h : service.create payload world = (.ok id, world₁)) :
    (created service backend payload request id now).PollCalls P := by
  have hid := congrArg Prod.fst h
  exact ⟨hcalls.status _ _ hid, hcalls.result _ _ hid, hcalls.cancel _ _ hid⟩

theorem pollCalls_submit {P : CallProperty σ} (hcalls : service.TaskCalls payload P)
    (now : Instant) (world : σ) :
    (submit service backend payload request now world).1.PollCalls P := by
  rcases h : service.create payload world with ⟨e | id, world₁⟩
  · rw [submit_of_error h]
    trivial
  · by_cases hlate : endOfTime ≤ now + request.pollTimeout
    · rw [submit_of_late h hlate]
      trivial
    · rw [submit_of_ok h hlate]
      exact pollCalls_resume (pollCalls_created hcalls h) now world₁

theorem view_submit (hcalls : service.TaskCalls payload (sparing view)) (now : Instant)
    (world : σ) : view (submit service backend payload request now world).2 = view world := by
  have hspared := hcalls.create world
  rcases h : service.create payload world with ⟨e | id, world₁⟩
  · rw [h] at hspared
    rw [submit_of_error h]
    exact hspared
  · rw [h] at hspared
    by_cases hlate : endOfTime ≤ now + request.pollTimeout
    · rw [submit_of_late h hlate]
      exact hspared
    · rw [submit_of_ok h hlate]
      exact (view_resume (pollCalls_created hcalls h) now world₁).trans hspared

/-- A submission in two runs: if the clock can show the deadline in one, so it can in the
    other. -/
theorem submit_twin (hcalls : service.TaskCalls payload (confined view))
    (hview : view world = view world')
    (hclock : ∀ id, (service.create payload world).1 = .ok id →
      (endOfTime ≤ now + request.pollTimeout ↔ endOfTime ≤ now' + request.pollTimeout)) :
    (submit service backend payload request now world).1.Twin now now'
        (submit service backend payload request now' world').1 ∧
      view (submit service backend payload request now world).2 =
        view (submit service backend payload request now' world').2 := by
  obtain ⟨hanswer, hafter⟩ := hcalls.create world world' hview
  rcases h : service.create payload world with ⟨answer, world₁⟩
  rcases h' : service.create payload world' with ⟨answer', world₁'⟩
  rw [h, h'] at hanswer hafter
  obtain rfl : answer = answer' := hanswer
  -- only a task that has been created gets a deadline, so only then the clock matters
  cases answer with
  | error e =>
    rw [submit_of_error h, submit_of_error h']
    exact ⟨.ended rfl, hafter⟩
  | ok id =>
    have hiff := hclock id (by rw [h])
    by_cases hlate : endOfTime ≤ now + request.pollTimeout
    · rw [submit_of_late h hlate, submit_of_late h' (hiff.mp hlate)]
      exact ⟨.ended rfl, hafter⟩
    · rw [submit_of_ok h hlate, submit_of_ok h' (hiff.not.mp hlate)]
      have hdeadline : now + request.pollTimeout + now' = now' + request.pollTimeout + now := by
        rw [Nat.add_right_comm, Nat.add_comm now, Nat.add_right_comm]
      have htwin : (created service backend payload request id now).Twin now now'
          (created service backend payload request id now') :=
        ⟨rfl, rfl, rfl, hdeadline, rfl, rfl⟩
      exact resume_twin htwin (pollCalls_created hcalls h) (Nat.add_comm ..) hafter

end Submission

variable {d : Dispatcher} {l : Launch σ}

theorem pollCalls_begin {P : CallProperty σ} (hcalls : LaunchCalls l P) (now : Instant) (world : σ) :
    (d.begin l.1 l.2.1 l.2.2 now world).1.PollCalls P := by
  rcases begin_cases d l with ⟨outcome, hbegin⟩ | ⟨service, payload, hsubmits, hbegin⟩
  · rw [hbegin]
    trivial
  · rw [hbegin]
    exact pollCalls_submit (hcalls service payload hsubmits) now world

theorem view_begin (hcalls : LaunchCalls l (sparing view)) (now : Instant) (world : σ) :
    view (d.begin l.1 l.2.1 l.2.2 now world).2 = view world := by
  rcases begin_cases d l with ⟨outcome, hbegin⟩ | ⟨service, payload, hsubmits, hbegin⟩
  · rw [hbegin]
  · rw [hbegin]
    exact view_submit (hcalls service payload hsubmits) now world

/-- An execution in two runs, unless the clock gives out in just one of them. -/
theorem execute_twin (hcalls : LaunchCalls l (confined view)) (hview : view world = view world')
    (hclock : ∀ service payload id, Submits l.1 l.2.1 l.2.2 service payload →
      (∀ start w, d.begin l.1 l.2.1 l.2.2 start w =
        submit service l.1.backend payload l.2.2 start w) →
      (service.create payload world).1 = .ok id →
      (endOfTime ≤ now + l.2.2.pollTimeout ↔ endOfTime ≤ now' + l.2.2.pollTimeout)) :
    timelessOutcome (d.execute l.1 l.2.1 l.2.2 now world).1 =
      timelessOutcome (d.execute l.1 l.2.1 l.2.2 now' world').1 := by
  rw [execute_eq_finish, execute_eq_finish]
  have hgoesOn := pollCalls_begin (d := d) hcalls now world
  rcases begin_cases d l with ⟨outcome, hbegin⟩ | ⟨service, payload, hsubmits, hbegin⟩
  · rw [hbegin, hbegin]
    rfl
  · rw [hbegin] at hgoesOn
    obtain ⟨htwin, hafter⟩ := submit_twin (hcalls service payload hsubmits) hview
      (fun id hid => hclock service payload id hsubmits hbegin hid)
    rw [hbegin, hbegin]
    exact finish_twin htwin hgoesOn hafter

theorem execute_congr (hcalls : LaunchCalls l (confined view)) (hview : view world = view world') :
    timelessOutcome (d.execute l.1 l.2.1 l.2.2 now world).1 =
      timelessOutcome (d.execute l.1 l.2.1 l.2.2 now world').1 :=
  execute_twin hcalls hview fun _ _ _ _ _ _ => .rfl

/-- The clock can show the deadline of an execution in which the machine is not at fault. -/
theorem early_of_no_fault {service : TaskService σ} {payload : TaskPayload} {id : String}
    (hfault : ∀ fault, (d.execute l.1 l.2.1 l.2.2 now world).1 ≠ .error (.machine fault))
    (hbegin : ∀ start w, d.begin l.1 l.2.1 l.2.2 start w =
      submit service l.1.backend payload l.2.2 start w)
    (hid : (service.create payload world).1 = .ok id) : ¬ endOfTime ≤ now + l.2.2.pollTimeout := by
  intro hlate
  refine hfault .timeOutOfRange ?_
  rcases hcreate : service.create payload world with ⟨answer, world₁⟩
  rw [hcreate] at hid
  obtain rfl : answer = .ok id := hid
  unfold execute
  rw [hbegin, submit_of_late hcreate hlate]

/-- An execution comes out the same whenever it is begun, as long as the machine is not at
    fault. -/
theorem execute_shift (hcalls : LaunchCalls l (confined view)) (hview : view world = view world')
    (hfault : ∀ fault, (d.execute l.1 l.2.1 l.2.2 now world).1 ≠ .error (.machine fault))
    (hfault' : ∀ fault, (d.execute l.1 l.2.1 l.2.2 now' world').1 ≠ .error (.machine fault)) :
    timelessOutcome (d.execute l.1 l.2.1 l.2.2 now world).1 =
      timelessOutcome (d.execute l.1 l.2.1 l.2.2 now' world').1 := by
  refine execute_twin hcalls hview fun service payload id hsubmits hbegin hid => ?_
  have hanswer := ((hcalls service payload hsubmits).create world world' hview).1
  exact iff_of_false (early_of_no_fault hfault hbegin hid)
    (early_of_no_fault hfault' hbegin (hanswer.symm.trans hid))

theorem fault?_begin (hfault : ∀ fault,
    (d.execute l.1 l.2.1 l.2.2 now world).1 ≠ .error (.machine fault)) :
    (d.begin l.1 l.2.1 l.2.2 now world).1.fault? = none := by
  unfold execute at hfault
  rcases hbegin : d.begin l.1 l.2.1 l.2.2 now world with ⟨⟨task, wake⟩ | ⟨e | result⟩, world₁⟩
  · rfl
  · rw [hbegin] at hfault
    cases e with
    | machine fault => exact absurd rfl (hfault fault)
    | _ => rfl
  · rfl

/-- **Executions that are begun together come out as they would alone, if the machine is at
    fault in none of them.** -/
theorem beginAll_apart (d : Dispatcher) (now : Instant) (world : σ)
    {launches : List (Launch σ × (σ → τ))} (h : Apart LaunchCalls launches)
    (hfault : ∀ x ∈ launches, ∀ fault,
      (d.execute x.1.1 x.1.2.1 x.1.2.2 now world).1 ≠ .error (.machine fault)) :
    ∃ running world', d.beginAll now (launches.map (·.1)) world =
        (.ok (running.map (·.1)), world') ∧ Apart Progress.PollCalls running ∧
      List.Forall₂ (GoesOn LaunchCalls Progress.PollCalls) launches running ∧
      (∀ v : σ → τ, (∀ x ∈ launches, LaunchCalls x.1 (sparing v)) → v world' = v world) ∧
      running.map (fun x => finish x.1 world') = launches.map fun x =>
        timelessOutcome (d.execute x.1.1 x.1.2.1 x.1.2.2 now world).1 := by
  induction launches generalizing world with
  | nil => exact ⟨[], world, rfl, .nil, .nil, fun _ _ => rfl, rfl⟩
  | cons x xs ih =>
    obtain ⟨hownHead, hownTail⟩ := List.forall_mem_cons.mp h.own
    obtain ⟨hx, hothers⟩ := List.pairwise_cons.mp h.others
    obtain ⟨hfaultHead, hfaultTail⟩ := List.forall_mem_cons.mp hfault
    obtain ⟨p, world₁, hbegin⟩ : ∃ p world₁,
      d.begin x.1.1 x.1.2.1 x.1.2.2 now world = (p, world₁) := ⟨_, _, rfl⟩
    have hgoesOn : GoesOn LaunchCalls Progress.PollCalls x (p, x.2) := by
      refine ⟨rfl, fun P hP => ?_⟩
      have hkept := pollCalls_begin (d := d) hP now world
      rwa [hbegin] at hkept
    have hspared : ∀ v : σ → τ, LaunchCalls x.1 (sparing v) → v world₁ = v world := by
      intro v hv
      have hview := view_begin (d := d) hv now world
      rwa [hbegin] at hview
    -- what comes before the turn of the others is of no concern to them
    have hsame : ∀ y ∈ xs, timelessOutcome (d.execute y.1.1 y.1.2.1 y.1.2.2 now world₁).1 =
        timelessOutcome (d.execute y.1.1 y.1.2.1 y.1.2.2 now world).1 := fun y hy =>
      execute_congr (hownTail y hy) (hspared _ (hx y hy).1)
    obtain ⟨running, world', hrest, hapart, hall, hspare, hfinish⟩ :=
      ih world₁ ⟨hownTail, hothers⟩ fun y hy fault hout => by
        have hbefore := hsame y hy
        rw [hout] at hbefore
        exact hfaultTail y hy fault (timelessOutcome_eq_error.mp hbefore.symm)
    have hnone := fault?_begin hfaultHead
    rw [hbegin] at hnone
    have hgoes := List.Forall₂.cons hgoesOn hall
    refine ⟨(p, x.2) :: running, world', ?_, h.goesOn hgoes, hgoes, ?_, ?_⟩
    · rw [List.map_cons, beginAll, hbegin]
      dsimp only
      rw [hnone, hrest]
      rfl
    · intro v hv
      obtain ⟨hvHead, hvTail⟩ := List.forall_mem_cons.mp hv
      exact (hspare v hvTail).trans (hspared v hvHead)
    · rw [List.map_cons, List.map_cons, hfinish, List.map_congr_left hsame, execute_eq_finish,
        hbegin]
      congr 1
      -- the head goes on in the world that the others have left, which has its part as it was
      exact finish_congr (hgoesOn.2 _ hownHead) (hspare x.2 fun y hy => (hx y hy).2)

end Dispatcher

end CircuitBroker
