/-
  CircuitBroker/Proofs/Execution/Polling.lean
  ===========================================
  **When a task is polled.**

  An execution alone is resumed exactly when it wakes (`polls`).  The polls of a task fall on
  the ticks of its interval, the last of them moved to the deadline: as long as the answers
  say that the task is on its way, each poll before the deadline leads to the next tick
  (`resume_tick`), so after so many answers the execution stands at that tick
  (`complete_of_pending`).  It stops there when the answer is another one, and in any case at
  the deadline (`polledUntil`), which the clock must be able to show.  The polls are counted in
  32 bits: a build that checks its arithmetic stops at the first poll that it cannot count.
-/
import CircuitBroker.Proofs.Execution.Isolation

namespace CircuitBroker

variable {σ : Type}

namespace PendingTask

/-! ## 1. What a task is answered -/

def worldAfter (task : PendingTask σ) (world : σ) : Nat → σ
  | 0 => world
  | k + 1 => (task.service.status task.job.id (task.worldAfter world k)).2

def answer (task : PendingTask σ) (world : σ) (k : Nat) : Except ExecutionFailure JobStatus :=
  (task.service.status task.job.id (task.worldAfter world k)).1

/-- Whether a poll says that the task is on its way, after so many others. -/
def Pending (task : PendingTask σ) (world : σ) (k : Nat) : Prop :=
  ∃ status, task.answer world k = .ok status ∧ status.isPending = true

/-! ## 2. The ticks of its interval -/

/-- The ticks from a start on, up to the time at which a task is given up. -/
def tick (task : PendingTask σ) (start : Instant) (k : Nat) : Instant :=
  start + min (k * task.interval) task.timeout

def lastTick (task : PendingTask σ) : Nat := task.timeout ⌈/⌉ task.interval

variable {task : PendingTask σ} {start : Instant}

theorem tick_zero (task : PendingTask σ) (start : Instant) : task.tick start 0 = start := by
  simp [tick]

theorem lt_lastTick_iff (hinterval : 0 < task.interval) {k : Nat} :
    k < task.lastTick ↔ k * task.interval < task.timeout := by
  have h := ceilDiv_le_iff_le_mul (b := task.timeout) (c := k) hinterval
  rw [lastTick, ← Nat.not_le, h, Nat.not_le, Nat.mul_comm]

theorem tick_lastTick (hinterval : 0 < task.interval) (start : Instant) :
    task.tick start task.lastTick = start + task.timeout := by
  have h := mt (lt_lastTick_iff hinterval (k := task.lastTick)).mpr (Nat.lt_irrefl _)
  rw [tick, Nat.min_eq_right (Nat.le_of_not_lt h)]

theorem tick_lt_deadline (hdeadline : task.deadline = start + task.timeout)
    (hinterval : 0 < task.interval) {k : Nat} (hk : k < task.lastTick) :
    task.tick start k < task.deadline := by
  have h := (lt_lastTick_iff hinterval).mp hk
  rw [tick, hdeadline, Nat.min_eq_left h.le]
  exact Nat.add_lt_add_left h start

/-- A step of a positive length, cut at the limit. -/
theorem add_step_eq_min {length limit done : Nat} (start : Nat) (hlength : 0 < length)
    (hdone : done < limit) :
    start + done + max 1 (min length (start + limit - (start + done))) =
      start + min (done + length) limit := by omega

/-- A pause leads from one tick to the next. -/
theorem tick_add_pause (hdeadline : task.deadline = start + task.timeout)
    (hinterval : 0 < task.interval) {k : Nat} (hk : k < task.lastTick) :
    task.tick start k + Dispatcher.pause task (task.tick start k) = task.tick start (k + 1) := by
  have h := (lt_lastTick_iff hinterval).mp hk
  rw [Dispatcher.pause, tick, tick, hdeadline, Nat.min_eq_left h.le, Nat.add_mul, Nat.one_mul]
  exact add_step_eq_min start hinterval h

end PendingTask

namespace Dispatcher

section Build

variable [Build]

variable {task : PendingTask σ} {start now : Instant} {world : σ}

/-! ## 3. The polls of an execution alone -/

/-- The polls of a task from some time on, each with its answer, if the execution is resumed
    exactly when it wakes. -/
def polls (task : PendingTask σ) (now : Instant) (world : σ) :
    List (Instant × Except ExecutionFailure JobStatus) :=
  (now, (task.service.status task.job.id world).1) ::
    match h : resume task now world with
    | (.ended _, _) => []
    | (.asleep task' wake, world) =>
      have := wake_of_resume h
      polls task' wake world
termination_by task.deadline - now
decreasing_by
  obtain ⟨h1, h2, h3⟩ := this
  rw [h3]
  exact Nat.sub_lt_sub_left h1 h2

theorem polls_of_ended {outcome : Except ExecutionFailure ExecutionResult} {world' : σ}
    (h : resume task now world = (.ended outcome, world')) :
    polls task now world = [(now, (task.service.status task.job.id world).1)] := by
  rw [polls]
  split <;> simp_all

theorem polls_of_asleep {task' : PendingTask σ} {wake : Instant} {world' : σ}
    (h : resume task now world = (.asleep task' wake, world')) :
    polls task now world =
      (now, (task.service.status task.job.id world).1) :: polls task' wake world' := by
  rw [polls]
  split <;> simp_all

/-- A number of polls that 32 bits can count, or that is counted in a build that does not
    check. -/
def Countable (polls : Nat) : Prop := polls < UInt32.size ∨ Build.checks = false

theorem Countable.of_le {m n : Nat} (h : Countable n) (hle : m ≤ n) : Countable m :=
  h.imp_left (Nat.lt_of_le_of_lt hle)

theorem reduce_of_countable {n : Nat} (h : Countable n) :
    Word.reduce UInt32.size n = .ok (n % UInt32.size) :=
  Word.reduce_eq_ok_iff.mpr ⟨h, rfl⟩

theorem countable_of_reduce {n polls : Nat} (h : Word.reduce UInt32.size n = .ok polls) :
    Countable n :=
  (Word.reduce_eq_ok_iff.mp h).1

theorem reduce_of_not_countable {n : Nat} (h : ¬ Countable n) :
    Word.reduce UInt32.size n = .error .overflow := by
  rw [Countable, not_or, Nat.not_lt, Bool.not_eq_false] at h
  exact Word.reduce_eq_error_iff.mpr ⟨h, rfl⟩

/-- The polls of a task up to the one that ends the execution.  It is the first that does not
    say that the task is on its way, or else that at the deadline or one that cannot be counted,
    and `count` are before it; all are on their ticks.  Then the way in which the last one ends
    the execution, and the calls, behind those made before. -/
structure PolledUntil (task : PendingTask σ) (start : Instant) (world : σ) (calls : List TaskCall)
    (count : Nat) : Prop where
  within : count ≤ task.lastTick
  pending : ∀ k < count, task.Pending world k
  settled : count = task.lastTick ∨ ¬ task.Pending world count ∨ ¬ Countable (count + 1)
  polls : polls task start world =
    (List.range (count + 1)).map fun k => (task.tick start k, task.answer world k)
  finish : (complete task start world).2.1 = task.tick start count
  ending : ∃ last job, job.id = task.job.id ∧ Word.reduce UInt32.size count = .ok job.polls ∧
    Concluded { task with job } (task.tick start count) (task.tick start count)
      (task.answer world count) last (complete task start world).1 ∧
    (complete task.logged start (world, calls)).2.2.2 = calls ++
      (((List.range (count + 1)).map fun k => .status task.job.id (task.answer world k)) ++ last)

/-! ## 4. From tick to tick -/

/-- Only the deadline ends an execution whose task is on its way, if its poll is counted. -/
theorem Concluded.late {status : JobStatus} {last : List TaskCall}
    {outcome : Except ExecutionFailure ExecutionResult} {polls : Nat}
    (h : Concluded task now now (.ok status) last outcome)
    (hpolls : Word.reduce UInt32.size (task.job.polls + 1) = .ok polls)
    (hpending : status.isPending = true) : task.deadline ≤ now := by
  cases h with
  | uncounted hfault => cases hpolls.symm.trans hfault
  | counted _ hfollows =>
    cases hfollows with
    | timedOut _ hlate => exact hlate
    | failed | cancelled | withheld | overflowing | incomplete | complete => cases hpending

variable (hdeadline : task.deadline = start + task.timeout) (hinterval : 0 < task.interval)

section Ticks

include hdeadline hinterval

/-- A counted poll before the deadline that says that the task is on its way leads to the next
    tick. -/
theorem resume_tick {job : Job} {k : Nat} (hid : job.id = task.job.id) (hk : k < task.lastTick)
    (hjob : Word.reduce UInt32.size k = .ok job.polls) (hcounted : Countable (k + 1))
    (hpending : task.Pending world k) (calls : List TaskCall) :
    ∃ job' : Job, job'.id = task.job.id ∧ Word.reduce UInt32.size (k + 1) = .ok job'.polls ∧
      resume { task with job } (task.tick start k) (task.worldAfter world k) =
        (.asleep { task with job := job' } (task.tick start (k + 1)), task.worldAfter world (k + 1)) ∧
      resume (PendingTask.logged { task with job }) (task.tick start k)
          (task.worldAfter world k, calls) =
        (.asleep (PendingTask.logged { task with job := job' }) (task.tick start (k + 1)),
          task.worldAfter world (k + 1), calls ++ [.status task.job.id (task.answer world k)]) := by
  obtain ⟨status, hanswer, hstatus⟩ := hpending
  have hcall : task.service.status job.id (task.worldAfter world k) =
      (.ok status, task.worldAfter world (k + 1)) := by
    rw [hid]
    exact Prod.ext hanswer rfl
  have hpolls : Word.reduce UInt32.size (job.polls + 1) = .ok ((k + 1) % UInt32.size) :=
    (Word.reduce_succ hjob).trans (reduce_of_countable hcounted)
  rcases resume_logged { task with job } (task.tick start k) (task.worldAfter world k) calls with
    ⟨status', polls', world', hcall', hpolls', -, -, hresume, hlogged⟩ |
    ⟨last, outcome, world', hconcluded, -, -⟩
  · cases hcall.symm.trans hcall'
    cases hpolls.symm.trans hpolls'
    have hpause : task.tick start k + pause { task with job } (task.tick start k) =
        task.tick start (k + 1) := PendingTask.tick_add_pause hdeadline hinterval hk
    rw [hpause] at hresume hlogged
    refine ⟨(polled { task with job } _ status (task.tick start k)).job, hid,
      reduce_of_countable hcounted, hresume, ?_⟩
    rw [hanswer, ← hid]
    exact hlogged
  · have hanswered : (task.service.status job.id (task.worldAfter world k)).1 = .ok status := by
      rw [hcall]
    have hlate : task.deadline ≤ task.tick start k :=
      (hanswered ▸ hconcluded).late hpolls hstatus
    exact absurd (PendingTask.tick_lt_deadline hdeadline hinterval hk) (Nat.not_lt.mpr hlate)

end Ticks

variable (hnew : task.job.polls = 0)

section Task

include hdeadline hinterval hnew

/-- **After so many answers that the task is on its way, the execution stands at that tick.** -/
theorem complete_of_pending {count : Nat} (hcount : count ≤ task.lastTick)
    (hpending : ∀ k < count, task.Pending world k) (hcounted : Countable count)
    (calls : List TaskCall) :
    ∃ job : Job, job.id = task.job.id ∧ Word.reduce UInt32.size count = .ok job.polls ∧
      polls task start world =
        ((List.range count).map fun k => (task.tick start k, task.answer world k)) ++
          polls { task with job } (task.tick start count) (task.worldAfter world count) ∧
      complete task start world =
        complete { task with job } (task.tick start count) (task.worldAfter world count) ∧
      complete task.logged start (world, calls) =
        complete (PendingTask.logged { task with job }) (task.tick start count)
          (task.worldAfter world count, calls ++
            (List.range count).map fun k => .status task.job.id (task.answer world k)) := by
  induction count with
  | zero =>
    refine ⟨task.job, rfl, ?_, ?_, ?_, ?_⟩
    · rw [hnew]
      exact Word.reduce_of_lt (by decide)
    · rw [task.tick_zero]
      rfl
    · rw [task.tick_zero]
      rfl
    · rw [task.tick_zero, List.range_zero, List.map_nil, List.append_nil]
      rfl
  | succ count ih =>
    obtain ⟨job, hid, hjob, hpolls, hcomplete, hlogged⟩ :=
      ih (Nat.le_of_succ_le hcount) (fun k hk => hpending k (Nat.lt_succ_of_lt hk))
        (hcounted.of_le (Nat.le_succ count))
    obtain ⟨job', hid', hjob', hresume, hresumeLogged⟩ :=
      resume_tick hdeadline hinterval hid hcount hjob hcounted (hpending count (Nat.lt_succ_self _))
        (calls ++ (List.range count).map fun k => .status task.job.id (task.answer world k))
    refine ⟨job', hid', hjob', ?_, ?_, ?_⟩
    · have hanswer : (task.service.status job.id (task.worldAfter world count)).1 =
          task.answer world count := by rw [hid, PendingTask.answer]
      rw [hpolls, polls_of_asleep hresume, List.range_succ, List.map_append, List.append_assoc,
        hanswer]
      rfl
    · rw [hcomplete, complete_of_asleep hresume]
    · rw [hlogged, complete_of_asleep hresumeLogged, List.range_succ, List.map_append,
        List.append_assoc]
      rfl

/-- The first poll that says something else or cannot be counted, or else that at the deadline,
    is the last. -/
theorem polledUntil {count : Nat} (hcount : count ≤ task.lastTick)
    (hpending : ∀ k < count, task.Pending world k) (hcounted : Countable count)
    (hlast : count = task.lastTick ∨ ¬ task.Pending world count ∨ ¬ Countable (count + 1))
    (calls : List TaskCall) : PolledUntil task start world calls count := by
  obtain ⟨job, hid, hjob, hpolls, hcomplete, hlogged⟩ :=
    complete_of_pending hdeadline hinterval hnew hcount hpending hcounted calls
  have hanswer : (task.service.status job.id (task.worldAfter world count)).1 =
      task.answer world count := by rw [hid, PendingTask.answer]
  rcases resume_logged { task with job } (task.tick start count) (task.worldAfter world count)
      (calls ++ (List.range count).map fun k => .status task.job.id (task.answer world k)) with
    ⟨status, polls', world', hcall, hpolls', hstatus, hearly, -, -⟩ |
    ⟨last, outcome, world', hconcluded, hresume, hresumeLogged⟩
  · -- it would not sleep at the deadline, nor after another answer or one that is not counted
    exfalso
    rcases hlast with rfl | hsettled | huncounted
    · rw [PendingTask.tick_lastTick hinterval start, ← hdeadline] at hearly
      exact Nat.lt_irrefl _ hearly
    · refine hsettled ⟨status, ?_, hstatus⟩
      rw [← hanswer]
      exact congrArg Prod.fst hcall
    · exact huncounted (countable_of_reduce ((Word.reduce_succ hjob).symm.trans hpolls'))
  · refine ⟨hcount, hpending, hlast, ?_, ?_, last, job, hid, hjob, ?_, ?_⟩
    · rw [hpolls, polls_of_ended hresume, List.range_succ, List.map_append, hanswer]
      rfl
    · rw [hcomplete, complete_of_ended hresume]
    · rw [hcomplete, complete_of_ended hresume, ← hanswer]
      exact hconcluded
    · have hcall : TaskCall.status job.id (task.service.status job.id
          (task.worldAfter world count)).1 = .status task.job.id (task.answer world count) := by
        rw [hanswer, hid]
      rw [hlogged, complete_of_ended hresumeLogged, List.range_succ, List.map_append]
      simp only [List.append_assoc, List.map_cons, List.map_nil, List.cons_append, List.nil_append]
      rw [hcall]

/-- A task that is found completed in time is never given up: its result is asked for. -/
theorem complete_of_completed {count : Nat} (hcount : count ≤ task.lastTick)
    (hpending : ∀ k < count, task.Pending world k) (hcounted : Countable (count + 1))
    (hanswer : task.answer world count = .ok .completed) :
    ∃ job : Job, job.id = task.job.id ∧ job.polls = (count + 1) % UInt32.size ∧
      (complete task start world).1 = (collect { task with job } (task.tick start count)
        (task.worldAfter world (count + 1))).1 := by
  obtain ⟨job, hid, hjob, -, hcomplete, -⟩ := complete_of_pending hdeadline hinterval hnew hcount
    hpending (hcounted.of_le (Nat.le_succ count)) []
  have hcall : task.service.status job.id (task.worldAfter world count) =
      (.ok .completed, task.worldAfter world (count + 1)) := by
    rw [hid]
    exact Prod.ext hanswer rfl
  have hresume : resume { task with job } (task.tick start count) (task.worldAfter world count) =
      _ := resume_of_ok hcall ((Word.reduce_succ hjob).trans (reduce_of_countable hcounted))
  refine ⟨(polled { task with job } _ .completed (task.tick start count)).job, hid, rfl, ?_⟩
  rw [hcomplete, complete_of_ended hresume]
  rfl

/-- There is such a poll, whatever the answers are. -/
theorem exists_polledUntil (world : σ) (calls : List TaskCall) :
    ∃ count, PolledUntil task start world calls count := by
  have hlast : ∀ n, ∃ count ≤ n, (∀ k < count, task.Pending world k) ∧ Countable count ∧
      (count = n ∨ ¬ task.Pending world count ∨ ¬ Countable (count + 1)) := by
    intro n
    induction n with
    | zero => exact ⟨0, Nat.le_refl _, nofun, .inl (by decide), .inl rfl⟩
    | succ n ih =>
      obtain ⟨count, hcount, hpending, hcounted, hstop⟩ := ih
      -- a poll that was found stays the last; otherwise the next one may be it
      by_cases hnext : task.Pending world count ∧ Countable (count + 1)
      · obtain rfl := hstop.resolve_right (by simp [hnext.1, hnext.2])
        refine ⟨count + 1, Nat.le_refl _, fun k hk => ?_, hnext.2, .inl rfl⟩
        rcases Nat.lt_succ_iff_lt_or_eq.mp hk with hk | rfl
        · exact hpending k hk
        · exact hnext.1
      · exact ⟨count, Nat.le_succ_of_le hcount, hpending, hcounted, .inr (not_and_or.mp hnext)⟩
  obtain ⟨count, hcount, hpending, hcounted, hstop⟩ := hlast task.lastTick
  exact ⟨count, polledUntil hdeadline hinterval hnew hcount hpending hcounted hstop calls⟩

end Task

/-! ## 5. Whether the task is given up -/

/-- Only a task that is on its way is cancelled, and only after a poll that was counted. -/
theorem Concluded.cancels_iff {answer : Except ExecutionFailure JobStatus} {last : List TaskCall}
    {outcome : Except ExecutionFailure ExecutionResult}
    (h : Concluded task now now answer last outcome) :
    (∃ id reply, TaskCall.cancel id reply ∈ last) ↔
      (∃ status, answer = .ok status ∧ status.isPending = true) ∧
        ∃ polls, Word.reduce UInt32.size (task.job.polls + 1) = .ok polls := by
  cases h with
  | unknown => simp
  | uncounted hfault => simp [hfault]
  | counted hpolls hfollows =>
    cases hfollows with
    | timedOut hpending _ reply =>
      exact iff_of_true ⟨_, reply, List.mem_singleton_self _⟩ ⟨⟨_, rfl, hpending⟩, _, hpolls⟩
    | failed | cancelled | withheld | overflowing | incomplete | complete =>
      simp [JobStatus.isPending]

theorem Concluded.outcome_of_pending {answer : Except ExecutionFailure JobStatus}
    {last : List TaskCall} {outcome : Except ExecutionFailure ExecutionResult} {polls : Nat}
    (h : Concluded task now now answer last outcome)
    (hpending : ∃ status, answer = .ok status ∧ status.isPending = true)
    (hpolls : Word.reduce UInt32.size (task.job.polls + 1) = .ok polls) :
    outcome = .error (.taskTimeout task.job.id task.timeout) := by
  obtain ⟨status, rfl, hpending⟩ := hpending
  cases h with
  | uncounted hfault => cases hpolls.symm.trans hfault
  | counted _ hfollows =>
    cases hfollows with
    | timedOut => rfl
    | failed | cancelled | withheld | overflowing | incomplete | complete => cases hpending

theorem Concluded.outcome_of_uncounted {status : JobStatus} {last : List TaskCall}
    {outcome : Except ExecutionFailure ExecutionResult} {fault : MachineFault}
    (h : Concluded task now now (.ok status) last outcome)
    (hpolls : Word.reduce UInt32.size (task.job.polls + 1) = .error fault) :
    outcome = .error (.machine fault) := by
  cases h with
  | uncounted hfault => cases hpolls.symm.trans hfault; rfl
  | counted hcounted => cases hpolls.symm.trans hcounted

namespace PolledUntil

variable {calls : List TaskCall} {count : Nat}

/-- The last poll is counted and says that the task is on its way exactly if all up to the
    deadline do. -/
theorem pending_iff (h : PolledUntil task start world calls count) :
    task.Pending world count ∧ Countable (count + 1) ↔
      (∀ k ≤ task.lastTick, task.Pending world k) ∧ Countable (task.lastTick + 1) := by
  constructor
  · rintro ⟨hlast, hcounted⟩
    obtain rfl := h.settled.resolve_right (by simp [hlast, hcounted])
    refine ⟨fun k hk => ?_, hcounted⟩
    rcases Nat.lt_or_eq_of_le hk with hk | rfl
    · exact h.pending k hk
    · exact hlast
  · rintro ⟨hall, hcounted⟩
    exact ⟨hall count h.within, hcounted.of_le (Nat.succ_le_succ h.within)⟩

/-- A task is given up exactly if it is on its way at every poll up to the deadline. -/
theorem cancels_iff (h : PolledUntil task start world calls count)
    (hcalls : ∀ id reply, TaskCall.cancel id reply ∉ calls) :
    (∃ id reply, TaskCall.cancel id reply ∈ (complete task.logged start (world, calls)).2.2.2) ↔
      (∀ k ≤ task.lastTick, task.Pending world k) ∧ Countable (task.lastTick + 1) := by
  obtain ⟨last, job, -, hjob, hconcluded, hlogged⟩ := h.ending
  have hcounted : Countable (count + 1) ↔
      ∃ polls, Word.reduce UInt32.size (job.polls + 1) = .ok polls := by
    rw [Word.reduce_succ hjob]
    exact ⟨fun hcount => ⟨_, reduce_of_countable hcount⟩, fun ⟨_, hok⟩ => countable_of_reduce hok⟩
  rw [← h.pending_iff, hcounted, PendingTask.Pending, ← hconcluded.cancels_iff, hlogged]
  simp [hcalls]

/-- Then the execution is over at the deadline and not before it. -/
theorem givenUp (h : PolledUntil task start world calls count) (hinterval : 0 < task.interval)
    (hpending : ∀ k ≤ task.lastTick, task.Pending world k)
    (hcounted : Countable (task.lastTick + 1)) : count = task.lastTick ∧
      (complete task start world).1 = .error (.taskTimeout task.job.id task.timeout) ∧
      (complete task start world).2.1 = start + task.timeout := by
  obtain ⟨hlast, hcount⟩ := h.pending_iff.mpr ⟨hpending, hcounted⟩
  obtain rfl := h.settled.resolve_right (by simp [hlast, hcount])
  obtain ⟨last, job, hid, hjob, hconcluded, -⟩ := h.ending
  refine ⟨rfl, ?_, ?_⟩
  · have hpolls := (Word.reduce_succ hjob).trans (reduce_of_countable hcounted)
    rw [hconcluded.outcome_of_pending hlast hpolls, hid]
  · rw [h.finish, PendingTask.tick_lastTick hinterval]

/-- A task that is on its way for too long is neither given up nor waited for any longer. -/
theorem uncounted (h : PolledUntil task start world calls count)
    (hpending : ∀ k ≤ task.lastTick, task.Pending world k)
    (huncounted : ¬ Countable (task.lastTick + 1)) : count + 1 = UInt32.size ∧
      (complete task start world).1 = .error (.machine .overflow) := by
  obtain ⟨last, job, -, hjob, hconcluded, -⟩ := h.ending
  have hcount : ¬ Countable (count + 1) := fun hcount =>
    huncounted (h.pending_iff.mp ⟨hpending count h.within, hcount⟩).2
  have hbefore := countable_of_reduce hjob
  rw [Countable, not_or] at hcount
  obtain ⟨status, hanswer, -⟩ := hpending count h.within
  rw [hanswer] at hconcluded
  refine ⟨Nat.le_antisymm (hbefore.resolve_right hcount.2) (Nat.le_of_not_lt hcount.1), ?_⟩
  exact hconcluded.outcome_of_uncounted
    ((Word.reduce_succ hjob).trans (reduce_of_not_countable (not_or.mpr hcount)))

end PolledUntil

/-! ## 6. Whole executions -/

section Whole

variable {adapter : Adapter σ} {native : Native Float} {request : ExecutionRequest}
  {service : TaskService σ} {payload : TaskPayload} {id : String} {world₁ : σ}

omit [Build] in
theorem pollTimes_of_valid (h : request.validate (R := Float) = .ok ()) :
    0 < request.pollTimeout ∧ 0 < request.pollInterval := by
  unfold ExecutionRequest.validate at h
  split at h
  · cases h
  · split at h
    · cases h
    · next htimes =>
      push Not at htimes
      exact ⟨Nat.pos_of_ne_zero htimes.2, Nat.pos_of_ne_zero htimes.1⟩

theorem execute_of_submits (hsubmits : Submits adapter native request service payload)
    (hcreate : service.create payload world = (.ok id, world₁)) (d : Dispatcher) (now : Instant)
    (hclock : now + request.pollTimeout < endOfTime) :
    d.execute adapter native request now world =
      complete (created service adapter.backend payload request id now) now world₁ :=
  execute_of_resume ((begin_of_submits d hsubmits now world).trans
    (submit_of_ok hcreate (Nat.not_le.mpr hclock)))

/-- **When a task is polled.**  An execution whose deadline the clock can show polls its task
    on the ticks of its interval, the last of them the deadline, up to the first answer that
    does not say that the task is on its way; if there is none, the task is given up at the
    deadline, unless there are more polls up to it than 32 bits can count.  If the clock cannot
    show the deadline, there is no poll at all. -/
theorem polling_schedule (hsubmits : Submits adapter native request service payload)
    (hcreate : service.create payload world = (.ok id, world₁)) (d : Dispatcher) (now : Instant) :
    (now + request.pollTimeout < endOfTime →
      let task := created service adapter.backend payload request id now
      let made : List TaskCall := [.create payload (.ok id)]
      d.execute adapter native request now world = complete task now world₁ ∧
      d.execute adapter.logged native request now (world, []) =
        complete task.logged now (world₁, made) ∧
      (∃ count, PolledUntil task now world₁ made count) ∧
      ((∃ id reply, TaskCall.cancel id reply ∈
          (d.execute adapter.logged native request now (world, [])).2.2.2) ↔
        (∀ k ≤ task.lastTick, task.Pending world₁ k) ∧ Countable (task.lastTick + 1)) ∧
      ((∀ k ≤ task.lastTick, task.Pending world₁ k) →
        (Countable (task.lastTick + 1) →
          (polls task now world₁).length = request.pollTimeout ⌈/⌉ request.pollInterval + 1 ∧
          (d.execute adapter native request now world).1 =
            .error (.taskTimeout id request.pollTimeout) ∧
          (d.execute adapter native request now world).2.1 = now + request.pollTimeout) ∧
        (¬ Countable (task.lastTick + 1) →
          (polls task now world₁).length = UInt32.size ∧
          (d.execute adapter native request now world).1 = .error (.machine .overflow)))) ∧
    (endOfTime ≤ now + request.pollTimeout →
      d.execute adapter native request now world =
        (.error (.machine .timeOutOfRange), now, world₁) ∧
      (d.execute adapter.logged native request now (world, [])).2.2.2 =
        [.create payload (.ok id)]) := by
  have hcreateLogged : service.logged.create payload (world, []) =
      (.ok id, world₁, [.create payload (.ok id)]) := Call.logged_of_eq hcreate
  have hbegin := begin_of_submits d hsubmits now world
  have hbeginLogged := begin_of_submits d hsubmits.logged now (world, [])
  constructor
  · intro hclock task made
    have hexecute : d.execute adapter native request now world = complete task now world₁ :=
      execute_of_submits hsubmits hcreate d now hclock
    have hlogged : d.execute adapter.logged native request now (world, []) =
        complete task.logged now (world₁, made) :=
      execute_of_submits hsubmits.logged hcreateLogged d now hclock
    have hinterval : 0 < task.interval := (pollTimes_of_valid hsubmits.valid).2
    obtain ⟨count, hcount⟩ : ∃ count, PolledUntil task now world₁ made count :=
      exists_polledUntil rfl hinterval rfl world₁ made
    refine ⟨hexecute, hlogged, ⟨count, hcount⟩, ?_, fun hpending => ⟨fun hcounted => ?_,
      fun huncounted => ?_⟩⟩
    · rw [hlogged]
      exact hcount.cancels_iff (by simp [made])
    · obtain ⟨rfl, houtcome, hfinish⟩ := hcount.givenUp hinterval hpending hcounted
      rw [hcount.polls, List.length_map, List.length_range, hexecute]
      exact ⟨rfl, houtcome, hfinish⟩
    · obtain ⟨hsize, houtcome⟩ := hcount.uncounted hpending huncounted
      rw [hcount.polls, List.length_map, List.length_range, hexecute]
      exact ⟨hsize, houtcome⟩
  · intro hlate
    constructor
    · unfold execute
      rw [hbegin, submit_of_late hcreate hlate]
    · unfold execute
      rw [hbeginLogged, submit_of_late hcreateLogged hlate]

end Whole

end Build

/-! ### Without an end, and without a deadline -/

section Script

variable {task : PendingTask ScriptState} {script : ServiceScript}

theorem statuses_worldAfter (hservice : task.service = script.service) (world : ScriptState)
    (k : Nat) : (task.worldAfter world k).statuses = world.statuses.drop k := by
  induction k with
  | zero => rfl
  | succ k ih =>
    rw [PendingTask.worldAfter, hservice, script.service_status, ih, List.tail_drop]

theorem answer_of_script (hservice : task.service = script.service) (world : ScriptState)
    (k : Nat) :
    task.answer world k = (world.statuses[k]?.getD (.ok .running)).mapError .service := by
  rw [PendingTask.answer, hservice, script.service_status, statuses_worldAfter hservice,
    List.head?_drop]

/-- A script with no status left says for ever that its tasks are running. -/
theorem pending_of_silent (hservice : task.service = script.service) {world : ScriptState}
    (hsilent : world.statuses = []) (k : Nat) : task.Pending world k := by
  refine ⟨.running, ?_, rfl⟩
  rw [answer_of_script hservice, hsilent]
  rfl

end Script

/-- Polled at once and at the deadline, which comes before the interval is over. -/
theorem polling_schedule_impatient : ∃ payload world₁,
    Submits unendingAdapter (.ion ⟨.empty 1⟩) impatient unending.service payload ∧
    unending.service.create payload ⟨[], []⟩ = (.ok "task-1", world₁) ∧
    (0 : Instant) + impatient.pollTimeout < endOfTime ∧
    (polls (created unending.service .ionq payload impatient "task-1" 0) 0 world₁).length = 2 ∧
    ((⟨⟨0, 1⟩⟩ : Dispatcher).execute unendingAdapter (.ion ⟨.empty 1⟩) impatient 0 ⟨[], []⟩).1 =
      .error (.taskTimeout "task-1" 5) ∧
    ((⟨⟨0, 1⟩⟩ : Dispatcher).execute unendingAdapter (.ion ⟨.empty 1⟩) impatient 0 ⟨[], []⟩).2.1 =
      5 := by
  obtain ⟨payload, world₁, hsubmits, hcreate, hsilent⟩ : ∃ payload world₁,
      Submits unendingAdapter (.ion ⟨.empty 1⟩) impatient unending.service payload ∧
      unending.service.create payload ⟨[], []⟩ = (.ok "task-1", world₁) ∧ world₁.statuses = [] :=
    ⟨_, _, ⟨rfl, rfl, _, rfl, rfl⟩, rfl, rfl⟩
  have hclock : (0 : Instant) + impatient.pollTimeout < endOfTime := by decide
  obtain ⟨-, -, -, -, hgivenUp⟩ := (polling_schedule hsubmits hcreate ⟨⟨0, 1⟩⟩ 0).1 hclock
  have hceil : impatient.pollTimeout ⌈/⌉ impatient.pollInterval = 1 := by decide
  obtain ⟨hpolls, houtcome, hfinish⟩ := (hgivenUp fun k _ => pending_of_silent rfl hsilent k).1
    (.inl (by
      change impatient.pollTimeout ⌈/⌉ impatient.pollInterval + 1 < UInt32.size
      rw [hceil]
      decide))
  rw [hceil] at hpolls
  exact ⟨payload, world₁, hsubmits, hcreate, hclock, hpolls, houtcome, hfinish⟩

/-- A task that would be found completed at once is not polled. -/
theorem tireless_unpolled : ∃ payload,
    Submits unendingAdapter (.ion ⟨.empty 1⟩) tireless unending.service payload ∧
    (unending.service.status "task-1" ⟨[.ok .completed], [.create payload]⟩).1 = .ok .completed ∧
    (⟨⟨0, 1⟩⟩ : Dispatcher).execute unendingAdapter.logged (.ion ⟨.empty 1⟩) tireless 0
        (⟨[.ok .completed], []⟩, []) =
      (.error (.machine .timeOutOfRange), 0, ⟨[.ok .completed], [.create payload]⟩,
        [.create payload (.ok "task-1")]) :=
  ⟨_, ⟨rfl, rfl, _, rfl, rfl⟩, rfl, rfl⟩

def restless : ExecutionRequest :=
  { impatient with pollTimeout := UInt32.size, pollInterval := 1 }

/-- As many polls as 32 bits can count find the task running; the next one finds it completed. -/
def lasting : ScriptState := ⟨.replicate (UInt32.size - 1) (.ok .running) ++ [.ok .completed], []⟩

theorem answer_lasting {task : PendingTask ScriptState} {script : ServiceScript}
    (hservice : task.service = script.service) {world : ScriptState}
    (hworld : world.statuses = lasting.statuses) :
    (∀ k < UInt32.size - 1, task.Pending world k) ∧
      task.answer world (UInt32.size - 1) = .ok .completed := by
  have hanswer := answer_of_script hservice world
  rw [hworld, lasting] at hanswer
  constructor
  · intro k hk
    refine ⟨.running, ?_, rfl⟩
    rw [hanswer, List.getElem?_append_left (by rwa [List.length_replicate]),
      List.getElem?_replicate_of_lt hk]
    rfl
  · rw [hanswer, List.getElem?_append_right (Nat.le_of_eq List.length_replicate),
      List.length_replicate, Nat.sub_self]
    rfl

/-- Two executions without the outcome that the answers call for: the deadline is beyond the clock,
    or there are `2 ^ 32` polls, which is a fault or, in a build that does not check, none. -/
theorem unanswered_runs :
    (∃ payload world, (⟨⟨0, 1⟩⟩ : Dispatcher).execute unendingAdapter.logged (.ion ⟨.empty 1⟩)
        tireless 0 (⟨[.ok .completed], []⟩, []) =
      (.error (.machine .timeOutOfRange), 0, world, [.create payload (.ok "task-1")])) ∧
    ((⟨⟨0, 1⟩⟩ : Dispatcher).execute unendingAdapter (.ion ⟨.empty 1⟩) restless 0 lasting).1 =
      .error (.machine .overflow) ∧
    letI := wrappingBuild
    ∃ result job, ((⟨⟨0, 1⟩⟩ : Dispatcher).execute unendingAdapter (.ion ⟨.empty 1⟩) restless 0
        lasting).1 = .ok result ∧ result.job = some job ∧ job.polls = 0 := by
  obtain ⟨payload, world₁, hsubmits, hcreate, hworld, hshots⟩ : ∃ payload world₁,
      Submits unendingAdapter (.ion ⟨.empty 1⟩) restless unending.service payload ∧
      unending.service.create payload lasting = (.ok "task-1", world₁) ∧
      world₁.statuses = lasting.statuses ∧ payload.shots = 1024 :=
    ⟨_, _, ⟨rfl, rfl, _, rfl, rfl⟩, rfl, rfl, rfl⟩
  have hclock : (0 : Instant) + restless.pollTimeout < endOfTime := by decide
  have hinterval : 0 < restless.pollInterval := by decide
  have hcount : UInt32.size - 1 ≤ restless.pollTimeout ⌈/⌉ restless.pollInterval := by decide
  let task := created unending.service .ionq payload restless "task-1" 0
  have hdeadline : task.deadline = 0 + task.timeout := rfl
  obtain ⟨hpending, hanswer⟩ := answer_lasting (rfl : task.service = unending.service) hworld
  refine ⟨⟨_, _, rfl⟩, ?_, ?_⟩
  · have huncounted : ¬ Countable (UInt32.size - 1 + 1) := not_or.mpr ⟨by decide, by decide⟩
    obtain ⟨last, job, -, hjob, hconcluded, -⟩ := (polledUntil hdeadline hinterval rfl hcount
      hpending (.inl (by decide)) (.inr (.inr huncounted)) []).ending
    rw [execute_of_submits hsubmits hcreate ⟨⟨0, 1⟩⟩ 0 hclock]
    rw [hanswer] at hconcluded
    exact hconcluded.outcome_of_uncounted
      ((Word.reduce_succ hjob).trans (reduce_of_not_countable huncounted))
  · let _ := wrappingBuild
    obtain ⟨job, -, hjob, hcomplete⟩ := complete_of_completed hdeadline hinterval rfl hcount
      hpending (.inr rfl) hanswer
    have hexecute := execute_of_submits hsubmits hcreate ⟨⟨0, 1⟩⟩ 0 hclock
    have htotal : (⟨[("0", 1024)]⟩ : Counts).total? = .ok 1024 := rfl
    have hfull := hcomplete.trans (congrArg Prod.fst (collect_of_full rfl htotal hshots.symm))
    refine ⟨_, job, (congrArg Prod.fst hexecute).trans hfull, ?_, hjob⟩
    rfl

end Dispatcher

end CircuitBroker
