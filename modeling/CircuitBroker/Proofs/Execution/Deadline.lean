/-
  CircuitBroker/Proofs/Execution/Deadline.lean
  ============================================
  **Whether the clock can show the deadline of a task.**

  A deadline is fixed when a task has been created, and what is left up to it is taken at
  each poll after which the execution sleeps.  The second of these never fails: a poll is
  followed by sleep only before the deadline (`asleep_before_deadline`), which stays where it
  was from poll to poll (`Polled.kept`).  The first can fail for a timeout that settings may
  ask for, and then there is a task that nobody waits for (`deadline_shown`).
-/
import CircuitBroker.Proofs.Execution.Polling
import CircuitBroker.Proofs.Settings.Precedence

namespace CircuitBroker

variable {σ : Type}

namespace Dispatcher

section Build

variable [Build]

variable {task : PendingTask σ} {start now wake : Instant} {world : σ}

/-! ## 1. From poll to poll -/

/-- An execution sleeps only before its deadline, for its interval or for what is left. -/
theorem asleep_before_deadline {task' : PendingTask σ} {world' : σ} (hinterval : 0 < task.interval)
    (h : resume task now world = (.asleep task' wake, world')) :
    task'.deadline = task.deadline ∧ task'.interval = task.interval ∧
      ∃ left, 0 < left ∧ now + left = task.deadline ∧ wake = now + min task.interval left := by
  rcases resume_logged task now world [] with
    ⟨status, _, _, -, -, -, hearly, hresume, -⟩ | ⟨_, _, _, -, hresume, -⟩
  · cases h.symm.trans hresume
    have hleft : 0 < task.deadline - now := Nat.sub_pos_of_lt hearly
    refine ⟨rfl, rfl, task.deadline - now, hleft, Nat.add_sub_of_le hearly.le, ?_⟩
    rw [pause, Nat.max_eq_right (Nat.le_min.mpr ⟨hinterval, hleft⟩)]
  · cases h.symm.trans hresume

/-- A poll of a task, with its time and the world in which it is made, whenever the execution
    is resumed: the first poll after the start, each other one no earlier than it wakes. -/
inductive Polled (task : PendingTask σ) (start : Instant) (world : σ) :
    PendingTask σ → Instant → σ → Prop
  | first {now : Instant} (hlater : start ≤ now) : Polled task start world task now world
  | again {earlier later : PendingTask σ} {past wake now : Instant} {before after : σ}
      (h : Polled task start world earlier past before)
      (hasleep : resume earlier past before = (.asleep later wake, after)) (hdue : wake ≤ now) :
      Polled task start world later now after

/-- The deadline and the interval stay what they were. -/
theorem Polled.kept {polled : PendingTask σ} {world' : σ} (hinterval : 0 < task.interval)
    (h : Polled task start world polled now world') :
    polled.deadline = task.deadline ∧ polled.interval = task.interval := by
  induction h with
  | first => exact ⟨rfl, rfl⟩
  | again _ hasleep _ ih =>
    obtain ⟨hdeadline, hkept⟩ := ih
    obtain ⟨hdeadline', hkept', -⟩ := asleep_before_deadline (hkept ▸ hinterval) hasleep
    exact ⟨hdeadline'.trans hdeadline, hkept'.trans hkept⟩

/-- A fault of the machine that ends an execution is one that the service has reported, or
    something is more than can be counted. -/
theorem Concluded.reported {answered fetched : Instant} {answer : Except ExecutionFailure JobStatus}
    {last : List TaskCall} {fault : MachineFault}
    (h : Concluded task answered fetched answer last (.error (.machine fault))) :
    answer = .error (.machine fault) ∨
      last = [.result task.job.id task.payload (.error (.machine fault))] ∨
      fault = .overflow ∧ (Word.reduce UInt32.size (task.job.polls + 1) = .error .overflow ∨
        ∃ counts : Counts, 2 ^ 64 ≤ counts.sum ∧
          last = [.result task.job.id task.payload (.ok counts)]) := by
  cases h with
  | unknown => exact .inl rfl
  | uncounted hpolls =>
    obtain rfl := (Word.reduce_eq_error_iff.mp hpolls).2
    exact .inr (.inr ⟨rfl, .inl hpolls⟩)
  | counted _ hfollows =>
    cases hfollows with
    | withheld => exact .inr (.inl rfl)
    | overflowing _ htotal =>
      obtain ⟨⟨hsum, -⟩, rfl⟩ := Counts.total?_eq_error_iff.mp htotal
      exact .inr (.inr ⟨rfl, .inr ⟨_, hsum, rfl⟩⟩)

/-- No fault of the machine comes from the times of the polling, whenever a new task is polled. -/
theorem Settles.reported {calls : List TaskCall} (clock : Readings) {final : Readings}
    {world' : Logged σ}
    {fault : MachineFault} (hnew : task.job.polls = 0)
    (h : Settles (resumeAt task.logged clock.answered clock.fetched (world, calls)) clock
      (.error (.machine fault)) final world') :
    .status task.job.id (.error (.machine fault)) ∈ world'.2 ∨
      .result task.job.id task.payload (.error (.machine fault)) ∈ world'.2 ∨
      fault = .overflow ∧ (calls.length + UInt32.size ≤ world'.2.length ∨
        ∃ counts : Counts, 2 ^ 64 ≤ counts.sum ∧
          .result task.job.id task.payload (.ok counts) ∈ world'.2) := by
  have hzero : Word.reduce UInt32.size 0 = .ok task.job.polls := by
    rw [hnew]
    exact Word.reduce_of_lt (by decide)
  obtain ⟨earlier, answer, last, job, -, hid, -, hpolls, hcalls, hconcluded⟩ :=
    h.concluded _ _ _ 0 hzero rfl
  rw [hcalls]
  rcases hconcluded.reported with rfl | rfl | ⟨hoverflow, huncounted | ⟨counts, hsum, rfl⟩⟩
  · simp
  · simp [hid]
  · refine .inr (.inr ⟨hoverflow, .inl ?_⟩)
    have hsize := (Word.reduce_eq_error_iff.mp ((Word.reduce_succ hpolls).symm.trans huncounted)).1.1
    simp only [List.length_append, List.length_map, List.length_cons]
    omega
  · exact .inr (.inr ⟨hoverflow, .inr ⟨counts, hsum, by simp [hid]⟩⟩)

/-! ## 2. The deadline of a task -/

def wholeSeconds (now : Instant) : Nat := now / Duration.ofSeconds 1

omit [Build] in
/-- The clock shows whole seconds in 63 bits, so only these decide. -/
theorem deadline_lt_endOfTime_iff (now : Instant) (seconds : Nat) :
    now + Duration.ofSeconds seconds < endOfTime ↔ wholeSeconds now + seconds < 2 ^ 63 := by
  have hsecond : 0 < Duration.ofSeconds 1 := by decide
  rw [wholeSeconds, ← Nat.add_mul_div_right now seconds hsecond, Nat.div_lt_iff_lt_mul hsecond]
  exact Iff.rfl

section Whole

variable {settings : Settings} {e : ExecutionSettings} {adapter : Adapter σ}
  {native : Native Float} {service : TaskService σ} {payload : TaskPayload} {target id : String}
  {world₁ : σ}

/-- **What becomes of a task that has been created for an execution of valid settings.**  If the
    clock can show its deadline, the task is polled, each time it sleeps there is something
    left up to the deadline, and the machine is at fault only if the service says so or there is
    more to count than a word can hold.  If the clock cannot show it, the execution is over at
    once: the task is neither polled nor cancelled. -/
theorem deadline_shown (hvalid : settings.validate = .ok ()) (he : e ∈ settings.executions)
    (hroute : adapter.route e.request = .ok (.remote target))
    (hconnect : adapter.connect e.request = .ok service)
    (hpayload : adapter.payload native e.request target = .ok payload)
    (hcreate : service.create payload world = (.ok id, world₁)) (d : Dispatcher) (now : Instant) :
    (wholeSeconds now + e.pollTimeout < 2 ^ 63 →
      let task := created service adapter.backend payload e.request id now
      task.deadline = now + Duration.ofSeconds e.pollTimeout ∧ task.deadline < endOfTime ∧
      d.begin adapter native e.request now world = resume task now world₁ ∧
      (∀ polled time before sleeping wake after, Polled task now world₁ polled time before →
        resume polled time before = (.asleep sleeping wake, after) →
        ∃ left, 0 < left ∧ time + left = task.deadline ∧
          wake = time + min (Duration.ofSeconds e.pollInterval) left) ∧
      ∀ fault final after,
        Settles (d.begin adapter.logged native e.request now (world, [])) (.still now)
          (.error (.machine fault)) final after →
        .status id (.error (.machine fault)) ∈ after.2 ∨
          .result id payload (.error (.machine fault)) ∈ after.2 ∨
          fault = .overflow ∧ (UInt32.size < after.2.length ∨
            ∃ counts : Counts, 2 ^ 64 ≤ counts.sum ∧ .result id payload (.ok counts) ∈ after.2)) ∧
    (2 ^ 63 ≤ wholeSeconds now + e.pollTimeout →
      d.execute adapter.logged native e.request now (world, []) =
        (.error (.machine .timeOutOfRange), now, world₁, [.create payload (.ok id)])) := by
  have hrequest := Settings.validate_request hvalid he Float
  have hsubmits : Submits adapter native e.request service payload :=
    ⟨hrequest, hconnect, target, hroute, hpayload⟩
  have hcreateLogged : service.logged.create payload (world, []) =
      (.ok id, world₁, [.create payload (.ok id)]) := Call.logged_of_eq hcreate
  have hbegin := begin_of_submits d hsubmits now world
  have hbeginLogged := begin_of_submits d hsubmits.logged now (world, [])
  have hshown := deadline_lt_endOfTime_iff now e.pollTimeout
  constructor
  · intro hseconds task
    have hclock : now + Duration.ofSeconds e.pollTimeout < endOfTime := hshown.mpr hseconds
    have hinterval : 0 < task.interval := (pollTimes_of_valid hrequest).2
    refine ⟨rfl, hclock, ?_, ?_, ?_⟩
    · exact hbegin.trans (submit_of_ok hcreate (Nat.not_le.mpr hclock))
    · intro polled time before sleeping wake after hpolled hasleep
      obtain ⟨hdeadline, hkept⟩ := hpolled.kept hinterval
      obtain ⟨-, -, left, hleft, hsum, hwake⟩ :=
        asleep_before_deadline (hkept ▸ hinterval) hasleep
      rw [hkept] at hwake
      exact ⟨left, hleft, hsum.trans hdeadline, hwake⟩
    · intro fault final after hsettles
      rw [hbeginLogged, submit_of_ok hcreateLogged (Nat.not_le.mpr hclock)] at hsettles
      have hnew : task.job.polls = 0 := rfl
      have hreported := Settles.reported (.still now) hnew hsettles
      rwa [List.length_singleton, Nat.add_comm, Nat.add_one_le_iff] at hreported
  · intro hseconds
    have hlate : endOfTime ≤ now + e.request.pollTimeout :=
      Nat.not_lt.mp (mt hshown.mp (Nat.not_lt.mpr hseconds))
    unfold execute
    rw [hbeginLogged, submit_of_late hcreateLogged hlate]

end Whole

end Build

/-! ### The longest timeouts -/

/-- An execution on a service for as many seconds as a word may say. -/
def patient (seconds : Nat) : ExecutionSettings :=
  { ExecutionSettings.new .ionq with credential := some "key", pollTimeout := seconds }

/-- A second after the start of the clock, the longest timeout that can be waited for. -/
theorem deadline_shown_longest : ∃ payload world₁,
    ({ Settings.default with executions := [patient (2 ^ 63 - 2)] }).validate = .ok () ∧
    unendingAdapter.payload (.ion ⟨.empty 1⟩) (patient (2 ^ 63 - 2)).request "simulator" =
      .ok payload ∧
    unending.service.create payload ⟨[], []⟩ = (.ok "task-1", world₁) ∧
    wholeSeconds (Duration.ofSeconds 1) + (2 ^ 63 - 2) < 2 ^ 63 ∧
    (created unending.service .ionq payload (patient (2 ^ 63 - 2)).request "task-1"
      (Duration.ofSeconds 1)).deadline < endOfTime := by
  have hvalid : ({ Settings.default with executions := [patient (2 ^ 63 - 2)] }).validate =
      .ok () := by decide
  have hseconds : wholeSeconds (Duration.ofSeconds 1) + (2 ^ 63 - 2) < 2 ^ 63 := by decide
  obtain ⟨payload, world₁, hpayload, hcreate⟩ : ∃ payload world₁,
      unendingAdapter.payload (.ion ⟨.empty 1⟩) (patient (2 ^ 63 - 2)).request "simulator" =
        .ok payload ∧ unending.service.create payload ⟨[], []⟩ = (.ok "task-1", world₁) :=
    ⟨_, _, rfl, rfl⟩
  have hroute : unendingAdapter.route (patient (2 ^ 63 - 2)).request =
      .ok (.remote "simulator") := rfl
  have hshown := (deadline_shown hvalid (List.mem_singleton_self _) hroute rfl hpayload hcreate
    ⟨⟨0, 1⟩⟩ (Duration.ofSeconds 1)).1 hseconds
  exact ⟨payload, world₁, hvalid, hpayload, hcreate, hseconds, hshown.2.1⟩

/-- Settings that ask for more are valid as well, and the task that they make is lost. -/
theorem deadline_unshown : ∃ payload world₁,
    ({ Settings.default with executions := [patient (2 ^ 63)] }).validate = .ok () ∧
    2 ^ 63 < UInt64.size ∧
    unending.service.create payload ⟨[.ok .completed], []⟩ = (.ok "task-1", world₁) ∧
    (unending.service.status "task-1" world₁).1 = .ok .completed ∧
    (⟨⟨0, 1⟩⟩ : Dispatcher).execute unendingAdapter.logged (.ion ⟨.empty 1⟩)
        (patient (2 ^ 63)).request 0 (⟨[.ok .completed], []⟩, []) =
      (.error (.machine .timeOutOfRange), 0, world₁, [.create payload (.ok "task-1")]) :=
  ⟨_, _, by decide, by decide, rfl, rfl, rfl⟩

end Dispatcher

end CircuitBroker
