/-
  CircuitBroker/Proofs/Execution/Observed.lean
  ============================================
  **What a job keeps of the statuses that are reported of it.**

  A job has the status that was reported last, whatever was reported before: a terminal status
  is as easily replaced as any other, so it stays exactly if nothing else is reported after it
  (`permanent_iff`).  The two times stay as soon as they are written down (`stamp_observed`):
  the one at which a status other than queued was first reported, and the one at which a
  terminal one was.  The dispatcher asks no more of a task that has ended, so the job it hands
  out with a result has been completed once and for all (`Dispatcher.result_job_permanent`).
-/
import CircuitBroker.Proofs.Execution.Transcript

namespace CircuitBroker

theorem JobStatus.isTerminal_of_isPending {status : JobStatus} (h : status.isPending = true) :
    status.isTerminal = false := by
  cases status with
  | queued | running => rfl
  | completed | failed | cancelled => cases h

namespace Job

/-! ## 1. One report after the other -/

/-- A job after some statuses have been reported of it, each at its time. -/
def observed (j : Job) (reports : List (JobStatus × Instant)) : Job :=
  reports.foldl (fun j (status, now) => j.withStatus status now) j

@[simp] theorem observed_nil (j : Job) : j.observed [] = j := rfl

@[simp] theorem observed_cons (j : Job) (status : JobStatus) (now : Instant)
    (reports : List (JobStatus × Instant)) :
    j.observed ((status, now) :: reports) = (j.withStatus status now).observed reports := rfl

def firstTime? (kind : JobStatus → Bool) (reports : List (JobStatus × Instant)) : Option Instant :=
  (reports.find? fun r => kind r.1).map (·.2)

theorem firstTime?_cons (kind : JobStatus → Bool) (status : JobStatus) (now : Instant)
    (reports : List (JobStatus × Instant)) :
    firstTime? kind ((status, now) :: reports) =
      if kind status then some now else firstTime? kind reports := by
  unfold firstTime?
  rw [List.find?_cons]
  cases kind status <;> rfl

theorem firstTime?_append (kind : JobStatus → Bool) (reports more : List (JobStatus × Instant)) :
    firstTime? kind (reports ++ more) = (firstTime? kind reports).or (firstTime? kind more) := by
  unfold firstTime?
  rw [List.find?_append, Option.map_or]

theorem isSome_firstTime? (kind : JobStatus → Bool) (reports : List (JobStatus × Instant)) :
    (firstTime? kind reports).isSome ↔ ∃ r ∈ reports, kind r.1 = true := by
  rw [firstTime?, Option.isSome_map, List.find?_isSome]

/-- **A job has the status reported last.** -/
theorem status_observed (j : Job) (reports : List (JobStatus × Instant)) :
    (j.observed reports).status = (reports.getLast?.map (·.1)).getD j.status := by
  induction reports generalizing j with
  | nil => rfl
  | cons r reports ih =>
    obtain ⟨status, now⟩ := r
    rw [observed_cons, ih, List.getLast?_cons]
    cases reports.getLast? <;> rfl

/-- **A time that is written down once stays.**  A field that takes the time of a report of some
    kind, unless it has a time already, holds the time of the first such report. -/
theorem stamp_observed {stamp : Job → Option Instant} {kind : JobStatus → Bool}
    (hstep : ∀ j status now, stamp (withStatus j status now) =
      if kind status then (stamp j).or (some now) else stamp j)
    (j : Job) (reports : List (JobStatus × Instant)) :
    stamp (j.observed reports) = (stamp j).or (firstTime? kind reports) := by
  induction reports generalizing j with
  | nil => exact Option.or_none.symm
  | cons r reports ih =>
    obtain ⟨status, now⟩ := r
    rw [observed_cons, ih, hstep, firstTime?_cons]
    cases kind status with
    | false => rfl
    | true => exact Option.or_assoc

theorem finishedAt_observed (j : Job) (reports : List (JobStatus × Instant)) :
    (j.observed reports).finishedAt =
      j.finishedAt.or (firstTime? JobStatus.isTerminal reports) := by
  refine stamp_observed (fun j status now => ?_) j reports
  cases h : status.isTerminal <;> simp [withStatus, h]

theorem startedAt_observed (j : Job) (reports : List (JobStatus × Instant)) :
    (j.observed reports).startedAt = j.startedAt.or (firstTime? (· ≠ .queued) reports) := by
  refine stamp_observed (fun j status now => ?_) j reports
  by_cases h : status = .queued <;> simp [withStatus, h]

/-- Reports touch the status and the two times only. -/
theorem observed_eq (j : Job) (reports : List (JobStatus × Instant)) :
    j.observed reports = { j with
      status := (j.observed reports).status
      startedAt := (j.observed reports).startedAt
      finishedAt := (j.observed reports).finishedAt } := by
  induction reports generalizing j with
  | nil => rfl
  | cons r reports ih =>
    obtain ⟨status, now⟩ := r
    rw [observed_cons, ih]
    rfl

/-- Reports and the number of polls are kept apart. -/
theorem observed_polls (j : Job) (polls : Nat) (reports : List (JobStatus × Instant)) :
    { j with polls }.observed reports = { j.observed reports with polls } := by
  induction reports generalizing j with
  | nil => rfl
  | cons r reports ih =>
    obtain ⟨status, now⟩ := r
    exact ih (j.withStatus status now)

/-! ## 2. What stays -/

theorem status_observed_take (j : Job) {reports : List (JobStatus × Instant)} {n : Nat}
    (hn : n < reports.length) :
    (j.observed (reports.take (n + 1))).status = reports[n].1 := by
  rw [status_observed, List.take_succ_eq_append_getElem hn, List.getLast?_concat]
  rfl

/-- **A terminal status is permanent** for a job, however many of the reports have come in,
    exactly if none of them is followed by one of another status. -/
theorem permanent_iff (j : Job) (reports : List (JobStatus × Instant)) :
    (∀ seen, seen <+: reports → ∀ first ∈ seen.find? (·.1.isTerminal),
      (j.observed seen).status = first.1) ↔
    reports.Pairwise fun before after => before.1.isTerminal = true → after.1 = before.1 := by
  constructor
  · intro hpermanent
    rw [List.pairwise_iff_getElem]
    intro m n hm hn hlt hterminal
    -- The first terminal report up to `m` is still the first one up to `n`.
    obtain ⟨first, hfirst⟩ : ∃ first, (reports.take (m + 1)).find? (·.1.isTerminal) =
        some first := by
      rw [← Option.isSome_iff_exists, List.find?_isSome]
      exact ⟨reports[m], List.mem_take_iff_getElem.mpr ⟨m, by omega, rfl⟩, hterminal⟩
    have hprefix : reports.take (m + 1) <+: reports.take (n + 1) :=
      List.take_prefix_take_left (by omega)
    have hlater := hprefix.find?_eq_some hfirst
    calc reports[n].1
      _ = first.1 := by
        rw [← status_observed_take j hn]
        exact hpermanent _ (List.take_prefix _ _) first hlater
      _ = reports[m].1 := by
        rw [← status_observed_take j hm]
        exact (hpermanent _ (List.take_prefix _ _) first hfirst).symm
  · intro hpairwise seen hseen first hfirst
    obtain ⟨hterminal, before, after, rfl, -⟩ := List.find?_eq_some_iff_append.mp hfirst
    have hafter : ∀ r ∈ after, r.1 = first.1 := by
      have hsplit := hpairwise.sublist hseen.sublist
      rw [List.pairwise_append, List.pairwise_cons] at hsplit
      exact fun r hr => hsplit.2.1.1 r hr hterminal
    rw [status_observed, List.getLast?_append]
    cases hlast : after.getLast? with
    | none => simp [List.getLast?_cons, hlast]
    | some last =>
      simp [List.getLast?_cons, hlast, hafter last (List.mem_of_getLast? hlast)]

/-- **What a job keeps of its history.**  Its status is the one reported last, and a terminal one
    is permanent exactly if no other status is reported after a terminal one.  It has finished as
    soon as a terminal status has been reported, and started as soon as one other than queued
    has; when it did is told by the first such report and never changes.  Everything else stays
    as it was when the job was made. -/
theorem history_kept (id : String) (backend : Backend) (shots : Nat) (now : Instant)
    (reports : List (JobStatus × Instant)) :
    let made := new id backend shots now
    let job := made.observed
    (job reports).status = (reports.getLast?.map (·.1)).getD .queued ∧
    ((∀ seen, seen <+: reports → ∀ first ∈ seen.find? (·.1.isTerminal),
        (job seen).status = first.1) ↔
      reports.Pairwise fun before after => before.1.isTerminal = true → after.1 = before.1) ∧
    ((job reports).finishedAt.isSome ↔ ∃ r ∈ reports, r.1.isTerminal = true) ∧
    ((job reports).startedAt.isSome ↔ ∃ r ∈ reports, r.1 ≠ .queued) ∧
    (job reports).finishedAt = firstTime? JobStatus.isTerminal reports ∧
    (job reports).startedAt = firstTime? (· ≠ .queued) reports ∧
    (∀ seen, seen <+: reports →
      (∀ time ∈ (job seen).finishedAt, (job reports).finishedAt = some time) ∧
      ∀ time ∈ (job seen).startedAt, (job reports).startedAt = some time) ∧
    job reports = { made with
      status := (job reports).status
      startedAt := (job reports).startedAt
      finishedAt := (job reports).finishedAt } := by
  intro made job
  have hfinished : ∀ seen, (job seen).finishedAt = firstTime? JobStatus.isTerminal seen :=
    fun seen => (finishedAt_observed made seen).trans Option.none_or
  have hstarted : ∀ seen, (job seen).startedAt = firstTime? (· ≠ .queued) seen :=
    fun seen => (startedAt_observed made seen).trans Option.none_or
  refine ⟨status_observed made reports, permanent_iff made reports, ?_, ?_, hfinished reports,
    hstarted reports, ?_, observed_eq made reports⟩
  · rw [hfinished, isSome_firstTime?]
  · rw [hstarted, isSome_firstTime?]
    simp only [decide_eq_true_eq]
  · rintro seen ⟨more, rfl⟩
    constructor
    · intro time htime
      rw [hfinished] at htime ⊢
      rw [firstTime?_append, htime, Option.some_or]
    · intro time htime
      rw [hstarted] at htime ⊢
      rw [firstTime?_append, htime, Option.some_or]

/-- A task that has been completed is running again when that is reported of it. -/
theorem completed_reopened :
    let job := (new "task-1" .ionq 3 0).observed
    (job [(.completed, 1)]).status = .completed ∧
      (job [(.completed, 1), (.running, 2)]).status = .running ∧
      (job [(.completed, 1), (.running, 2)]).finishedAt = some 1 :=
  ⟨rfl, rfl, rfl⟩

end Job

/-! ## 3. Jobs of a dispatcher -/

namespace Dispatcher

variable {σ : Type} [Build]

/-- The job of a result has been observed until it was completed: each poll but the last said
    that the task was still on its way. -/
theorem Settles.observed {progress : Progress σ × σ} {clock final : Readings}
    {outcome : Except ExecutionFailure ExecutionResult} {world' : σ} {result : ExecutionResult}
    (h : Settles progress clock outcome final world') (houtcome : outcome = .ok result)
    (task : PendingTask σ) (world : σ) (made : Nat)
    (hmade : Word.reduce UInt32.size made = .ok task.job.polls)
    (hprogress : progress = resumeAt task clock.answered clock.fetched world) :
    ∃ earlier : List (JobStatus × Instant), (∀ r ∈ earlier, r.1.isPending = true) ∧
      ∃ polls, Word.reduce UInt32.size (made + earlier.length + 1) = .ok polls ∧
        result.job = some { task.job.observed (earlier ++ [(.completed, final.answered)]) with
          polls } := by
  induction h generalizing task world made with
  | ended =>
    rcases resumeAt_logged task _ _ world [] with
      ⟨_, _, _, -, -, -, -, hasleep, -⟩ | ⟨_, _, _, hconcluded, hended, -⟩
    · rw [hasleep] at hprogress
      cases hprogress
    · rw [hended] at hprogress
      cases hprogress
      subst houtcome
      generalize (task.service.status task.job.id world).1 = answer at hconcluded
      cases hconcluded with
      | counted hpolls hfollows =>
        cases hfollows
        exact ⟨[], by simp, _, (Word.reduce_succ hmade).symm.trans hpolls, rfl⟩
  | @resumed task' wake answered fetched clock final world₁ world' outcome hdue hfetched h ih =>
    rcases resumeAt_logged task clock.answered clock.fetched world [] with
      ⟨status, polls, _, -, hpolls, hpending, -, hasleep, -⟩ | ⟨_, _, _, -, hended, -⟩
    · rw [hasleep] at hprogress
      cases hprogress
      obtain ⟨earlier, hearlier, all, hall, hjob⟩ :=
        ih houtcome (polled task polls status clock.answered) _ (made + 1)
          ((Word.reduce_succ hmade).symm.trans hpolls) rfl
      refine ⟨(status, clock.answered) :: earlier, List.forall_mem_cons.mpr ⟨hpending, hearlier⟩,
        all, ?_, ?_⟩
      · rw [List.length_cons, Nat.add_comm earlier.length, ← Nat.add_assoc, hall]
      · have hpolled : (polled task polls status clock.answered).job =
            { task.job.withStatus status clock.answered with polls } := rfl
        rw [hjob, hpolled, Job.observed_polls, List.cons_append, Job.observed_cons]
    · rw [hended] at hprogress
      cases hprogress

/-- **The job of a remote result is completed for good.**  Nothing was reported of it after the
    completion, whenever the execution was resumed, so its terminal status is permanent; it
    finished when it was seen to be completed. -/
theorem result_job_permanent {d : Dispatcher} {adapter : Adapter σ} {native : Native Float}
    {request : ExecutionRequest} {target : String} {clock final : Readings} {world world' : σ}
    {result : ExecutionResult} (hroute : adapter.route request = .ok (.remote target))
    (h : Settles (d.beginAt adapter native request clock world) clock (.ok result) final world') :
    ∃ (id : String) (shots : Nat) (reports : List (JobStatus × Instant)),
      let job := (Job.new id adapter.backend shots clock.created).observed
      (∃ polls, Word.reduce UInt32.size reports.length = .ok polls ∧
        result.job = some { job reports with polls }) ∧
      (job reports).status = .completed ∧ (job reports).finishedAt = some final.answered ∧
      ∀ seen, seen <+: reports → ∀ first ∈ seen.find? (·.1.isTerminal),
        (job seen).status = first.1 := by
  rcases beginAt_logged d hroute native clock world [] with
    ⟨_, -, hbegin, -⟩ | ⟨service, payload, -, -, -, hbegin, -⟩
  · rw [hbegin] at h
    cases h
  · rcases submitAt_logged service adapter.backend payload request clock world [] with
      ⟨_, _, hsubmit, -⟩ | ⟨_, _, -, hsubmit, -⟩ | ⟨id, _, hsubmit, -⟩
    · rw [hbegin, hsubmit] at h
      cases h
    · rw [hbegin, hsubmit] at h
      cases h
    · obtain ⟨earlier, hearlier, polls, hpolls, hjob⟩ :=
        h.observed rfl _ _ 0 rfl (hbegin.trans hsubmit)
      have hpending : ∀ r ∈ earlier, r.1.isTerminal = false :=
        fun r hr => JobStatus.isTerminal_of_isPending (hearlier r hr)
      refine ⟨id, payload.shots, earlier ++ [(.completed, final.answered)], ⟨polls, ?_, ?_⟩,
        ?_, ?_, ?_⟩
      · rw [List.length_append, List.length_singleton, ← hpolls, Nat.zero_add]
      · rw [hjob]
        simp [createdAt, Job.new]
      · rw [Job.status_observed, List.getLast?_concat]
        rfl
      · have hnone : Job.firstTime? JobStatus.isTerminal earlier = none :=
          Option.map_eq_none_iff.mpr (List.find?_eq_none.mpr (by simpa using hpending))
        rw [Job.finishedAt_observed, Job.firstTime?_append, hnone]
        rfl
      · rw [Job.permanent_iff, List.pairwise_append]
        refine ⟨List.pairwise_of_forall_mem_list fun r hr _ _ hterminal => ?_,
          List.pairwise_singleton _ _, fun r hr _ _ hterminal => ?_⟩
        all_goals
          rw [hpending r hr] at hterminal
          cases hterminal

end Dispatcher

end CircuitBroker
