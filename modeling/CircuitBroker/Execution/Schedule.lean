/-
  CircuitBroker/Execution/Schedule.lean
  =====================================
  **Several executions at once.**

  Executions that are asleep wake one after the other.  `settle` lets the clock go to the
  earliest time at which any of them wakes, resumes those that are due in their order, and
  goes on until all are over.  Each resumption brings an execution nearer to its deadline
  (`wake_of_resume`), so this ends.
-/
import CircuitBroker.Execution.Dispatch

namespace CircuitBroker

namespace Progress

variable {σ : Type}

/-- When an execution wakes, unless it is over. -/
def wake? : Progress σ → Option Instant
  | .asleep _ wake => some wake
  | .ended _ => none

def outcome? : Progress σ → Option (Except ExecutionFailure ExecutionResult)
  | .asleep .. => none
  | .ended outcome => some outcome

/-- The fault of the machine with which an execution is over. -/
def fault? : Progress σ → Option MachineFault
  | .ended (.error e) => e.machineFault?
  | _ => none

/-- A bound on the resumptions that are left. -/
def remaining : Progress σ → Nat
  | .asleep task wake => 1 + (task.deadline + 1 - wake)
  | .ended _ => 0

end Progress

namespace Dispatcher

variable {σ : Type} [Build]

def nextWake? (ps : List (Progress σ)) : Option Instant := (ps.filterMap Progress.wake?).min?

def resumeIfDue (now : Instant) (p : Progress σ) (world : σ) : Progress σ × σ :=
  match p with
  | .asleep task wake => if wake ≤ now then resume task now world else (p, world)
  | .ended _ => (p, world)

/-- Executions, those that are due resumed in their order.  A fault of the machine is the end
    of them all. -/
def resumeDue (now : Instant) :
    List (Progress σ) → σ → Except MachineFault (List (Progress σ)) × σ
  | [], world => (.ok [], world)
  | p :: ps, world =>
    let (p, world) := resumeIfDue now p world
    match p.fault? with
    | some fault => (.error fault, world)
    | none =>
      let (ps, world) := resumeDue now ps world
      (ps.map (p :: ·), world)

/-! ### Why it ends -/

theorem remaining_resumeIfDue_le (now : Instant) (p : Progress σ) (world : σ) :
    (resumeIfDue now p world).1.remaining ≤ p.remaining := by
  cases p with
  | ended outcome => exact Nat.le_refl _
  | asleep task wake =>
    by_cases hdue : wake ≤ now
    · simp only [resumeIfDue, if_pos hdue]
      match h : resume task now world with
      | (.ended _, _) => exact Nat.zero_le _
      | (.asleep task' wake', _) =>
        obtain ⟨_, hwake, hdeadline⟩ := wake_of_resume h
        simp only [Progress.remaining, hdeadline]
        exact Nat.add_le_add_left
          (Nat.sub_le_sub_left (Nat.le_of_lt (Nat.lt_of_le_of_lt hdue hwake)) _) _
    · simp only [resumeIfDue, if_neg hdue]
      exact Nat.le_refl _

theorem remaining_resumeIfDue_lt {now wake : Instant} {p : Progress σ} (world : σ)
    (h : p.wake? = some wake) (hdue : wake ≤ now) :
    (resumeIfDue now p world).1.remaining < p.remaining := by
  cases p with
  | ended outcome => simp [Progress.wake?] at h
  | asleep task wake =>
    simp only [Progress.wake?, Option.some.injEq] at h
    subst h
    simp only [resumeIfDue, if_pos hdue]
    match h : resume task now world with
    | (.ended _, _) =>
      simp only [Progress.remaining]
      exact Nat.lt_add_right _ Nat.one_pos
    | (.asleep task' wake', _) =>
      obtain ⟨hlate, hwake, hdeadline⟩ := wake_of_resume h
      simp only [Progress.remaining, hdeadline]
      refine Nat.add_lt_add_left (Nat.sub_lt_sub_left ?_ (Nat.lt_of_le_of_lt hdue hwake)) _
      exact Nat.lt_succ_of_le (Nat.le_of_lt (Nat.lt_of_le_of_lt hdue hlate))

def remaining (ps : List (Progress σ)) : Nat := ps.foldr (fun p n => p.remaining + n) 0

theorem exists_of_resumeDue_cons {now : Instant} {p : Progress σ} {ps ps' : List (Progress σ)}
    {world : σ} (h : (resumeDue now (p :: ps) world).1 = .ok ps') : ∃ rest,
      (resumeDue now ps (resumeIfDue now p world).2).1 = .ok rest ∧
        ps' = (resumeIfDue now p world).1 :: rest := by
  simp only [resumeDue] at h
  split at h
  · cases h
  · match hrest : (resumeDue now ps (resumeIfDue now p world).2).1 with
    | .error _ => simp [hrest, Except.map] at h
    | .ok rest => exact ⟨rest, rfl, by simpa [hrest, Except.map] using h.symm⟩

theorem remaining_resumeDue_le {now : Instant} {ps ps' : List (Progress σ)} {world : σ}
    (h : (resumeDue now ps world).1 = .ok ps') : remaining ps' ≤ remaining ps := by
  induction ps generalizing world ps' with
  | nil =>
    cases h
    exact Nat.le_refl _
  | cons p ps ih =>
    obtain ⟨rest, hrest, rfl⟩ := exists_of_resumeDue_cons h
    exact Nat.add_le_add (remaining_resumeIfDue_le now p world) (ih hrest)

theorem remaining_resumeDue_lt {now : Instant} {ps ps' : List (Progress σ)} {world : σ}
    (hdue : ∃ p ∈ ps, ∃ wake, p.wake? = some wake ∧ wake ≤ now)
    (h : (resumeDue now ps world).1 = .ok ps') : remaining ps' < remaining ps := by
  induction ps generalizing world ps' with
  | nil => simp at hdue
  | cons p ps ih =>
    obtain ⟨q, hq, wake, hwake, hsoon⟩ := hdue
    obtain ⟨rest, hrest, rfl⟩ := exists_of_resumeDue_cons h
    rcases List.mem_cons.1 hq with rfl | hmem
    · exact Nat.add_lt_add_of_lt_of_le (remaining_resumeIfDue_lt world hwake hsoon)
        (remaining_resumeDue_le hrest)
    · exact Nat.add_lt_add_of_le_of_lt (remaining_resumeIfDue_le now p world)
        (ih ⟨q, hmem, wake, hwake, hsoon⟩ hrest)

omit [Build] in
theorem exists_due_of_nextWake? {ps : List (Progress σ)} {now : Instant}
    (h : nextWake? ps = some now) : ∃ p ∈ ps, ∃ wake, p.wake? = some wake ∧ wake ≤ now := by
  have hmem : now ∈ ps.filterMap Progress.wake? := List.min?_mem h
  obtain ⟨p, hp, hwake⟩ := List.mem_filterMap.1 hmem
  exact ⟨p, hp, now, hwake, Nat.le_refl _⟩

/-! ### Until all are over -/

/-- The outcomes of executions, in their order, with the time at which all are known. -/
def settle (ps : List (Progress σ)) (now : Instant) (world : σ) :
    Except MachineFault (List (Except ExecutionFailure ExecutionResult)) × Instant × σ :=
  match h : nextWake? ps with
  | none => (.ok (ps.filterMap Progress.outcome?), now, world)
  | some wake =>
    match hround : resumeDue wake ps world with
    | (.error fault, world) => (.error fault, wake, world)
    | (.ok ps', world') =>
      have := remaining_resumeDue_lt (exists_due_of_nextWake? h) (congrArg Prod.fst hround)
      settle ps' wake world'
termination_by remaining ps

/-- Executions of native circuits as requests ask for, begun in their order.  A fault of the
    machine is the end of them all. -/
def beginAll (d : Dispatcher) (now : Instant) :
    List (Adapter σ × Native Float × ExecutionRequest) → σ →
      Except MachineFault (List (Progress σ)) × σ
  | [], world => (.ok [], world)
  | (adapter, native, request) :: rest, world =>
    let (p, world) := d.begin adapter native request now world
    match p.fault? with
    | some fault => (.error fault, world)
    | none =>
      let (ps, world) := beginAll d now rest world
      (ps.map (p :: ·), world)

end Dispatcher

end CircuitBroker
