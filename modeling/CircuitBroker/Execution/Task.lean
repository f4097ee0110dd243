/-
  CircuitBroker/Execution/Task.lean
  =================================
  **Tasks of remote services.**

  A payload is what a service is given to run.  A service is four calls on it; each answers
  and leaves behind a world of some type `σ`, which holds whatever the calls depend on and
  change.
-/
import CircuitBroker.Counts
import CircuitBroker.Execution.Job
import CircuitBroker.Failure

namespace CircuitBroker

inductive TaskProgram where
  | openQasm3 (text : String)
  | json (value : Json)
  deriving Inhabited

structure TaskPayload where
  target : String
  shots : Nat
  program : TaskProgram
  numQubits : Nat
  measured : List Nat
  deriving Inhabited

abbrev ExecutionFailure := Failure Float

/-- A call that may fail and changes the world. -/
abbrev Call (σ α : Type) := σ → Except ExecutionFailure α × σ

structure TaskService (σ : Type) where
  /-- Submits a payload and gives the task's identifier. -/
  create : TaskPayload → Call σ String
  status : String → Call σ JobStatus
  /-- The counts of a task that was submitted with a payload. -/
  result : String → TaskPayload → Call σ Counts
  cancel : String → Call σ Unit

end CircuitBroker
