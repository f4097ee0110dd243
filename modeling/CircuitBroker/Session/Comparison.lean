/-
  CircuitBroker/Session/Comparison.lean
  =====================================
  **One circuit on several backends.**

  A comparison holds an outcome for every execution, under the execution's key; a key that
  is taken gets a number.  What goes wrong for one execution is its outcome and touches no
  other, unless it is a fault of the machine: that leaves no comparison at all.  Executions
  that can be prepared run at the same time.
-/
import CircuitBroker.Session

namespace CircuitBroker

/-- The outcomes of several executions, in the order in which they became known. -/
structure Comparison where
  entries : List (String × Except ExecutionFailure ExecutionResult)

namespace Comparison

def empty : Comparison := ⟨[]⟩

/-- The names for a key: the key itself, then with a number from two on. -/
def candidate (key : String) : Nat → String
  | 0 => key
  | n + 1 => key ++ "#" ++ toString (n + 2)

/-- The first name for a key that is not taken.  There is one among as many candidates as
    there are taken names and one more. -/
def freeKey (taken : List String) (key : String) : String :=
  (((List.range (taken.length + 1)).map (candidate key)).find? (!taken.contains ·)).getD key

def insert (c : Comparison) (key : String) (outcome : Except ExecutionFailure ExecutionResult) :
    Comparison :=
  ⟨c.entries ++ [(freeKey (c.entries.map (·.1)) key, outcome)]⟩

def insertAll (c : Comparison)
    (outcomes : List (String × Except ExecutionFailure ExecutionResult)) : Comparison :=
  outcomes.foldl (fun c (key, outcome) => c.insert key outcome) c

def sorted (c : Comparison) : List (String × Except ExecutionFailure ExecutionResult) :=
  c.entries.mergeSort fun a b => decide (a.1 ≤ b.1)

def get? (c : Comparison) (key : String) : Option (Except ExecutionFailure ExecutionResult) :=
  (c.entries.find? (·.1 = key)).map (·.2)

def size (c : Comparison) : Nat := c.entries.length

def isEmpty (c : Comparison) : Bool := c.entries.isEmpty

def successes (c : Comparison) : List (String × ExecutionResult) :=
  c.sorted.filterMap fun (key, outcome) => outcome.toOption.map fun result => (key, result)

def failures (c : Comparison) : Nat := c.entries.countP fun e => e.2.toOption.isNone

def defaultExecutions : List ExecutionSettings := [.new .cirq, .new .qiskit, .new .braket]

end Comparison

namespace Session

variable {σ : Type}

/-- Executions prepared one after the other, each under its key. -/
def prepareAll : List ExecutionSettings → Session σ →
    List (String × Except ExecutionFailure (Adapter σ × Native Float × ExecutionRequest)) ×
      Session σ
  | [], s => ([], s)
  | e :: es, s =>
    let (prepared, s) := s.prepare e.request
    let (rest, s) := prepareAll es s
    ((e.key, prepared) :: rest, s)

def refusals {α : Type} (prepared : List (String × Except ExecutionFailure α)) :
    List (String × ExecutionFailure) :=
  prepared.filterMap fun (key, p) =>
    match p with
    | .error e => some (key, e)
    | .ok _ => none

def preparations {α : Type} (prepared : List (String × Except ExecutionFailure α)) :
    List (String × α) :=
  prepared.filterMap fun (key, p) => p.toOption.map fun p => (key, p)

/-- The outcomes of several executions, with the time at which all are known: first those
    that cannot be prepared, then the others, each in their order. -/
def compare (s : Session σ) (executions : List ExecutionSettings) (now : Instant) (world : σ) :
    Except MachineFault Comparison × Session σ × Instant × σ :=
  let (prepared, s) := prepareAll executions s
  let refused := refusals prepared
  let accepted := preparations prepared
  match refused.findSome? (·.2.machineFault?) with
  | some fault => (.error fault, s, now, world)
  | none =>
    match s.dispatcher.beginAll now (accepted.map (·.2)) world with
    | (.error fault, world) => (.error fault, s, now, world)
    | (.ok running, world) =>
      match Dispatcher.settle running now world with
      | (.error fault, now, world) => (.error fault, s, now, world)
      | (.ok outcomes, now, world) =>
        let comparison := Comparison.empty.insertAll (refused.map fun (key, e) => (key, .error e))
        (.ok (comparison.insertAll ((accepted.map (·.1)).zip outcomes)), s, now, world)

end Session

end CircuitBroker
