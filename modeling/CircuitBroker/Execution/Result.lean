/-
  CircuitBroker/Execution/Result.lean
  ===================================
  **What an execution gives.**

  The counts of a number of shots, with the backend they come from, the time the execution
  took and, for a remote one, its job.
-/
import CircuitBroker.Counts
import CircuitBroker.GateMatrix
import CircuitBroker.Execution.Job
import CircuitBroker.Json.Field

namespace CircuitBroker

def Counts.ofJson? (j : Json) : Option Counts := do
  let entries ← j.entries? (Json.toNatBelow? wordSize)
  some (.ofPairs (entries.map fun (bits, n) => (bits, n.toUInt64)))

def Counts.pairsOfJson (j : Json) : List (String × UInt64) :=
  j.items.filterMap fun pair =>
    match pair.items with
    | [bits, n] => bits.toString?.map fun bits => (bits, n.nat.toUInt64)
    | _ => none

def Counts.ofJsonPairs (j : Json) : Counts := .ofPairs (pairsOfJson j)

structure ExecutionResult where
  counts : Counts
  shots : Nat
  backend : Option Backend
  elapsed : Option Duration
  job : Option Job
  deriving DecidableEq, Inhabited

namespace ExecutionResult

def new (counts : Counts) (shots : Nat) : ExecutionResult := ⟨counts, shots, none, none, none⟩

/-- The part of the shots that gave a bitstring; zero when there were no shots. -/
def probability (r : ExecutionResult) (bits : String) : Float :=
  if r.shots = 0 then 0 else (r.counts.get bits).toFloat / r.shots.toUInt64.toFloat

def toJson (r : ExecutionResult) : Json :=
  let field {α : Type} (name : String) (f : α → Json) (a : Option α) : List (String × Json) :=
    (a.map fun a => (name, f a)).toList
  .object ([("counts", .object (r.counts.sorted.map fun (bits, n) => (bits, .ofNat n.toNat))),
    ("shots", .ofNat r.shots)] ++ field "backend" (fun b : Backend => .string b.name) r.backend ++
    field "execution_time_ms" (fun d : Duration => .ofNat d.toMillis) r.elapsed ++
    field "job" Job.toJson r.job)

end ExecutionResult

end CircuitBroker
