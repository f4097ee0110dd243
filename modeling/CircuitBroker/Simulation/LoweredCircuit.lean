/-
  CircuitBroker/Simulation/LoweredCircuit.lean
  ============================================
  **Circuits as matrices on qubits.**

  Every backend's circuit is lowered to the same steps: a matrix on target qubits, under
  some controls, or a measurement of one qubit.
-/
import CircuitBroker.Failure
import CircuitBroker.Circuit

namespace CircuitBroker

variable {R K : Type}

inductive LoweredStep (K : Type) where
  | gate (matrix : GateMatrix K) (targets controls : List Nat)
  | measure (qubit : Nat)
  deriving Inhabited

def LoweredStep.measured? : LoweredStep K → Option Nat
  | .measure q => some q
  | .gate .. => none

structure LoweredCircuit (K : Type) where
  numQubits : Nat
  steps : List (LoweredStep K)
  deriving Inhabited

namespace LoweredCircuit

def empty (numQubits : Nat) : LoweredCircuit K := ⟨numQubits, []⟩

/-- Adds a matrix on targets, under controls.  The matrix must act on as many qubits as
    there are targets, and no qubit may lie outside the circuit; of several outside the
    first is named, controls before targets. -/
def controlled (c : LoweredCircuit K) (matrix : GateMatrix K) (controls targets : List Nat) :
    Except (Failure R) (LoweredCircuit K) :=
  if matrix.numQubits ≠ targets.length then
    .error (.malformedCircuit (.matrixOnTargets matrix.numQubits targets.length))
  else
    match (controls ++ targets).find? (c.numQubits ≤ ·) with
    | some q => .error (.malformedCircuit (.gateOutside q c.numQubits))
    | none => .ok { c with steps := c.steps ++ [.gate matrix targets controls] }

def gate (c : LoweredCircuit K) (matrix : GateMatrix K) (targets : List Nat) :
    Except (Failure R) (LoweredCircuit K) :=
  c.controlled matrix [] targets

def measure (c : LoweredCircuit K) (qubit : Nat) : LoweredCircuit K :=
  { c with steps := c.steps ++ [.measure qubit] }

def measuredQubits (c : LoweredCircuit K) : List Nat :=
  ascending (c.steps.filterMap LoweredStep.measured?)

def before (c : LoweredCircuit K) : List (LoweredStep K) :=
  c.steps.takeWhile (·.measured?.isNone)

def after (c : LoweredCircuit K) : List (LoweredStep K) :=
  c.steps.dropWhile (·.measured?.isNone)

/-- Whether a gate comes after a measurement, so that every shot goes through the steps and
    writes its outcomes down. -/
def replays (c : LoweredCircuit K) : Bool := !c.after.all (·.measured?.isSome)

/-- The steps some shots come to: without a shot, those before the first measurement. -/
def reached (c : LoweredCircuit K) (shots : Nat) : List (LoweredStep K) :=
  if shots = 0 then c.before else c.steps

end LoweredCircuit

end CircuitBroker
