/-
  CircuitBroker/Native/Moments.lean
  =================================
  **Moment circuits: gates packed into time slices.**

  A moment holds gates that touch different qubits.  `MomentCircuit.append` puts a gate
  into the first moment after the last one that touches any of its qubits, opening a new
  moment if there is none; so two gates that share a qubit keep their order.
-/
import CircuitBroker.Native.Moments.Gate
import CircuitBroker.Simulation.LoweredCircuit

namespace CircuitBroker

variable {R : Type}

structure PlacedGate (R : Type) where
  gate : MomentGate R
  qubits : List Nat

/-- The gates of one time slice, in the order in which they were put there. -/
abbrev Moment (R : Type) := List (PlacedGate R)

def Moment.touches (m : Moment R) (qubits : List Nat) : Bool :=
  m.any fun placed => placed.qubits.any qubits.contains

structure MomentCircuit (R : Type) where
  numQubits : Nat
  moments : List (Moment R)

namespace MomentCircuit

def empty (numQubits : Nat) : MomentCircuit R := ⟨numQubits, []⟩

/-- The number of the moment after the last one that touches one of some qubits; zero if
    none does. -/
def earliest (qubits : List Nat) : List (Moment R) → Nat
  | [] => 0
  | m :: ms =>
    match earliest qubits ms with
    | 0 => if Moment.touches m qubits then 1 else 0
    | k + 1 => k + 2

/-- A gate put into the moment of a number; the moment after the last is opened for it. -/
def place (placed : PlacedGate R) : Nat → List (Moment R) → List (Moment R)
  | _, [] => [[placed]]
  | 0, m :: ms => (m ++ [placed]) :: ms
  | k + 1, m :: ms => m :: place placed k ms

/-- Adds a gate at the earliest moment that comes after every gate on its qubits. -/
def append (c : MomentCircuit R) (gate : MomentGate R) (qubits : List Nat) : MomentCircuit R :=
  { c with moments := place ⟨gate, qubits⟩ (earliest qubits c.moments) c.moments }

def allGates (c : MomentCircuit R) : List (PlacedGate R) := c.moments.flatten

def measuredQubits (c : MomentCircuit R) : List Nat :=
  ascending ((c.allGates.filter (·.gate.isMeasurement)).flatMap (·.qubits))

/-! ### Lowering -/

section Lower

variable [Zero R] [One R] [Add R] [Sub R] [Neg R] [Mul R] [Elementary R]

def lowerGate (out : LoweredCircuit (Amplitude R)) (placed : PlacedGate R) :
    Except (Failure R) (LoweredCircuit (Amplitude R)) :=
  match placed.gate.lowered? with
  | some (matrix, controls) =>
    out.controlled matrix (placed.qubits.take controls) (placed.qubits.drop controls)
  | none => .ok (placed.qubits.foldl LoweredCircuit.measure out)

def lower (c : MomentCircuit R) : Except (Failure R) (LoweredCircuit (Amplitude R)) :=
  c.allGates.foldlM lowerGate (.empty c.numQubits)

end Lower

end MomentCircuit

end CircuitBroker
