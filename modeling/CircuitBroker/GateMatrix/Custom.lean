/-
  CircuitBroker/GateMatrix/Custom.lean
  ====================================
  **Gates given by their matrix.**

  A custom gate is a name, a number of qubits, a matrix of the dimension that number
  asks for, and a label for each qubit.  `CustomGate.new` refuses a matrix that is
  measurably not unitary.
-/
import CircuitBroker.Failure

namespace CircuitBroker

variable {R : Type}

structure CustomGate (R : Type) where
  name : String
  arity : Nat
  matrix : GateMatrix (Amplitude R)
  labels : List String

namespace CustomGate

variable [Zero R] [One R] [Add R] [Sub R] [Neg R] [Mul R] [BEq R] [Magnitude R]

/-- A gate with the given labels.  The dimension is looked at first, then the labels, then
    the matrix itself. -/
def new [Build] (name : String) (arity : Nat) (matrix : GateMatrix (Amplitude R))
    (labels : List String) : Except (Failure R) (CustomGate R) :=
  match Word.bit arity with
  | .error fault => .error (.machine fault)
  | .ok dim =>
    if matrix.dim ≠ dim then
      .error (.circuit (.badMatrix name (.wrongArity matrix.dim arity)))
    else if labels.length ≠ arity then
      .error (.malformedCircuit (.wrongLabels name labels.length arity))
    else
      match matrix.excessDeviation? with
      | some deviation => .error (.circuit (.notUnitary name deviation))
      | none => .ok ⟨name, arity, matrix, labels⟩

/-- The labels of a gate that has none of its own: its name, numbered if it acts on several
    qubits. -/
def indexedLabels (name : String) (arity : Nat) : List String :=
  if arity = 1 then [name] else (List.range arity).map fun i => name ++ "_" ++ toString i

def withIndexedLabels [Build] (name : String) (arity : Nat) (matrix : GateMatrix (Amplitude R)) :
    Except (Failure R) (CustomGate R) :=
  new name arity matrix (indexedLabels name arity)

end CustomGate

end CircuitBroker
