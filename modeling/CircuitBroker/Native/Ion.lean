/-
  CircuitBroker/Native/Ion.lean
  =============================
  **Circuits for the trapped-ion service.**

  An ion circuit is a moment circuit of native gates.  The service takes it as a document:
  a list of gates, each with its target or targets, its control or controls, and its angle.
  Identities and measurements are not part of the document; the service measures every
  qubit at the end.
-/
import CircuitBroker.Native.Moments.Translation
import CircuitBroker.Json

namespace CircuitBroker

variable {R : Type}

/-- A moment circuit that the service can run. -/
structure IonCircuit (R : Type) where
  inner : MomentCircuit R

structure IonGate (R : Type) where
  gate : String
  target : Option Nat
  targets : Option (List Nat)
  control : Option Nat
  controls : Option (List Nat)
  rotation : Option R
  deriving DecidableEq

structure IonDocument (R : Type) where
  numQubits : Nat
  gates : List (IonGate R)

namespace IonGate

def single (gate : String) (qubits : List Nat) : IonGate R :=
  ⟨gate, qubits.head?, none, none, none, none⟩

def rotated (gate : String) (angle : R) (qubits : List Nat) : IonGate R :=
  ⟨gate, qubits.head?, none, none, none, some angle⟩

/-- A gate whose first qubits are controls. -/
def controlled (gate : String) (n : Nat) (qubits : List Nat) : IonGate R :=
  ⟨gate, (qubits.drop n).head?, none, none, some (qubits.take n), none⟩

/-- The gate of the document for a gate of a moment circuit: none for identities and
    measurements, an error for a gate that is not native. -/
def ofPlaced? (placed : PlacedGate R) : Except (Failure R) (Option (IonGate R)) :=
  let q := placed.qubits
  match placed.gate with
  | .i | .measure _ => .ok none
  | .x => .ok (some (single "x" q))
  | .y => .ok (some (single "y" q))
  | .z => .ok (some (single "z" q))
  | .h => .ok (some (single "h" q))
  | .s => .ok (some (single "s" q))
  | .t => .ok (some (single "t" q))
  | .rx a => .ok (some (rotated "rx" a q))
  | .ry a => .ok (some (rotated "ry" a q))
  | .rz a => .ok (some (rotated "rz" a q))
  | .cnot => .ok (some ⟨"cnot", q[1]?, none, q.head?, none, none⟩)
  | .cz => .ok (some (controlled "z" 1 q))
  | .ccx => .ok (some (controlled "x" 2 q))
  | .controlledX n => .ok (some (controlled "x" n q))
  | .swap => .ok (some ⟨"swap", none, some q, none, none, none⟩)
  | gate => .error (.malformedCircuit (.noIonForm gate.name))

def toJson (g : IonGate Float) : Json :=
  let field (name : String) (value : Option Json) : List (String × Json) :=
    (value.map fun v => (name, v)).toList
  let numbers (qubits : List Nat) : Json := .array (qubits.map .ofNat)
  .object (field "control" (g.control.map .ofNat) ++ field "controls" (g.controls.map numbers) ++
    [("gate", .string g.gate)] ++ field "rotation" (g.rotation.map .ofFloat) ++
    field "target" (g.target.map .ofNat) ++ field "targets" (g.targets.map numbers))

end IonGate

def IonDocument.toJson (d : IonDocument Float) : Json :=
  .object [("circuit", .array (d.gates.map IonGate.toJson)),
    ("format", .string "ionq.circuit.v0"), ("qubits", .ofNat d.numQubits)]

namespace IonCircuit

/-- The gate kinds the service knows. -/
def isNative : Gate → Bool
  | .i | .x | .y | .z | .h | .s | .t | .rx | .ry | .rz | .cx | .cz | .swap | .ccx | .c3x | .c4x
  | .mcx | .mct | .mcxgc | .mcxrec | .mcxvchain | .measure | .measureAll => true
  | _ => false

/-- The ion circuit of a circuit.  The first kind that is not native is reported before
    anything else. -/
def ofCircuit [Zero R] [One R] [Add R] [Sub R] [Neg R] [Mul R] [BEq R] [Elementary R]
    [Magnitude R] [AngleLabel R] (c : Circuit R) : Except (Failure R) (IonCircuit R) :=
  match c.operations.find? (!isNative ·.gate) with
  | some op => .error (.untranslatable op.gate .ionq .notIonNative)
  | none => (MomentCircuit.ofCircuit .ionq c).map IonCircuit.mk

/-- The measured qubits; every qubit when nothing is measured. -/
def measuredQubits (c : IonCircuit R) : List Nat :=
  match c.inner.measuredQubits with
  | [] => List.range c.inner.numQubits
  | measured => measured

def document (c : IonCircuit R) : Except (Failure R) (IonDocument R) := do
  let gates ← c.inner.allGates.mapM IonGate.ofPlaced?
  return ⟨c.inner.numQubits, gates.filterMap id⟩

def lower [Zero R] [One R] [Add R] [Sub R] [Neg R] [Mul R] [Elementary R] (c : IonCircuit R) :
    Except (Failure R) (LoweredCircuit (Amplitude R)) := c.inner.lower

end IonCircuit

end CircuitBroker
