/-
  CircuitBroker/Proofs/Native/Assembly/Reading.lean
  =================================================
  **How an OpenQASM 3 document is read.**

  `included?` are the gates of the included library and the built-in `U`, each with its number
  of operands and its reference matrix.  A gate the document defines is the list of gates in its
  body, put on the operands of the call; modifiers invert a gate or put it under controls.
  `Statement.WellFormed` says when a statement is one of the language, `Statement.Means` when it
  does what given steps do.
-/
import CircuitBroker.Native.Assembly.Qasm3
import CircuitBroker.Proofs.Simulation.Steps

namespace CircuitBroker

variable {R : Type}

namespace Qasm3

open Elementary (half pi)

section Read

variable [Zero R] [One R] [Add R] [Sub R] [Neg R] [Mul R] [Elementary R]

/-! ## 1. Gates -/

open GateMatrix in
/-- The included gates without angles: how many operands, and which matrix on them. -/
def plain? : String → Option (Nat × GateMatrix (Amplitude R))
  | "id" => some (1, Standard.id)
  | "x" => some (1, Standard.x)
  | "y" => some (1, Standard.y)
  | "z" => some (1, Standard.z)
  | "h" => some (1, Standard.h)
  | "s" => some (1, Standard.s)
  | "sdg" => some (1, Standard.sdg)
  | "t" => some (1, Standard.t)
  | "tdg" => some (1, Standard.tdg)
  | "sx" => some (1, Standard.sx)
  | "cx" => some (2, Standard.x.controlled 1)
  | "cy" => some (2, Standard.y.controlled 1)
  | "cz" => some (2, Standard.z.controlled 1)
  | "ch" => some (2, Standard.h.controlled 1)
  | "swap" => some (2, Standard.swap)
  | "ccx" => some (3, Standard.x.controlled 2)
  | "cswap" => some (3, Standard.swap.controlled 1)
  | _ => none

open GateMatrix in
def included? (name : String) : List R → Option (Nat × GateMatrix (Amplitude R))
  | [] => plain? name
  | [a] =>
    match name with
    | "p" | "u1" => some (1, Standard.p a)
    | "rx" => some (1, Standard.rx a)
    | "ry" => some (1, Standard.ry a)
    | "rz" => some (1, Standard.rz a)
    | "cp" => some (2, (Standard.p a).controlled 1)
    | "crx" => some (2, (Standard.rx a).controlled 1)
    | "cry" => some (2, (Standard.ry a).controlled 1)
    | "crz" => some (2, (Standard.rz a).controlled 1)
    | _ => none
  | [a, b] => if name = "u2" then some (1, Standard.u2 a b) else none
  | [a, b, c] => if name = "U" ∨ name = "u3" then some (1, Standard.u a b c) else none
  | [a, b, c, d] => if name = "cu" then some (2, Standard.cu a b c d) else none
  | _ => none

/-- A gate whose angles are given: how many operands, and which steps on them. -/
structure Reading (R : Type) where
  arity : Nat
  steps : List Nat → List (LoweredStep (Amplitude R))

def Reading.ofMatrix (gate : Nat × GateMatrix (Amplitude R)) : Reading R :=
  ⟨gate.1, fun qubits => [.gate gate.2 qubits []]⟩

/-! ## 2. Definitions -/

def Definition.numAngles (d : Definition) : Nat := if d.hasAngle then 1 else 0

def BodyAngle.value? (angles : List R) : BodyAngle → Option R
  | .theta => angles.head?
  | .halfPi => some (half pi)
  | .minusHalfPi => some (-half pi)

/-- The matrix a call in a body stands for.  Its gate is an included one with that many
    operands. -/
def BodyCall.matrix? (angles : List R) (c : BodyCall) : Option (GateMatrix (Amplitude R)) := do
  let given ← c.angle.toList.mapM (·.value? angles)
  let gate ← included? c.gate given
  if c.operands.length = gate.1 then some gate.2 else none

/-- A defined gate: the matrices of its body, on the operands of the call. -/
def Definition.read? (angles : List R) (d : Definition) : Option (Reading R) := do
  if angles.length = d.numAngles then
    let matrices ← d.body.mapM (·.matrix? angles)
    some ⟨d.arity, fun qubits => List.zipWith
      (fun m c => .gate m (c.operands.map (qubits.getD · 0)) []) matrices d.body⟩
  else none

/-- The gate of a name: an included one, or one that is defined exactly once. -/
def read? (definitions : List Definition) (name : String) (angles : List R) :
    Option (Reading R) :=
  match included? name angles with
  | some gate => some (.ofMatrix gate)
  | none =>
    match definitions.filter (·.name == name) with
    | [d] => d.read? angles
    | _ => none

/-! ## 3. Modifiers -/

def Modifier.numControls : Modifier → Nat
  | .inverse => 0
  | .control => 1
  | .controls n => n

/-- The inverse: the adjoints, in opposite order. -/
def Reading.inverse (r : Reading R) : Reading R where
  arity := r.arity
  steps qubits := ((r.steps qubits).map fun
    | .gate m targets controls => .gate m.adjoint targets controls
    | .measure q => .measure q).reverse

def Reading.under (n : Nat) (r : Reading R) : Reading R where
  arity := n + r.arity
  steps qubits := (r.steps (qubits.drop n)).map fun
    | .gate m targets controls => .gate m targets (qubits.take n ++ controls)
    | .measure q => .measure q

/-- A statement of the language.  The gate of a call is known, is under a positive number of
    controls if under any, and has as many operands as it and its controls take. -/
inductive Statement.WellFormed (d : Qasm3 R) : Statement R → Prop
  | call {modifiers : List Modifier} {gate : String} {angles : List R} {qubits : List Nat}
      {r : Reading R}
      (known : (∃ matrix, included? gate angles = some matrix) ∨
        ∃ defined, d.definitions.filter (·.name == gate) = [defined])
      (read : read? d.definitions gate angles = some r)
      (positive : .controls 0 ∉ modifiers)
      (length : qubits.length = (modifiers.map Modifier.numControls).sum + r.arity)
      (nodup : qubits.Nodup) (lt : ∀ q ∈ qubits, q < d.numQubits) :
      WellFormed d (.call modifiers gate angles qubits)
  | barrier {qubits : List Nat} (nodup : qubits.Nodup) (lt : ∀ q ∈ qubits, q < d.numQubits) :
      WellFormed d (.barrier qubits)
  | measure {bit qubit : Nat} (bit_lt : bit < d.numQubits) (qubit_lt : qubit < d.numQubits) :
      WellFormed d (.measure bit qubit)

/-- A definition on its own operands, with a body of included gates. -/
structure Definition.WellFormed (R : Type) [Zero R] [One R] [Add R] [Sub R] [Neg R] [Mul R]
    [Elementary R] (d : Definition) : Prop where
  read : ∀ angles : List R, angles.length = d.numAngles → ∃ r, d.read? angles = some r
  nodup : ∀ c ∈ d.body, c.operands.Nodup
  lt : ∀ c ∈ d.body, ∀ p ∈ c.operands, p < d.arity

/-- A document whose definitions and statements are well formed and whose definitions have new
    names, each its own. -/
structure WellFormed (d : Qasm3 R) : Prop where
  definitions : ∀ g ∈ d.definitions, g.WellFormed R
  once : (d.definitions.map Definition.name).Nodup
  new : ∀ g ∈ d.definitions, ∀ angles : List R, included? g.name angles = none
  statements : ∀ s ∈ d.statements, s.WellFormed d

end Read

end Qasm3

end CircuitBroker
