/-
  CircuitBroker/Native/Modifiers.lean
  ===================================
  **Modifier programs: gates first, measurements last.**

  A modifier program keeps its gates in order and the set of its measured qubits beside
  them; all measurements come after all gates.  A program that measures nothing measures
  every qubit.
-/
import CircuitBroker.Native.Modifiers.Gate
import CircuitBroker.Simulation.LoweredCircuit

namespace CircuitBroker

variable {R : Type}

/-- A number of qubits, gates on them, and the measured qubits, ascending. -/
structure ModifierProgram (R : Type) where
  numQubits : Nat
  gates : List (ModifierGate R × List Nat)
  measured : List Nat

namespace ModifierProgram

def empty (numQubits : Nat) : ModifierProgram R := ⟨numQubits, [], []⟩

def push (p : ModifierProgram R) (gate : ModifierGate R) (qubits : List Nat) : ModifierProgram R :=
  { p with gates := p.gates ++ [(gate, qubits)] }

/-- A qubit put into its place among ascending ones, unless it is there. -/
def insertQubit (q : Nat) : List Nat → List Nat
  | [] => [q]
  | r :: rs => if q < r then q :: r :: rs else if q = r then r :: rs else r :: insertQubit q rs

def measure (p : ModifierProgram R) (qubit : Nat) : ModifierProgram R :=
  { p with measured := insertQubit qubit p.measured }

/-- The measured qubits; every qubit when nothing is measured. -/
def measuredQubits (p : ModifierProgram R) : List Nat :=
  if p.measured.isEmpty then List.range p.numQubits else p.measured

/-! ### From circuits -/

section Circuit

variable [Zero R] [One R] [Add R] [Sub R] [Neg R] [Mul R] [BEq R] [Elementary R] [Magnitude R]

def pushOperation (out : ModifierProgram R) (op : Operation R) :
    Except (Failure R) (ModifierProgram R) := do
  let plain (gate : ModifierGate R) : Except (Failure R) (ModifierProgram R) :=
    .ok (out.push gate op.qubits)
  let rotation (gate : R → ModifierGate R) : Except (Failure R) (ModifierProgram R) :=
    match op.angles with
    | a :: _ => plain (gate a)
    | [] => .error (.machine .indexOutOfRange)
  let controlsAndTarget := op.controls ++ op.target?.toList
  let controlledX : Except (Failure R) (ModifierProgram R) :=
    .ok (out.push (.ctrl op.controls.length .x) controlsAndTarget)
  let needsAncillas (mode : ControlMode) : Except (Failure R) (ModifierProgram R) :=
    .error (.untranslatable op.gate .braket (.needsAncillas mode))
  match op.gate with
  | .measure => return op.qubits.foldl measure out
  | .measureAll => return (List.range out.numQubits).foldl measure out
  | .i => plain .i
  | .x => plain .x
  | .y => plain .y
  | .z => plain .z
  | .h => plain .h
  | .s => plain .s
  | .sdg => plain .si
  | .t => plain .t
  | .td => plain .ti
  | .sx => plain .v
  | .sxd => plain .vi
  | .rx => rotation .rx
  | .ry => rotation .ry
  | .rz => rotation .rz
  | .p | .u1 => rotation .phaseShift
  | .cx => plain .cnot
  | .cy => plain .cy
  | .cz => plain .cz
  | .ch => plain (.ctrl 1 .h)
  | .csx => plain (.ctrl 1 .v)
  | .swap => plain .swap
  | .iswap => plain .iswap
  | .rxx => rotation .xx
  | .ryy => rotation .yy
  | .rzz => rotation .zz
  | .cphase | .cu1 => rotation .cphaseShift
  | .crx => rotation fun a => .ctrl 1 (.rx a)
  | .cry => rotation fun a => .ctrl 1 (.ry a)
  | .crz => rotation fun a => .ctrl 1 (.rz a)
  | .ccx => plain .ccnot
  | .cswap => plain .cswap
  | .c3x => plain (.ctrl 3 .x)
  | .c3sx => plain (.ctrl 3 .v)
  | .c4x => plain (.ctrl 4 .x)
  | .mcx | .mct => if op.mode.usesAncillas then needsAncillas op.mode else controlledX
  | .mcxvchain => needsAncillas .vChain
  | .mcxgc | .mcxrec => controlledX
  | .mcp =>
    match op.angles with
    | a :: _ => return out.push (.ctrl op.controls.length (.phaseShift a)) controlsAndTarget
    | [] => throw (.machine .indexOutOfRange)
  | kind =>
    match ← ModifierGate.library? kind op.angles with
    | some gate => plain (.unitary gate)
    | none => throw (.untranslatable kind .braket .noNativeGate)

def ofCircuit (c : Circuit R) : Except (Failure R) (ModifierProgram R) :=
  c.operations.foldlM pushOperation (.empty c.numQubits)

/-- The program as matrices on qubits, measurements last. -/
def lower (p : ModifierProgram R) : Except (Failure R) (LoweredCircuit (Amplitude R)) := do
  let out ← p.gates.foldlM
    (fun out (gate, qubits) => do
      let (matrix, controls) ← gate.lowered?.mapError Failure.machine
      LoweredCircuit.controlled out matrix (qubits.take controls) (qubits.drop controls))
    (.empty p.numQubits)
  return p.measuredQubits.foldl LoweredCircuit.measure out

end Circuit

/-! ### Text -/

def text (p : ModifierProgram Float) : String :=
  let measured := p.measuredQubits
  let measurement (entry : Nat × Nat) : String :=
    "b[" ++ toString entry.2 ++ "] = measure q[" ++ toString entry.1 ++ "];\n"
  "OPENQASM 3.0;\nbit[" ++ toString measured.length ++ "] b;\nqubit[" ++ toString p.numQubits ++
    "] q;\n" ++
    String.join (p.gates.map fun (gate, qubits) => gate.statementText qubits ++ "\n") ++
    String.join (measured.zipIdx.map measurement)

end ModifierProgram

end CircuitBroker
