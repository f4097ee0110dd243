/-
  CircuitBroker/Native/Assembly.lean
  ==================================
  **Assembly programs: one instruction after the other.**

  `Assembly.ofCircuit` writes every operation of a circuit as one instruction, measuring
  everything as a barrier and one measurement per qubit.  The instruction of a
  multi-controlled gate lists its controls before its target and keeps its ancillas apart.
-/
import CircuitBroker.Native.Assembly.Gate
import CircuitBroker.Simulation.LoweredCircuit

namespace CircuitBroker

variable {R : Type}

/-- An instruction.  A measurement writes the classical bit of the same number. -/
inductive AssemblyInstruction (R : Type) where
  | gate (gate : AssemblyGate R) (qubits ancillas : List Nat)
  | barrier (qubits : List Nat)
  | measure (qubit : Nat)
  deriving DecidableEq, Inhabited

/-- A number of qubits, as many classical bits, and instructions on them. -/
structure Assembly (R : Type) where
  numQubits : Nat
  instructions : List (AssemblyInstruction R)
  deriving DecidableEq, Inhabited

def AssemblyInstruction.measured? : AssemblyInstruction R → Option Nat
  | .measure q => some q
  | _ => none

namespace Assembly

def measuredQubits (c : Assembly R) : List Nat :=
  ascending (c.instructions.filterMap AssemblyInstruction.measured?)

/-! ### From circuits -/

def decomposition : ControlMode → Decomposition
  | .noAncilla => .plain
  | .recursion => .recursive
  | .vChain => .vChain false
  | .vChainDirty => .vChain true

/-- The gate of a kind that has a fixed number of qubits, with its angles; `none` for other
    kinds, and when angles are missing. -/
def fixedGate? : Gate → List R → Option (AssemblyGate R)
  | .i, _ => some .id
  | .x, _ => some .x
  | .y, _ => some .y
  | .z, _ => some .z
  | .h, _ => some .h
  | .s, _ => some .s
  | .sdg, _ => some .sdg
  | .t, _ => some .t
  | .td, _ => some .tdg
  | .sx, _ => some .sx
  | .sxd, _ => some .sxdg
  | .rx, a :: _ => some (.rx a)
  | .ry, a :: _ => some (.ry a)
  | .rz, a :: _ => some (.rz a)
  | .p, a :: _ => some (.p a)
  | .u1, a :: _ => some (.u1 a)
  | .u2, a :: b :: _ => some (.u2 a b)
  | .r, a :: b :: _ => some (.r a b)
  | .u, a :: b :: c :: _ => some (.u a b c)
  | .u3, a :: b :: c :: _ => some (.u3 a b c)
  | .cx, _ => some .cx
  | .cy, _ => some .cy
  | .cz, _ => some .cz
  | .ch, _ => some .ch
  | .csx, _ => some .csx
  | .swap, _ => some .swap
  | .iswap, _ => some .iswap
  | .dcx, _ => some .dcx
  | .rxx, a :: _ => some (.rxx a)
  | .ryy, a :: _ => some (.ryy a)
  | .rzz, a :: _ => some (.rzz a)
  | .rzx, a :: _ => some (.rzx a)
  | .cphase, a :: _ => some (.cp a)
  | .cu1, a :: _ => some (.cu1 a)
  | .crx, a :: _ => some (.crx a)
  | .cry, a :: _ => some (.cry a)
  | .crz, a :: _ => some (.crz a)
  | .cu3, a :: b :: c :: _ => some (.cu3 a b c)
  | .cu, a :: b :: c :: d :: _ => some (.cu a b c d)
  | .ccx, _ => some .ccx
  | .cswap, _ => some .cswap
  | .rccx, _ => some .rccx
  | .c3x, _ => some .c3x
  | .c3sx, _ => some .c3sx
  | .rc3x, _ => some .rc3x
  | .c4x, _ => some .c4x
  | _, _ => none

def mcx (op : Operation R) (decomposition : Decomposition) : AssemblyInstruction R :=
  .gate (.mcx op.controls.length decomposition) (op.controls ++ op.target?.toList) op.ancillas

def ofOperation (numQubits : Nat) (op : Operation R) :
    Except (Failure R) (List (AssemblyInstruction R)) :=
  match op.gate with
  | .measure => .ok (op.qubits.map .measure)
  | .measureAll =>
    let all := List.range numQubits
    .ok (.barrier all :: all.map .measure)
  | .mcx | .mct => .ok [mcx op (decomposition op.mode)]
  | .mcxgc => .ok [mcx op .grayCode]
  | .mcxrec => .ok [mcx op .recursive]
  | .mcxvchain => .ok [mcx op (.vChain op.flag)]
  | .mcp =>
    match op.angles with
    | a :: _ => .ok [.gate (.mcphase a op.controls.length) (op.groups.take 2).flatten []]
    | [] => .error (.machine .indexOutOfRange)
  | kind =>
    match fixedGate? kind op.angles with
    | some gate => .ok [.gate gate op.qubits []]
    | none => .error (.machine .indexOutOfRange)

def ofCircuit (c : Circuit R) : Except (Failure R) (Assembly R) := do
  let parts ← c.operations.mapM (ofOperation c.numQubits)
  return ⟨c.numQubits, parts.flatten⟩

/-! ### Lowering -/

section Lower

variable [Zero R] [One R] [Add R] [Sub R] [Neg R] [Mul R] [Elementary R]

/-- Adds what an instruction does to a lowered circuit; a barrier does nothing, and
    ancillas take no part. -/
def lowerInstruction (out : LoweredCircuit (Amplitude R)) :
    AssemblyInstruction R → Except (Failure R) (LoweredCircuit (Amplitude R))
  | .gate g qubits _ =>
    let (matrix, controls) := g.lowered
    out.controlled matrix (qubits.take controls) (qubits.drop controls)
  | .barrier _ => .ok out
  | .measure q => .ok (out.measure q)

def lower (c : Assembly R) : Except (Failure R) (LoweredCircuit (Amplitude R)) :=
  c.instructions.foldlM lowerInstruction (.empty c.numQubits)

end Lower

end Assembly

end CircuitBroker
