/-
  CircuitBroker/Native/Moments/Translation.lean
  =============================================
  **Moment circuits of recorded circuits.**

  Every operation becomes one gate, except that measuring everything is one gate on all
  qubits.  Only decompositions that need ancillas have no form; an error names the backend
  the circuit is meant for.
-/
import CircuitBroker.Native.Moments
import CircuitBroker.Native.Moments.Library

namespace CircuitBroker.MomentCircuit

variable {R : Type} [Zero R] [One R] [Add R] [Sub R] [Neg R] [Mul R] [BEq R] [Elementary R]
  [Magnitude R] [AngleLabel R]

def libraryGate (backend : Backend) (kind : Gate) (angles : List R) :
    Except (Failure R) (CustomGate R) := do
  match ← MomentGate.library? kind angles with
  | some gate => return gate
  | none => throw (.untranslatable kind backend .noNativeGate)

def controlsAndTarget (op : Operation R) : List Nat := op.controls ++ op.target?.toList

def appendOperation (backend : Backend) (out : MomentCircuit R) (op : Operation R) :
    Except (Failure R) (MomentCircuit R) := do
  let plain (gate : MomentGate R) : Except (Failure R) (MomentCircuit R) :=
    .ok (out.append gate op.qubits)
  let rotation (gate : R → MomentGate R) : Except (Failure R) (MomentCircuit R) :=
    match op.angles with
    | a :: _ => plain (gate a)
    | [] => .error (.machine .indexOutOfRange)
  let controlledX : Except (Failure R) (MomentCircuit R) :=
    .ok (out.append (.controlledX op.controls.length) (controlsAndTarget op))
  let needsAncillas (mode : ControlMode) : Except (Failure R) (MomentCircuit R) :=
    .error (.untranslatable op.gate backend (.needsAncillas mode))
  match op.gate with
  | .measure =>
    return op.qubits.foldl (fun out q => out.append (.measure ("q(" ++ toString q ++ ")")) [q]) out
  | .measureAll => return out.append (.measure "result") (List.range out.numQubits)
  | .i => plain .i
  | .x => plain .x
  | .y => plain .y
  | .z => plain .z
  | .h => plain .h
  | .s => plain .s
  | .t => plain .t
  | .rx => rotation .rx
  | .ry => rotation .ry
  | .rz => rotation .rz
  | .cx => plain .cnot
  | .cz => plain .cz
  | .swap => plain .swap
  | .iswap => plain .iswap
  | .ccx => plain .ccx
  | .cswap => plain .cswap
  | .c3x => plain (.controlledX 3)
  | .c4x => plain (.controlledX 4)
  | .mcx | .mct => if op.mode.usesAncillas then needsAncillas op.mode else controlledX
  | .mcxvchain => needsAncillas .vChain
  | .mcxgc | .mcxrec => controlledX
  | .mcp =>
    let base ← libraryGate backend op.gate op.angles
    return out.append (.controlledMatrix base op.controls.length) (controlsAndTarget op)
  | kind =>
    let gate ← libraryGate backend kind op.angles
    plain (.matrix gate)

def ofCircuit (backend : Backend) (c : Circuit R) : Except (Failure R) (MomentCircuit R) :=
  c.operations.foldlM (appendOperation backend) (.empty c.numQubits)

end CircuitBroker.MomentCircuit
