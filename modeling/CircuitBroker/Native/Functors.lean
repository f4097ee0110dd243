/-
  CircuitBroker/Native/Functors.lean
  ==================================
  **Functor programs: calls and measurements in order.**

  Gates without an intrinsic operation become sequences of calls: a general rotation is
  `R1`, `Ry`, `R1`, put under a control as a whole.  Lowering expands every call of a
  defined operation into intrinsic calls; an inverted one runs its body backwards, each
  step inverted, and controls of the call become controls of every step.
-/
import CircuitBroker.Native.Functors.Call
import CircuitBroker.Simulation.LoweredCircuit

namespace CircuitBroker

variable {R : Type}

inductive FunctorStatement (R : Type) where
  | call (call : FunctorCall (Callable R))
  | measure (qubit : Nat)
  deriving DecidableEq, Inhabited

structure FunctorProgram (R : Type) where
  numQubits : Nat
  statements : List (FunctorStatement R)
  deriving DecidableEq, Inhabited

namespace FunctorProgram

/-- The defined operations a program calls, in the order in which they are listed. -/
def definitions (p : FunctorProgram R) : List DefinedOperation :=
  let used := p.statements.filterMap fun
    | .call c => c.gate.defined?
    | .measure _ => none
  DefinedOperation.all.filter used.contains

/-! ### From circuits -/

section Circuit

variable [Sub R] [Elementary R]

def intrinsic (gate : Intrinsic R) (targets : List Nat) : FunctorCall (Callable R) :=
  .on (.intrinsic gate) targets

def rotationCalls (theta phi lambda : R) (target : Nat) (controls : List Nat) :
    List (FunctorCall (Callable R)) :=
  [.r1 lambda, .ry theta, .r1 phi].map fun gate => (intrinsic gate [target]).under controls

/-- The calls of an operation that is no measurement.  A missing qubit or angle is an index
    out of range. -/
def callsOf (op : Operation R) : Except (Failure R) (List (FunctorCall (Callable R))) :=
  let qs := op.qubits
  let quarter : R := Elementary.half Elementary.pi
  let plain (gate : Intrinsic R) := Except.ok [intrinsic gate qs]
  let defined (d : DefinedOperation) := Except.ok [FunctorCall.on (Callable.defined d) qs]
  let under (n : Nat) (gate : Callable R) : Except (Failure R) (List (FunctorCall (Callable R))) :=
    if n ≤ qs.length then .ok [(FunctorCall.on gate (qs.drop n)).under (qs.take n)]
    else .error (.machine .indexOutOfRange)
  let controlled (n : Nat) (gate : Intrinsic R) := under n (.intrinsic gate)
  let multiControlled (gate : Intrinsic R) : Except (Failure R) (List (FunctorCall (Callable R))) :=
    match op.target? with
    | some target => .ok [(intrinsic gate [target]).under op.controls]
    | none => .error (.malformedCircuit (.noTarget op.gate))
  let needsAncillas (mode : ControlMode) :=
    Except.error (.untranslatable op.gate .qsharp (.needsAncillas mode))
  match op.gate, op.angles, qs with
  | .i, _, _ => plain .i
  | .x, _, _ => plain .x
  | .y, _, _ => plain .y
  | .z, _, _ => plain .z
  | .h, _, _ => plain .h
  | .s, _, _ => plain .s
  | .sdg, _, _ => .ok [(intrinsic .s qs).inverse]
  | .t, _, _ => plain .t
  | .td, _, _ => .ok [(intrinsic .t qs).inverse]
  | .sx, _, _ => defined .sx
  | .sxd, _, _ => .ok [(FunctorCall.on (Callable.defined .sx) qs).inverse]
  | .rx, a :: _, _ => plain (.rx a)
  | .ry, a :: _, _ => plain (.ry a)
  | .rz, a :: _, _ => plain (.rz a)
  | .p, a :: _, _ | .u1, a :: _, _ => plain (.r1 a)
  | .u2, phi :: lambda :: _, q :: _ => .ok (rotationCalls quarter phi lambda q [])
  | .u, theta :: phi :: lambda :: _, q :: _ | .u3, theta :: phi :: lambda :: _, q :: _ =>
    .ok (rotationCalls theta phi lambda q [])
  | .r, theta :: phi :: _, q :: _ =>
    .ok (rotationCalls theta (phi - quarter) (quarter - phi) q [])
  | .cx, _, _ => controlled 1 .x
  | .cy, _, _ => controlled 1 .y
  | .cz, _, _ => controlled 1 .z
  | .ch, _, _ => controlled 1 .h
  | .csx, _, _ => under 1 (.defined .sx)
  | .swap, _, _ => plain .swap
  | .iswap, _, _ => defined .iswap
  | .dcx, _, _ => defined .dcx
  | .rxx, a :: _, _ => plain (.rxx a)
  | .ryy, a :: _, _ => plain (.ryy a)
  | .rzz, a :: _, _ => plain (.rzz a)
  | .rzx, a :: _, c :: t :: _ =>
    .ok [intrinsic .h [t], (intrinsic .x [t]).under [c], intrinsic (.rz a) [t],
      (intrinsic .x [t]).under [c], intrinsic .h [t]]
  | .cphase, a :: _, _ | .cu1, a :: _, _ => controlled 1 (.r1 a)
  | .crx, a :: _, _ => controlled 1 (.rx a)
  | .cry, a :: _, _ => controlled 1 (.ry a)
  | .crz, a :: _, _ => controlled 1 (.rz a)
  | .cu3, theta :: phi :: lambda :: _, c :: t :: _ => .ok (rotationCalls theta phi lambda t [c])
  | .cu, theta :: phi :: lambda :: gamma :: _, c :: t :: _ =>
    .ok (intrinsic (.r1 gamma) [c] :: rotationCalls theta phi lambda t [c])
  | .ccx, _, _ => controlled 2 .x
  | .cswap, _, _ => controlled 1 .swap
  | .rccx, _, _ => defined .rccx
  | .c3x, _, _ => controlled 3 .x
  | .c3sx, _, _ => under 3 (.defined .sx)
  | .rc3x, _, _ => defined .rc3x
  | .c4x, _, _ => controlled 4 .x
  | .mcx, _, _ | .mct, _, _ =>
    if op.mode.usesAncillas then needsAncillas op.mode else multiControlled .x
  | .mcxvchain, _, _ => needsAncillas .vChain
  | .mcxgc, _, _ | .mcxrec, _, _ => multiControlled .x
  | .mcp, a :: _, _ => multiControlled (.r1 a)
  | _, _, _ => .error (.machine .indexOutOfRange)

def ofOperation (numQubits : Nat) (op : Operation R) :
    Except (Failure R) (List (FunctorStatement R)) :=
  match op.gate with
  | .measure => .ok (op.qubits.map .measure)
  | .measureAll => .ok ((List.range numQubits).map .measure)
  | _ => (callsOf op).map (List.map .call)

def ofCircuit (c : Circuit R) : Except (Failure R) (FunctorProgram R) := do
  let parts ← c.operations.mapM (ofOperation c.numQubits)
  return ⟨c.numQubits, parts.flatten⟩

end Circuit

/-! ### Lowering -/

section Lower

variable [Zero R] [One R] [Add R] [Sub R] [Neg R] [Mul R] [Elementary R]

def lowerIntrinsic (out : LoweredCircuit (Amplitude R)) (c : FunctorCall (Intrinsic R)) :
    Except (Failure R) (LoweredCircuit (Amplitude R)) :=
  let matrix := if c.adjoint then c.gate.matrix.adjoint else c.gate.matrix
  out.controlled matrix c.controls c.targets

/-- A call of a body with its parameters replaced by the qubits of the caller. -/
def relocate (qubits : List Nat) (c : FunctorCall (Intrinsic R)) :
    Except (Failure R) (FunctorCall (Intrinsic R)) := do
  let qubit (parameter : Nat) : Except (Failure R) Nat :=
    match qubits[parameter]? with
    | some q => .ok q
    | none => .error (.machine .indexOutOfRange)
  let targets ← c.targets.mapM qubit
  let controls ← c.controls.mapM qubit
  return { c with controls, targets }

/-- The steps of a defined operation, or of its inverse. -/
def steps (d : DefinedOperation) (adjoint : Bool) : List (FunctorCall (Intrinsic R)) :=
  if adjoint then d.body.reverse.map FunctorCall.inverse else d.body

def lowerCall (out : LoweredCircuit (Amplitude R)) (c : FunctorCall (Callable R)) :
    Except (Failure R) (LoweredCircuit (Amplitude R)) :=
  match c.gate with
  | .intrinsic gate => lowerIntrinsic out (c.mapGate fun _ => gate)
  | .defined d =>
    (steps d c.adjoint).foldlM
      (fun out step => do
        let step ← relocate c.targets step
        lowerIntrinsic out (step.under c.controls))
      out

def lowerStatement (out : LoweredCircuit (Amplitude R)) :
    FunctorStatement R → Except (Failure R) (LoweredCircuit (Amplitude R))
  | .call c => lowerCall out c
  | .measure q => .ok (out.measure q)

def lower (p : FunctorProgram R) : Except (Failure R) (LoweredCircuit (Amplitude R)) :=
  p.statements.foldlM lowerStatement (.empty p.numQubits)

end Lower

/-! ### Text -/

def definitionText (d : DefinedOperation) : String :=
  let parameter (q : Nat) : String := "q" ++ toString q
  let line (c : FunctorCall (Intrinsic Float)) : String :=
    "        " ++ (c.mapGate Callable.intrinsic).text parameter ++ "\n"
  "    operation " ++ d.name ++ "(" ++
    ", ".intercalate ((List.range d.arity).map fun q => parameter q ++ " : Qubit") ++
    ") : Unit is Adj + Ctl \x7b\n" ++ String.join (d.body.map line) ++ "    \x7d\n\n"

def statementText (s : FunctorStatement Float) : String :=
  let operand (q : Nat) : String := "qs[" ++ toString q ++ "]"
  let statement := match s with
    | .call c => c.text operand
    | .measure q => "set results += [M(" ++ operand q ++ ")];"
  "        " ++ statement ++ "\n"

def text (p : FunctorProgram Float) : String :=
  "namespace Qcat \x7b\n    open Microsoft.Quantum.Intrinsic;\n" ++
    "    open Microsoft.Quantum.Canon;\n\n" ++ String.join (p.definitions.map definitionText) ++
    "    @EntryPoint()\n    operation Main() : Result[] \x7b\n        use qs = Qubit[" ++
    toString p.numQubits ++ "];\n        mutable results = [];\n" ++
    String.join (p.statements.map statementText) ++
    "        ResetAll(qs);\n        return results;\n    \x7d\n\x7d\n"

end FunctorProgram

end CircuitBroker
