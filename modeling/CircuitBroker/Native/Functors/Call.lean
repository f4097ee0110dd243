/-
  CircuitBroker/Native/Functors/Call.lean
  =======================================
  **Calls of operations under functors.**

  A functor program calls intrinsic operations and a few operations it defines itself.
  The `Adjoint` functor inverts a call, the `Controlled` functor puts controls before it;
  both apply to any call.  A defined operation is a list of intrinsic calls on its own
  parameters.
-/
import CircuitBroker.GateMatrix.Standard

namespace CircuitBroker

inductive Intrinsic (R : Type) where
  | i | x | y | z | h | s | t
  | rx (angle : R) | ry (angle : R) | rz (angle : R) | r1 (angle : R)
  | rxx (angle : R) | ryy (angle : R) | rzz (angle : R)
  | swap
  deriving DecidableEq, Inhabited

/-- An operation a program defines when it needs it, in the order in which definitions are
    listed. -/
inductive DefinedOperation where
  | sx | iswap | dcx | rccx | rc3x
  deriving DecidableEq, Inhabited

inductive Callable (R : Type) where
  | intrinsic (gate : Intrinsic R)
  | defined (operation : DefinedOperation)
  deriving DecidableEq, Inhabited

/-- A call of a gate on targets, inverted or not, under controls. -/
structure FunctorCall (G : Type) where
  gate : G
  adjoint : Bool
  controls : List Nat
  targets : List Nat
  deriving DecidableEq, Inhabited

namespace FunctorCall

variable {G : Type}

def on (gate : G) (targets : List Nat) : FunctorCall G := ⟨gate, false, [], targets⟩

def inverse (c : FunctorCall G) : FunctorCall G := { c with adjoint := !c.adjoint }

/-- A call under further controls, which come before those it has. -/
def under (c : FunctorCall G) (controls : List Nat) : FunctorCall G :=
  { c with controls := controls ++ c.controls }

def mapGate {H : Type} (c : FunctorCall G) (f : G → H) : FunctorCall H :=
  ⟨f c.gate, c.adjoint, c.controls, c.targets⟩

end FunctorCall

namespace Intrinsic

variable {R : Type}

def name : Intrinsic R → String
  | i => "I"
  | x => "X"
  | y => "Y"
  | z => "Z"
  | h => "H"
  | s => "S"
  | t => "T"
  | rx _ => "Rx"
  | ry _ => "Ry"
  | rz _ => "Rz"
  | r1 _ => "R1"
  | rxx _ => "Rxx"
  | ryy _ => "Ryy"
  | rzz _ => "Rzz"
  | swap => "SWAP"

def angle? : Intrinsic R → Option R
  | rx a | ry a | rz a | r1 a | rxx a | ryy a | rzz a => some a
  | _ => none

def matrix [Zero R] [One R] [Add R] [Sub R] [Neg R] [Mul R] [Elementary R] :
    Intrinsic R → GateMatrix (Amplitude R)
  | i => GateMatrix.Standard.id
  | x => GateMatrix.Standard.x
  | y => GateMatrix.Standard.y
  | z => GateMatrix.Standard.z
  | h => GateMatrix.Standard.h
  | s => GateMatrix.Standard.s
  | t => GateMatrix.Standard.t
  | rx a => GateMatrix.Standard.rx a
  | ry a => GateMatrix.Standard.ry a
  | rz a => GateMatrix.Standard.rz a
  | r1 a => GateMatrix.Standard.p a
  | rxx a => GateMatrix.Standard.rxx a
  | ryy a => GateMatrix.Standard.ryy a
  | rzz a => GateMatrix.Standard.rzz a
  | swap => GateMatrix.Standard.swap

end Intrinsic

namespace DefinedOperation

def all : List DefinedOperation := [sx, iswap, dcx, rccx, rc3x]

def name : DefinedOperation → String
  | sx => "SX"
  | iswap => "ISWAP"
  | dcx => "DCX"
  | rccx => "RCCX"
  | rc3x => "RC3X"

def arity : DefinedOperation → Nat
  | sx => 1
  | iswap | dcx => 2
  | rccx => 3
  | rc3x => 4

/-- The calls a defined operation stands for, on its parameters by number. -/
def body {R : Type} (d : DefinedOperation) : List (FunctorCall (Intrinsic R)) :=
  let h (q : Nat) : FunctorCall (Intrinsic R) := .on .h [q]
  let s (q : Nat) : FunctorCall (Intrinsic R) := .on .s [q]
  let t (q : Nat) : FunctorCall (Intrinsic R) := .on .t [q]
  let tInverse (q : Nat) : FunctorCall (Intrinsic R) := (t q).inverse
  let cnot (c q : Nat) : FunctorCall (Intrinsic R) := (FunctorCall.on .x [q]).under [c]
  match d with
  | sx => [h 0, s 0, h 0]
  | iswap => [s 0, s 1, h 0, cnot 0 1, cnot 1 0, h 1]
  | dcx => [cnot 0 1, cnot 1 0]
  | rccx => [h 2, t 2, cnot 1 2, tInverse 2, cnot 0 2, t 2, cnot 1 2, tInverse 2, h 2]
  | rc3x =>
    [h 3, t 3, cnot 2 3, tInverse 3, h 3, cnot 0 3, t 3, cnot 1 3, tInverse 3, cnot 0 3, t 3,
     cnot 1 3, tInverse 3, h 3, t 3, cnot 2 3, tInverse 3, h 3]

end DefinedOperation

namespace Callable

variable {R : Type}

def name : Callable R → String
  | intrinsic g => g.name
  | defined d => d.name

def angle? : Callable R → Option R
  | intrinsic g => g.angle?
  | defined _ => none

def defined? : Callable R → Option DefinedOperation
  | intrinsic _ => none
  | defined d => some d

/-- What has a name and can be called; `angle` is what it turns by, if it turns. -/
def named? (name : String) (angle : R) : Option (Callable R) :=
  let intrinsics : List (Intrinsic R) :=
    [.i, .x, .y, .z, .h, .s, .t, .rx angle, .ry angle, .rz angle, .r1 angle, .rxx angle,
     .ryy angle, .rzz angle, .swap]
  (intrinsics.map intrinsic ++ DefinedOperation.all.map defined).find? (·.name == name)

/-- Whether this is the plain `X`, which has names of its own under one or two controls. -/
def isX : Callable R → Bool
  | intrinsic .x => true
  | _ => false

end Callable

def FunctorCall.text (c : FunctorCall (Callable Float)) (operand : Nat → String) : String :=
  let controls := c.controls.map operand
  let targets := c.targets.map operand
  let general : String :=
    let args := (c.gate.angle?.map (Decimal.text .literal)).toList ++ targets
    let call :=
      (if c.controls.isEmpty then "" else "Controlled ") ++
        (if c.adjoint then "Adjoint " else "") ++ c.gate.name
    if controls.isEmpty then call ++ "(" ++ ", ".intercalate args ++ ");"
    else
      let inner := match args with
        | [arg] => arg
        | _ => "(" ++ ", ".intercalate args ++ ")"
      call ++ "([" ++ ", ".intercalate controls ++ "], " ++ inner ++ ");"
  if c.adjoint || !c.gate.isX then general
  else
    match controls with
    | [control] => "CNOT(" ++ control ++ ", " ++ targets.headD "" ++ ");"
    | [first, second] =>
      "CCNOT(" ++ first ++ ", " ++ second ++ ", " ++ targets.headD "" ++ ");"
    | _ => general

end CircuitBroker
