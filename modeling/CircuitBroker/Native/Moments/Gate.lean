/-
  CircuitBroker/Native/Moments/Gate.lean
  ======================================
  **The gates of moment circuits.**

  A small set of gates has a form of its own; every other gate is a matrix with labels
  for its wires, plain or under further controls.  `wireSymbols` says what each wire of a
  gate shows in a diagram.
-/
import CircuitBroker.GateMatrix.Custom
import CircuitBroker.GateMatrix.Standard

namespace CircuitBroker

class AngleLabel (R : Type) where
  label : R → String

def Decimal.halfTurns (angle : Float) : String :=
  let turns := (angle / Elementary.pi * 1000.0).round / 1000.0
  if turns == 0.0 then "0" else Decimal.text .plain turns ++ "π"

instance : AngleLabel Float := ⟨Decimal.halfTurns⟩

inductive MomentGate (R : Type) where
  | i | x | y | z | h | s | t
  | rx (angle : R) | ry (angle : R) | rz (angle : R)
  | cnot | cz | swap | iswap | ccx | cswap
  | controlledX (controls : Nat)
  | matrix (gate : CustomGate R)
  | controlledMatrix (gate : CustomGate R) (controls : Nat)
  | measure (key : String)

namespace MomentGate

variable {R : Type}

def name : MomentGate R → String
  | i => "I"
  | x => "X"
  | y => "Y"
  | z => "Z"
  | h => "H"
  | s => "S"
  | t => "T"
  | rx _ => "Rx"
  | ry _ => "Ry"
  | rz _ => "Rz"
  | cnot => "CNOT"
  | cz => "CZ"
  | swap => "SWAP"
  | iswap => "ISWAP"
  | ccx => "CCX"
  | cswap => "CSWAP"
  | controlledX _ => "ControlledX"
  | matrix _ => "Matrix"
  | controlledMatrix .. => "ControlledMatrix"
  | measure _ => "Measure"

/-- The gate without a matrix that has a name; `angle`, `controls` and `key` are what it
    carries, if it carries such a thing. -/
def named? (name : String) (angle : R) (controls : Nat) (key : String) : Option (MomentGate R) :=
  [i, x, y, z, h, s, t, rx angle, ry angle, rz angle, cnot, cz, swap, iswap, ccx, cswap,
    controlledX controls, measure key].find? (·.name == name)

def isMeasurement : MomentGate R → Bool
  | measure _ => true
  | _ => false

/-- What the wires of a gate on `arity` qubits show, in the order of the qubits. -/
def wireSymbols [AngleLabel R] (arity : Nat) : MomentGate R → List String
  | i => ["I"]
  | x => ["X"]
  | y => ["Y"]
  | z => ["Z"]
  | h => ["H"]
  | s => ["S"]
  | t => ["T"]
  | rx a => ["Rx(" ++ AngleLabel.label a ++ ")"]
  | ry a => ["Ry(" ++ AngleLabel.label a ++ ")"]
  | rz a => ["Rz(" ++ AngleLabel.label a ++ ")"]
  | cnot => ["@", "X"]
  | cz => ["@", "@"]
  | swap => ["×", "×"]
  | iswap => ["iSwap", "iSwap"]
  | ccx => ["@", "@", "X"]
  | cswap => ["@", "×", "×"]
  | controlledX n => List.replicate n "@" ++ ["X"]
  | matrix g => g.labels
  | controlledMatrix g n => List.replicate n "@" ++ g.labels
  | measure key =>
    match arity with
    | 0 => []
    | n + 1 => ("M('" ++ key ++ "')") :: List.replicate n "M"

section Lowered

variable [Zero R] [One R] [Add R] [Sub R] [Neg R] [Mul R] [Elementary R]

open GateMatrix

/-- What a gate does: a matrix on its last qubits, under so many controls before them;
    nothing for a measurement. -/
def lowered? : MomentGate R → Option (GateMatrix (Amplitude R) × Nat)
  | i => some (Standard.id, 0)
  | x => some (Standard.x, 0)
  | y => some (Standard.y, 0)
  | z => some (Standard.z, 0)
  | h => some (Standard.h, 0)
  | s => some (Standard.s, 0)
  | t => some (Standard.t, 0)
  | rx a => some (Standard.rx a, 0)
  | ry a => some (Standard.ry a, 0)
  | rz a => some (Standard.rz a, 0)
  | swap => some (Standard.swap, 0)
  | iswap => some (Standard.iswap, 0)
  | matrix g => some (g.matrix, 0)
  | cnot => some (Standard.x, 1)
  | cz => some (Standard.z, 1)
  | ccx => some (Standard.x, 2)
  | cswap => some (Standard.swap, 1)
  | controlledX n => some (Standard.x, n)
  | controlledMatrix g n => some (g.matrix, n)
  | measure _ => none

end Lowered

end MomentGate

end CircuitBroker
