/-
  CircuitBroker/Gate/Param.lean
  =============================
  **Parameters of operations.**

  An operation carries angles, a count of its controls, a flag or a mode; which of
  them, and in which order, its gate's `Signature` says.
-/
import CircuitBroker.Gate
import CircuitBroker.Text.Decimal

namespace CircuitBroker

inductive Param (R : Type) where
  | angle (value : R)
  | count (n : Nat)
  | flag (b : Bool)
  | mode (m : ControlMode)
  deriving DecidableEq, Inhabited

namespace Param

variable {R : Type}

def kind : Param R → ParamKind
  | .angle _ => .angle
  | .count _ => .count
  | .flag _ => .flag
  | .mode _ => .mode

def angle? : Param R → Option R
  | .angle a => some a
  | _ => none

def mode? : Param R → Option ControlMode
  | .mode m => some m
  | _ => none

def text : Param Float → String
  | .angle a => Decimal.text .plain a
  | .count n => toString n
  | .flag b => if b then "true" else "false"
  | .mode m => m.name

def title : Param Float → String
  | .angle a => "Angle(" ++ Decimal.text .literal a ++ ")"
  | .count n => "Count(" ++ toString n ++ ")"
  | .flag b => "Flag(" ++ (if b then "true" else "false") ++ ")"
  | .mode m => "Mode(" ++ m.title ++ ")"

end Param

end CircuitBroker
