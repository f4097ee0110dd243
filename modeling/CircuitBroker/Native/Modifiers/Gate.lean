/-
  CircuitBroker/Native/Modifiers/Gate.lean
  ========================================
  **The gates of modifier programs.**

  A gate has a name of its own, is another gate under a `ctrl` modifier, or is given by its
  matrix.  `lowered` gives the matrix on the last qubits of a gate and the number of
  controls before them, which `lowered?` adds up as words; `library?` gives the matrix gate
  of a kind without a name.
-/
import CircuitBroker.GateMatrix.Custom
import CircuitBroker.GateMatrix.Standard
import CircuitBroker.Gate

namespace CircuitBroker

inductive ModifierGate (R : Type) where
  | i | x | y | z | h | s | si | t | ti | v | vi
  | rx (angle : R) | ry (angle : R) | rz (angle : R)
  | phaseShift (angle : R)
  | cnot | cy | cz
  | cphaseShift (angle : R)
  | swap | iswap
  | xx (angle : R) | yy (angle : R) | zz (angle : R)
  | ccnot | cswap
  | ctrl (controls : Nat) (base : ModifierGate R)
  | unitary (gate : CustomGate R)

namespace ModifierGate

variable {R : Type}

/-- The name of a gate, for a controlled gate that of its base. -/
def name : ModifierGate R → String
  | i => "i"
  | x => "x"
  | y => "y"
  | z => "z"
  | h => "h"
  | s => "s"
  | si => "si"
  | t => "t"
  | ti => "ti"
  | v => "v"
  | vi => "vi"
  | rx _ => "rx"
  | ry _ => "ry"
  | rz _ => "rz"
  | phaseShift _ => "phaseshift"
  | cnot => "cnot"
  | cy => "cy"
  | cz => "cz"
  | cphaseShift _ => "cphaseshift"
  | swap => "swap"
  | iswap => "iswap"
  | xx _ => "xx"
  | yy _ => "yy"
  | zz _ => "zz"
  | ccnot => "ccnot"
  | cswap => "cswap"
  | ctrl _ base => base.name
  | unitary _ => "unitary"

def angle? : ModifierGate R → Option R
  | rx a | ry a | rz a | phaseShift a | cphaseShift a | xx a | yy a | zz a => some a
  | _ => none

section Lowered

variable [Zero R] [One R] [Add R] [Sub R] [Neg R] [Mul R] [Elementary R]

open GateMatrix

/-- What a gate does: a matrix on its last qubits, under so many controls before them. -/
def lowered : ModifierGate R → GateMatrix (Amplitude R) × Nat
  | i => (Standard.id, 0)
  | x => (Standard.x, 0)
  | y => (Standard.y, 0)
  | z => (Standard.z, 0)
  | h => (Standard.h, 0)
  | s => (Standard.s, 0)
  | si => (Standard.sdg, 0)
  | t => (Standard.t, 0)
  | ti => (Standard.tdg, 0)
  | v => (Standard.sx, 0)
  | vi => (Standard.sxdg, 0)
  | rx a => (Standard.rx a, 0)
  | ry a => (Standard.ry a, 0)
  | rz a => (Standard.rz a, 0)
  | phaseShift a => (Standard.p a, 0)
  | cnot => (Standard.x, 1)
  | cy => (Standard.y, 1)
  | cz => (Standard.z, 1)
  | cphaseShift a => (Standard.p a, 1)
  | swap => (Standard.swap, 0)
  | iswap => (Standard.iswap, 0)
  | xx a => (Standard.rxx a, 0)
  | yy a => (Standard.ryy a, 0)
  | zz a => (Standard.rzz a, 0)
  | ccnot => (Standard.x, 2)
  | cswap => (Standard.swap, 1)
  | ctrl n base =>
    let (matrix, inner) := base.lowered
    (matrix, inner + n)
  | unitary g => (g.matrix, 0)

/-- What a gate does, its controls counted in words.  What a modifier adds is a word already. -/
def lowered? [Build] : ModifierGate R → Except MachineFault (GateMatrix (Amplitude R) × Nat)
  | ctrl n base => do
    let (matrix, inner) ← base.lowered?
    return (matrix, ← if inner = 0 then .ok n else Word.add inner n)
  | g => .ok g.lowered

/-- The matrix gate of a kind, labelled by its own name; a missing angle counts as zero. -/
def library? [BEq R] [Magnitude R] (kind : Gate) (angles : List R) :
    Except (Failure R) (Option (CustomGate R)) :=
  let a (i : Nat) : R := angles.getD i 0
  let entry (name : String) (arity : Nat) (matrix : GateMatrix (Amplitude R)) :
      Except (Failure R) (Option (CustomGate R)) :=
    (CustomGate.withIndexedLabels name arity matrix).map some
  match kind with
  | .u2 => entry "u2" 1 (Standard.u2 (a 0) (a 1))
  | .r => entry "r" 1 (Standard.r (a 0) (a 1))
  | .u => entry "u" 1 (Standard.u (a 0) (a 1) (a 2))
  | .u3 => entry "u3" 1 (Standard.u (a 0) (a 1) (a 2))
  | .dcx => entry "dcx" 2 Standard.dcx
  | .rzx => entry "rzx" 2 (Standard.rzx (a 0))
  | .cu3 => entry "cu3" 2 ((Standard.u (a 0) (a 1) (a 2)).controlled 1)
  | .cu => entry "cu" 2 (Standard.cu (a 0) (a 1) (a 2) (a 3))
  | .rccx => entry "rccx" 3 Standard.rccx
  | .rc3x => entry "rc3x" 4 Standard.rc3x
  | _ => .ok none

end Lowered

/-! ### Text -/

def callText (g : ModifierGate Float) : String :=
  match g.angle? with
  | some a => g.name ++ "(" ++ Decimal.text .plain a ++ ")"
  | none => g.name

def matrixText (m : GateMatrix (Amplitude Float)) : String :=
  let entry (c : Amplitude Float) : String :=
    Decimal.text .plain c.re ++ Decimal.signed c.im (Decimal.text .plain c.im) ++ "im"
  let row (r : List (Amplitude Float)) : String := "[" ++ ", ".intercalate (r.map entry) ++ "]"
  "[" ++ ", ".intercalate (m.rows.map row) ++ "]"

def statementText (g : ModifierGate Float) (qubits : List Nat) : String :=
  let operands := ", ".intercalate (qubits.map fun q => "q[" ++ toString q ++ "]")
  match g with
  | unitary u => "#pragma braket unitary(" ++ matrixText u.matrix ++ ") " ++ operands
  | ctrl n base =>
    (if n = 1 then "ctrl @ " else "ctrl(" ++ toString n ++ ") @ ") ++ base.callText ++ " " ++
      operands ++ ";"
  | g => g.callText ++ " " ++ operands ++ ";"

end ModifierGate

end CircuitBroker
