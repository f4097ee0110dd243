/-
  CircuitBroker/GateMatrix/Standard.lean
  ======================================
  **The reference matrices.**

  One definition per gate; every backend's circuits are lowered to these.  Of several
  qubits the first is the most significant bit of a row or column number.  Angles come
  from any scalars with the functions of `Elementary`.
-/
import CircuitBroker.GateMatrix

namespace CircuitBroker.GateMatrix.Standard

open Elementary (half pi)
open Amplitude (ofReal phase i)

variable {R : Type} [Zero R] [One R] [Add R] [Sub R] [Neg R] [Mul R] [Elementary R]

def square {K : Type} (a b c d : K) : GateMatrix K := ⟨2, #[a, b, c, d]⟩

/-! ### One qubit -/

def id : GateMatrix (Amplitude R) := identity 1

def x : GateMatrix (Amplitude R) := square 0 1 1 0

def y : GateMatrix (Amplitude R) := square 0 (-i) i 0

def z : GateMatrix (Amplitude R) := square 1 0 0 (-1)

def h : GateMatrix (Amplitude R) :=
  let v : Amplitude R := ofReal Elementary.invSqrtTwo
  square v v v (-v)

/-- The phase gate: one on zero, `e^(iλ)` on one. -/
def p (lambda : R) : GateMatrix (Amplitude R) := diagonal [1, phase lambda]

def s : GateMatrix (Amplitude R) := p (half pi)

def sdg : GateMatrix (Amplitude R) := p (-half pi)

def t : GateMatrix (Amplitude R) := p (half (half pi))

def tdg : GateMatrix (Amplitude R) := p (-half (half pi))

def sx : GateMatrix (Amplitude R) :=
  let a : Amplitude R := ⟨half 1, half 1⟩
  let b : Amplitude R := ⟨half 1, -half 1⟩
  square a b b a

def sxdg : GateMatrix (Amplitude R) := sx.adjoint

def rx (theta : R) : GateMatrix (Amplitude R) :=
  let s := Elementary.sin (half theta)
  let c := Elementary.cos (half theta)
  square (ofReal c) ⟨0, -s⟩ ⟨0, -s⟩ (ofReal c)

def ry (theta : R) : GateMatrix (Amplitude R) :=
  let s := Elementary.sin (half theta)
  let c := Elementary.cos (half theta)
  square (ofReal c) (ofReal (-s)) (ofReal s) (ofReal c)

def rz (theta : R) : GateMatrix (Amplitude R) :=
  diagonal [phase (half (-theta)), phase (half theta)]

def u (theta phi lambda : R) : GateMatrix (Amplitude R) :=
  let s := Elementary.sin (half theta)
  let c := Elementary.cos (half theta)
  square (ofReal c) ((-phase lambda).scale s) ((phase phi).scale s) ((phase (phi + lambda)).scale c)

def u2 (phi lambda : R) : GateMatrix (Amplitude R) := u (half pi) phi lambda

/-- A rotation about an axis of the equator. -/
def r (theta phi : R) : GateMatrix (Amplitude R) := u theta (phi - half pi) (half pi - phi)

/-! ### Several qubits -/

def swap : GateMatrix (Amplitude R) := permutation [0, 2, 1, 3]

def iswap : GateMatrix (Amplitude R) :=
  ⟨4, #[1, 0, 0, 0,
        0, 0, i, 0,
        0, i, 0, 0,
        0, 0, 0, 1]⟩

/-- Two controlled `x` gates, the second with the roles exchanged. -/
def dcx : GateMatrix (Amplitude R) := permutation [0, 3, 1, 2]

/-- `cos(θ/2)·1 - i·sin(θ/2)·a⊗b`. -/
def interaction (a b : GateMatrix (Amplitude R)) (theta : R) : GateMatrix (Amplitude R) :=
  let s := Elementary.sin (half theta)
  let c := Elementary.cos (half theta)
  ((identity 2).scaled (ofReal c)).add ((a.kron b).scaled ⟨0, -s⟩)

def rxx (theta : R) : GateMatrix (Amplitude R) := interaction x x theta

def ryy (theta : R) : GateMatrix (Amplitude R) := interaction y y theta

def rzz (theta : R) : GateMatrix (Amplitude R) := interaction z z theta

def rzx (theta : R) : GateMatrix (Amplitude R) := interaction z x theta

def cu (theta phi lambda gamma : R) : GateMatrix (Amplitude R) :=
  ((u theta phi lambda).scaled (phase gamma)).controlled 1

/-- The matrix that agrees with the identity except at the listed places. -/
def patched (n : Nat) (places : List (Nat × Nat × Amplitude R)) : GateMatrix (Amplitude R) :=
  ofFn n fun row col =>
    match places.find? fun q => q.1 = row ∧ q.2.1 = col with
    | some q => q.2.2
    | none => if row = col then 1 else 0

/-- The doubly controlled `x` gate up to relative phases. -/
def rccx : GateMatrix (Amplitude R) :=
  patched 8 [(5, 5, -1), (6, 6, 0), (7, 7, 0), (6, 7, -i), (7, 6, i)]

def rc3x : GateMatrix (Amplitude R) :=
  patched 16 [(12, 12, i), (13, 13, -i), (14, 14, 0), (15, 15, 0), (14, 15, 1), (15, 14, -1)]

/-! ### By name -/

/-- The reference matrix of a name; a missing angle counts as zero. -/
def named? (name : String) (angles : List R) : Option (GateMatrix (Amplitude R)) :=
  let a (i : Nat) : R := angles.getD i 0
  match name with
  | "id" => some id
  | "x" => some x
  | "y" => some y
  | "z" => some z
  | "h" => some h
  | "s" => some s
  | "sdg" => some sdg
  | "t" => some t
  | "tdg" => some tdg
  | "sx" => some sx
  | "sxdg" => some sxdg
  | "rx" => some (rx (a 0))
  | "ry" => some (ry (a 0))
  | "rz" => some (rz (a 0))
  | "p" => some (p (a 0))
  | "u" => some (u (a 0) (a 1) (a 2))
  | "u2" => some (u2 (a 0) (a 1))
  | "r" => some (r (a 0) (a 1))
  | "swap" => some swap
  | "iswap" => some iswap
  | "dcx" => some dcx
  | "rxx" => some (rxx (a 0))
  | "ryy" => some (ryy (a 0))
  | "rzz" => some (rzz (a 0))
  | "rzx" => some (rzx (a 0))
  | "cu" => some (cu (a 0) (a 1) (a 2) (a 3))
  | "rccx" => some rccx
  | "rc3x" => some rc3x
  | _ => none

end CircuitBroker.GateMatrix.Standard
