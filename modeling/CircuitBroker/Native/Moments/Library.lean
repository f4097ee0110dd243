/-
  CircuitBroker/Native/Moments/Library.lean
  =========================================
  **Matrix gates for moment circuits.**

  `library?` gives the matrix gate that stands for a gate kind without a form of its own,
  with a label for each wire.  A missing angle counts as zero.
-/
import CircuitBroker.Native.Moments.Gate
import CircuitBroker.Gate

namespace CircuitBroker.MomentGate

variable {R : Type} [Zero R] [One R] [Add R] [Sub R] [Neg R] [Mul R] [BEq R] [Elementary R]
  [Magnitude R] [AngleLabel R]

open GateMatrix

def labelled (name : String) (matrix : GateMatrix (Amplitude R)) (labels : List String) :
    Except (Failure R) (CustomGate R) :=
  CustomGate.new name labels.length matrix labels

def underControl (name : String) (base : GateMatrix (Amplitude R)) (label : String) :
    Except (Failure R) (CustomGate R) :=
  CustomGate.new name 2 (base.controlled 1) ["@", label]

def angled (symbol : String) (angle : R) : String :=
  symbol ++ "(" ++ AngleLabel.label angle ++ ")"

/-- The matrix gate of a kind.  That of a multi-controlled phase is its base gate. -/
def library? (kind : Gate) (angles : List R) : Except (Failure R) (Option (CustomGate R)) :=
  let a (i : Nat) : R := angles.getD i 0
  let entry (e : Except (Failure R) (CustomGate R)) : Except (Failure R) (Option (CustomGate R)) :=
    e.map some
  match kind with
  | .sdg => entry (labelled "SDG" Standard.sdg ["S^-1"])
  | .td => entry (labelled "TDG" Standard.tdg ["T^-1"])
  | .sx => entry (labelled "SX" Standard.sx ["SX"])
  | .sxd => entry (labelled "SXDG" Standard.sxdg ["SX^-1"])
  | .p => entry (labelled "P" (Standard.p (a 0)) [angled "P" (a 0)])
  | .u1 => entry (labelled "U1" (Standard.p (a 0)) [angled "U1" (a 0)])
  | .u2 => entry (labelled "U2" (Standard.u2 (a 0) (a 1)) ["U2"])
  | .r => entry (labelled "R" (Standard.r (a 0) (a 1)) ["R"])
  | .u => entry (labelled "U" (Standard.u (a 0) (a 1) (a 2)) ["U"])
  | .u3 => entry (labelled "U3" (Standard.u (a 0) (a 1) (a 2)) ["U3"])
  | .cy => entry (underControl "CY" Standard.y "Y")
  | .ch => entry (underControl "CH" Standard.h "H")
  | .csx => entry (underControl "CSX" Standard.sx "SX")
  | .cphase => entry (underControl "CPHASE" (Standard.p (a 0)) (angled "P" (a 0)))
  | .cu1 => entry (underControl "CU1" (Standard.p (a 0)) (angled "U1" (a 0)))
  | .crx => entry (underControl "CRX" (Standard.rx (a 0)) (angled "Rx" (a 0)))
  | .cry => entry (underControl "CRY" (Standard.ry (a 0)) (angled "Ry" (a 0)))
  | .crz => entry (underControl "CRZ" (Standard.rz (a 0)) (angled "Rz" (a 0)))
  | .cu3 => entry (underControl "CU3" (Standard.u (a 0) (a 1) (a 2)) "U3")
  | .cu => entry (labelled "CU" (Standard.cu (a 0) (a 1) (a 2) (a 3)) ["@", "U"])
  | .dcx => entry (labelled "DCX" Standard.dcx ["DCX_0", "DCX_1"])
  | .rxx => entry (labelled "RXX" (Standard.rxx (a 0)) ["RXX", "RXX"])
  | .ryy => entry (labelled "RYY" (Standard.ryy (a 0)) ["RYY", "RYY"])
  | .rzz => entry (labelled "RZZ" (Standard.rzz (a 0)) ["RZZ", "RZZ"])
  | .rzx => entry (labelled "RZX" (Standard.rzx (a 0)) ["RZX_z", "RZX_x"])
  | .rccx => entry (labelled "RCCX" Standard.rccx ["RCCX_c1", "RCCX_c2", "RCCX_t"])
  | .c3sx => entry (labelled "C3SX" (Standard.sx.controlled 3) ["@", "@", "@", "SX"])
  | .rc3x =>
    entry (labelled "RC3X" Standard.rc3x ["RC3X_c1", "RC3X_c2", "RC3X_c3", "RC3X_t"])
  | .mcp => entry (labelled "P" (Standard.p (a 0)) [angled "P" (a 0)])
  | _ => .ok none

end CircuitBroker.MomentGate
