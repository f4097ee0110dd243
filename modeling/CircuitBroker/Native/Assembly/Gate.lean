/-
  CircuitBroker/Native/Assembly/Gate.lean
  =======================================
  **The instruction set of the assembly backend.**

  Almost every gate kind has an instruction of its own.  An `AssemblyGate` knows its
  name, its angles, and what it does: `lowered` gives the matrix on the last qubits of
  an instruction and how many qubits before them are controls.
-/
import CircuitBroker.GateMatrix.Standard

namespace CircuitBroker

/-- How a multi-controlled `x` is to be decomposed.  No decomposition changes what the gate
    does: ancillas are left as they were found. -/
inductive Decomposition where
  | plain
  | grayCode
  | recursive
  | vChain (dirty : Bool)
  deriving DecidableEq, Inhabited

inductive AssemblyGate (R : Type) where
  | id | x | y | z | h | s | sdg | t | tdg | sx | sxdg
  | rx (theta : R) | ry (theta : R) | rz (theta : R)
  | p (lambda : R) | u1 (lambda : R)
  | u2 (phi lambda : R) | r (theta phi : R)
  | u (theta phi lambda : R) | u3 (theta phi lambda : R)
  | cx | cy | cz | ch | csx | swap | iswap | dcx
  | rxx (theta : R) | ryy (theta : R) | rzz (theta : R) | rzx (theta : R)
  | cp (lambda : R) | cu1 (lambda : R)
  | crx (theta : R) | cry (theta : R) | crz (theta : R)
  | cu3 (theta phi lambda : R) | cu (theta phi lambda gamma : R)
  | ccx | cswap | rccx | c3x | c3sx | rc3x | c4x
  | mcx (controls : Nat) (decomposition : Decomposition)
  | mcphase (lambda : R) (controls : Nat)
  deriving DecidableEq, Inhabited

def Decomposition.name : Decomposition → String
  | plain => "mcx"
  | grayCode => "mcx_gray"
  | recursive => "mcx_recursive"
  | vChain _ => "mcx_vchain"

namespace AssemblyGate

variable {R : Type}

def name : AssemblyGate R → String
  | id => "id"
  | x => "x"
  | y => "y"
  | z => "z"
  | h => "h"
  | s => "s"
  | sdg => "sdg"
  | t => "t"
  | tdg => "tdg"
  | sx => "sx"
  | sxdg => "sxdg"
  | rx _ => "rx"
  | ry _ => "ry"
  | rz _ => "rz"
  | p _ => "p"
  | u1 _ => "u1"
  | u2 .. => "u2"
  | r .. => "r"
  | u .. => "u"
  | u3 .. => "u3"
  | cx => "cx"
  | cy => "cy"
  | cz => "cz"
  | ch => "ch"
  | csx => "csx"
  | swap => "swap"
  | iswap => "iswap"
  | dcx => "dcx"
  | rxx _ => "rxx"
  | ryy _ => "ryy"
  | rzz _ => "rzz"
  | rzx _ => "rzx"
  | cp _ => "cp"
  | cu1 _ => "cu1"
  | crx _ => "crx"
  | cry _ => "cry"
  | crz _ => "crz"
  | cu3 .. => "cu3"
  | cu .. => "cu"
  | ccx => "ccx"
  | cswap => "cswap"
  | rccx => "rccx"
  | c3x => "c3x"
  | c3sx => "c3sx"
  | rc3x => "rc3x"
  | c4x => "c4x"
  | mcx _ decomposition => decomposition.name
  | mcphase .. => "mcphase"

def angles : AssemblyGate R → List R
  | rx a | ry a | rz a | p a | u1 a | rxx a | ryy a | rzz a | rzx a | cp a | cu1 a | crx a
  | cry a | crz a | mcphase a _ => [a]
  | u2 a b | r a b => [a, b]
  | u a b c | u3 a b c | cu3 a b c => [a, b, c]
  | cu a b c d => [a, b, c, d]
  | _ => []

section Lowered

variable [Zero R] [One R] [Add R] [Sub R] [Neg R] [Mul R] [Elementary R]

open GateMatrix

/-- What the gate does: a matrix on its last qubits, under so many controls before them. -/
def lowered : AssemblyGate R → GateMatrix (Amplitude R) × Nat
  | id => (Standard.id, 0)
  | x => (Standard.x, 0)
  | y => (Standard.y, 0)
  | z => (Standard.z, 0)
  | h => (Standard.h, 0)
  | s => (Standard.s, 0)
  | sdg => (Standard.sdg, 0)
  | t => (Standard.t, 0)
  | tdg => (Standard.tdg, 0)
  | sx => (Standard.sx, 0)
  | sxdg => (Standard.sxdg, 0)
  | rx a => (Standard.rx a, 0)
  | ry a => (Standard.ry a, 0)
  | rz a => (Standard.rz a, 0)
  | p a | u1 a => (Standard.p a, 0)
  | u2 a b => (Standard.u2 a b, 0)
  | r a b => (Standard.r a b, 0)
  | u a b c | u3 a b c => (Standard.u a b c, 0)
  | swap => (Standard.swap, 0)
  | iswap => (Standard.iswap, 0)
  | dcx => (Standard.dcx, 0)
  | rxx a => (Standard.rxx a, 0)
  | ryy a => (Standard.ryy a, 0)
  | rzz a => (Standard.rzz a, 0)
  | rzx a => (Standard.rzx a, 0)
  | cu a b c d => (Standard.cu a b c d, 0)
  | rccx => (Standard.rccx, 0)
  | rc3x => (Standard.rc3x, 0)
  | cx => (Standard.x, 1)
  | cy => (Standard.y, 1)
  | cz => (Standard.z, 1)
  | ch => (Standard.h, 1)
  | csx => (Standard.sx, 1)
  | cp a | cu1 a => (Standard.p a, 1)
  | crx a => (Standard.rx a, 1)
  | cry a => (Standard.ry a, 1)
  | crz a => (Standard.rz a, 1)
  | cu3 a b c => (Standard.u a b c, 1)
  | ccx => (Standard.x, 2)
  | cswap => (Standard.swap, 1)
  | c3x => (Standard.x, 3)
  | c3sx => (Standard.sx, 3)
  | c4x => (Standard.x, 4)
  | mcx controls _ => (Standard.x, controls)
  | mcphase a controls => (Standard.p a, controls)

end Lowered

end AssemblyGate

end CircuitBroker
