/-
  CircuitBroker/Gate.lean
  =======================
  **The gate kinds and what an operation of each kind must look like.**

  A `Signature` says how the qubits of an operation are grouped and which parameters
  it takes.  Most kinds act on a fixed number of qubits, one to a group; the
  multi-controlled kinds take a group of controls, a group with the target and,
  where their decomposition can use them, a group of ancillas.
-/

namespace CircuitBroker

/-- The kinds of operation a circuit is made of. -/
inductive Gate where
  | i | x | y | z | h | s | sdg | t | td | sx | sxd
  | rx | ry | rz | p | u1 | u2 | r | u | u3
  | cx | cy | cz | ch | csx | swap | iswap | dcx
  | rxx | ryy | rzz | rzx | cphase | cu1 | crx | cry | crz | cu3 | cu
  | ccx | cswap | rccx | c3x | c3sx | rc3x | c4x
  | mcx | mct | mcxgc | mcxrec | mcxvchain | mcp
  | measure | measureAll
  deriving DecidableEq, Inhabited

/-- How the qubits of an operation are grouped. -/
inductive QubitLayout where
  /-- So many groups of one qubit each. -/
  | fixed (count : Nat)
  /-- Controls, a target, and perhaps ancillas. -/
  | controlled (ancillas : Bool)
  deriving DecidableEq

inductive ParamKind where
  | angle | count | flag | mode
  deriving DecidableEq

/-- Which decomposition a multi-controlled gate asks for. -/
inductive ControlMode where
  | noAncilla | recursion | vChain | vChainDirty
  deriving DecidableEq, Inhabited

/-- The shape of the operations of one kind. -/
structure Signature where
  qubits : QubitLayout
  params : List ParamKind
  deriving DecidableEq

/-- Gates on `n` qubits with `angles` angles. -/
def Signature.fixed (n angles : Nat) : Signature := ⟨.fixed n, List.replicate angles .angle⟩

namespace ParamKind

def name : ParamKind → String
  | angle => "angle"
  | count => "count"
  | flag => "flag"
  | mode => "mode"

def title : ParamKind → String
  | angle => "Angle"
  | count => "Count"
  | flag => "Flag"
  | mode => "Mode"

end ParamKind

namespace ControlMode

def all : List ControlMode := [noAncilla, recursion, vChain, vChainDirty]

def name : ControlMode → String
  | noAncilla => "noancilla"
  | recursion => "recursion"
  | vChain => "v-chain"
  | vChainDirty => "v-chain-dirty"

def title : ControlMode → String
  | noAncilla => "NoAncilla"
  | recursion => "Recursion"
  | vChain => "VChain"
  | vChainDirty => "VChainDirty"

def ofName? (s : String) : Option ControlMode := all.find? (·.name == s)

/-- Every decomposition but the plain one works with ancilla qubits. -/
def usesAncillas (m : ControlMode) : Bool := m != noAncilla

end ControlMode

namespace Gate

def all : List Gate :=
  [i, x, y, z, h, s, sdg, t, td, sx, sxd, rx, ry, rz, p, u1, u2, r, u, u3, cx, cy, cz, ch, csx,
   swap, iswap, dcx, rxx, ryy, rzz, rzx, cphase, cu1, crx, cry, crz, cu3, cu, ccx, cswap, rccx,
   c3x, c3sx, rc3x, c4x, mcx, mct, mcxgc, mcxrec, mcxvchain, mcp, measure, measureAll]

def name : Gate → String
  | i => "i_gate"
  | x => "x_gate"
  | y => "y_gate"
  | z => "z_gate"
  | h => "h_gate"
  | s => "s_gate"
  | sdg => "sdg_gate"
  | t => "t_gate"
  | td => "td_gate"
  | sx => "sx_gate"
  | sxd => "sxd_gate"
  | rx => "rx_gate"
  | ry => "ry_gate"
  | rz => "rz_gate"
  | p => "p_gate"
  | u1 => "u1_gate"
  | u2 => "u2_gate"
  | r => "r_gate"
  | u => "u_gate"
  | u3 => "u3_gate"
  | cx => "cx_gate"
  | cy => "cy_gate"
  | cz => "cz_gate"
  | ch => "ch_gate"
  | csx => "csx_gate"
  | swap => "swap_gate"
  | iswap => "iswap_gate"
  | dcx => "dcx_gate"
  | rxx => "rxx_gate"
  | ryy => "ryy_gate"
  | rzz => "rzz_gate"
  | rzx => "rzx_gate"
  | cphase => "cphase_gate"
  | cu1 => "cu1_gate"
  | crx => "crx_gate"
  | cry => "cry_gate"
  | crz => "crz_gate"
  | cu3 => "cu3_gate"
  | cu => "cu_gate"
  | ccx => "ccx_gate"
  | cswap => "cswap_gate"
  | rccx => "rccx_gate"
  | c3x => "c3x_gate"
  | c3sx => "c3sx_gate"
  | rc3x => "rc3x_gate"
  | c4x => "c4x_gate"
  | mcx => "mcx_gate"
  | mct => "mct_gate"
  | mcxgc => "mcxgc_gate"
  | mcxrec => "mcxrec_gate"
  | mcxvchain => "mcxvchain_gate"
  | mcp => "mcp_gate"
  | measure => "measure"
  | measureAll => "measure_all"

def ofName? (s : String) : Option Gate := all.find? (·.name == s)

def index (g : Gate) : Nat := all.idxOf g

/-- What an operation of a kind must look like. -/
def signature : Gate → Signature
  | i | x | y | z | h | s | sdg | t | td | sx | sxd => .fixed 1 0
  | rx | ry | rz | p | u1 => .fixed 1 1
  | u2 | r => .fixed 1 2
  | u | u3 => .fixed 1 3
  | cx | cy | cz | ch | csx | swap | iswap | dcx => .fixed 2 0
  | rxx | ryy | rzz | rzx | cphase | cu1 | crx | cry | crz => .fixed 2 1
  | cu3 => .fixed 2 3
  | cu => .fixed 2 4
  | ccx | cswap | rccx => .fixed 3 0
  | c3x | c3sx | rc3x => .fixed 4 0
  | c4x => .fixed 5 0
  | mcx | mct => ⟨.controlled true, [.count, .mode]⟩
  | mcxgc | mcxrec => ⟨.controlled false, [.count]⟩
  | mcxvchain => ⟨.controlled true, [.count, .flag]⟩
  | mcp => ⟨.controlled false, [.angle, .count]⟩
  | measure => .fixed 1 0
  | measureAll => .fixed 0 0

def isMeasurement (g : Gate) : Bool := g == measure || g == measureAll

def isMultiControlled (g : Gate) : Bool :=
  match g.signature.qubits with
  | .controlled _ => true
  | .fixed _ => false

end Gate

end CircuitBroker
