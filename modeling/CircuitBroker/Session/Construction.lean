/-
  CircuitBroker/Session/Construction.lean
  =======================================
  **Shorthands for operations.**

  A construction stands for one operation, or for a few that belong together.  It is
  written with bare qubit numbers, and the parameters that follow from the qubits, such as
  the number of controls, are filled in.
-/
import CircuitBroker.Session

namespace CircuitBroker

inductive Construction where
  /-- A gate on a fixed number of qubits, each in a group of its own. -/
  | gate (gate : Gate) (angles : List Float) (qubits : List Nat)
  | mcx (controls : List Nat) (target : Nat) (ancillas : List Nat) (mode : ControlMode)
  | mct (controls : List Nat) (target : Nat) (ancillas : List Nat) (mode : ControlMode)
  | mcxgc (controls : List Nat) (target : Nat)
  | mcxrec (controls : List Nat) (target : Nat)
  | mcxvchain (controls : List Nat) (target : Nat) (dirty : Bool)
  | mcp (angle : Float) (controls : List Nat) (target : Nat)
  /-- An even mixture of zero and one. -/
  | superposition (qubit : Nat)
  /-- A pair of qubits that agree. -/
  | entangle (a b : Nat)
  /-- The state that turns a controlled flip into a sign. -/
  | phaseKickback (qubit : Nat)

namespace Construction

def single (gate : Gate) (angles : List Float) (qubits : List Nat) : Operation Float :=
  ⟨gate, qubits.map fun q => [q], angles.map .angle⟩

/-- An operation with controls; a group of ancillas is there only if there are any. -/
def controlled (gate : Gate) (controls : List Nat) (target : Nat) (ancillas : List Nat)
    (params : List (Param Float)) : Operation Float :=
  ⟨gate, [controls, [target]] ++ (if ancillas.isEmpty then [] else [ancillas]), params⟩

def operations : Construction → List (Operation Float)
  | gate g angles qubits => [single g angles qubits]
  | mcx controls target ancillas mode =>
    [controlled .mcx controls target ancillas [.count controls.length, .mode mode]]
  | mct controls target ancillas mode =>
    [controlled .mct controls target ancillas [.count controls.length, .mode mode]]
  | mcxgc controls target => [controlled .mcxgc controls target [] [.count controls.length]]
  | mcxrec controls target => [controlled .mcxrec controls target [] [.count controls.length]]
  | mcxvchain controls target dirty =>
    [controlled .mcxvchain controls target [] [.count controls.length, .flag dirty]]
  | mcp angle controls target =>
    [controlled .mcp controls target [] [.angle angle, .count controls.length]]
  | superposition q => [single .h [] [q]]
  | entangle a b => [single .h [] [a], single .cx [] [a, b]]
  | phaseKickback q => [single .x [] [q], single .h [] [q]]

structure Arguments where
  angles : List Float
  qubits : List Nat
  controls : List Nat
  target : Nat
  ancillas : List Nat
  mode : ControlMode
  dirty : Bool

/-- The construction of a name: that of a gate, or one of the shorthands for several. -/
def named? (name : String) (a : Arguments) : Option Construction :=
  match name, a.qubits with
  | "superposition", [q] => some (superposition q)
  | "entangle", [p, q] => some (entangle p q)
  | "phase_kickback", [q] => some (phaseKickback q)
  | _, _ =>
    (Gate.ofName? name).map fun
      | .mcx => mcx a.controls a.target a.ancillas a.mode
      | .mct => mct a.controls a.target a.ancillas a.mode
      | .mcxgc => mcxgc a.controls a.target
      | .mcxrec => mcxrec a.controls a.target
      | .mcxvchain => mcxvchain a.controls a.target a.dirty
      | .mcp => mcp (a.angles.headD 0) a.controls a.target
      | g =>
        if g ∈ [.c3x, .c3sx, .rc3x, .c4x] then gate g a.angles (a.controls ++ [a.target])
        else gate g a.angles a.qubits

end Construction

def Session.build {σ : Type} (s : Session σ) (c : Construction) :
    Except (CircuitFault Float) Unit × Session σ :=
  s.appendAll c.operations

end CircuitBroker
