/-
  CircuitBroker/Native/Moments/Diagram.lean
  =========================================
  **Diagrams of moment circuits.**

  A diagram has a line per qubit and, between two of them, a line of links.  Each moment
  is a column: the wire of a qubit shows the symbol of the gate that touches it, a
  crossing if a gate spans it without touching it, and a plain wire otherwise.  A column is
  as wide as its widest cell.
-/
import CircuitBroker.Native.Moments

namespace CircuitBroker

variable {R : Type}

/-- One column of a diagram: what each wire shows, which gaps between wires are linked,
    and the width. -/
structure DiagramColumn where
  cells : List (Option String)
  links : List Bool
  width : Nat
  deriving DecidableEq

namespace PlacedGate

def span? (placed : PlacedGate R) : Option (Nat × Nat) := do
  let low ← placed.qubits.min?
  let high ← placed.qubits.max?
  return (low, high)

/-- Whether a gate passes over a wire between its lowest and its highest qubit. -/
def crosses (placed : PlacedGate R) (wire : Nat) : Bool :=
  match placed.span? with
  | some (low, high) => low < wire && wire < high
  | none => false

def links (placed : PlacedGate R) (wire : Nat) : Bool :=
  match placed.span? with
  | some (low, high) => low ≤ wire && wire < high
  | none => false

def symbols [AngleLabel R] (placed : PlacedGate R) : List (Nat × String) :=
  placed.qubits.zip (placed.gate.wireSymbols placed.qubits.length)

end PlacedGate

namespace DiagramColumn

/-- Writes the symbols of a gate, and then a crossing wherever it passes over a wire that shows
    nothing yet. -/
def write [AngleLabel R] (cells : List (Option String)) (placed : PlacedGate R) :
    List (Option String) :=
  let written := placed.symbols.foldl
    (fun cells (wire, symbol) => cells.set wire (some symbol)) cells
  written.mapIdx fun wire cell => if cell.isNone && placed.crosses wire then some "┼" else cell

def link (linked : List Bool) (placed : PlacedGate R) : List Bool :=
  linked.mapIdx fun wire link => link || placed.links wire

def ofMoment [AngleLabel R] (numQubits : Nat) (m : Moment R) : DiagramColumn :=
  let cells := m.foldl write (List.replicate numQubits none)
  let linked := m.foldl link (List.replicate (numQubits - 1) false)
  ⟨cells, linked, ((cells.filterMap id).map String.length).max?.getD 1⟩

end DiagramColumn

namespace MomentCircuit

def repeated (n : Nat) (c : Char) : String := String.ofList (List.replicate n c)

def wireLabel (numQubits wire : Nat) : String :=
  let text (i : Nat) : String := toString i ++ ": "
  (text wire) ++ repeated ((text (numQubits - 1)).length - (text wire).length) ' '

def wireLine (label : String) (columns : List DiagramColumn) (wire : Nat) : String :=
  let part (c : DiagramColumn) : String :=
    let symbol := ((c.cells[wire]?).bind id).getD ""
    "───" ++ symbol ++ repeated (c.width - symbol.length) '─'
  label ++ String.join (columns.map part) ++ "───"

/-- The line below a qubit, without blanks at its end.  A column without width has no place
    for a link. -/
def gapLine (margin : Nat) (columns : List DiagramColumn) (wire : Nat) :
    Except MachineFault String := do
  let parts ← columns.mapM fun c =>
    if c.width = 0 then .error .widthBelowZero
    else
      .ok ("   " ++ (if (c.links[wire]?).getD false then "│" else " ") ++
        repeated (c.width - 1) ' ')
  let line := repeated margin ' ' ++ String.join parts
  return String.ofList (line.toList.reverse.dropWhile (· = ' ')).reverse

/-- The diagram, without a line break at its end. -/
def diagram [AngleLabel R] (c : MomentCircuit R) : Except MachineFault String := do
  let n := c.numQubits
  let columns := c.moments.map (DiagramColumn.ofMoment n)
  let margin := (wireLabel n 0).length
  let lines ← (List.range n).mapM fun wire => do
    let line := wireLine (wireLabel n wire) columns wire
    if wire + 1 < n then return [line, ← gapLine margin columns wire] else return [line]
  return "\n".intercalate lines.flatten

end MomentCircuit

end CircuitBroker
