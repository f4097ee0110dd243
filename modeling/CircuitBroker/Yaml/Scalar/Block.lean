/-
  CircuitBroker/Yaml/Scalar/Block.lean
  ====================================
  **Scalars in lines of their own.**

  After a bar the lines are kept as they are; after an angle bracket a line break between
  two lines that start with no blank is joined as in a plain scalar.  The lines stand at one
  column, which is said in the header or is that of the first line that is not blank.
-/
import CircuitBroker.Yaml.Place

namespace CircuitBroker.Yaml

inductive LineEnds where
  | none
  | first
  | all

structure BlockHeader where
  ends : LineEnds
  /-- The column of the lines, counted from that of the block; zero if it is not said. -/
  indent : Nat

namespace BlockHeader

def ends? : Char → Option LineEnds
  | '+' => some .all
  | '-' => some .none
  | _ => Option.none

/-- A header and its length.  The column is a digit, but not zero. -/
def read? (cs : List Char) : Option (BlockHeader × Nat) :=
  let digit? (c : Option Char) : Option Nat :=
    (c.filter Char.isDigit).map fun c => c.toNat - '0'.toNat
  let header : BlockHeader × Nat × Bool :=
    match cs.head?.bind ends?, digit? cs.head? with
    | some ends, _ =>
      match digit? cs[1]? with
      | some n => (⟨ends, n⟩, 2, n = 0)
      | Option.none => (⟨ends, 0⟩, 1, false)
    | _, some n =>
      match cs[1]?.bind ends? with
      | some ends => (⟨ends, n⟩, 2, n = 0)
      | Option.none => (⟨.first, n⟩, 1, n = 0)
    | _, _ => (⟨.first, 0⟩, 0, false)
  if header.2.2 then Option.none else some (header.1, header.2.1)

end BlockHeader

/-- The empty lines at a place: their line breaks, the rightmost column that is reached in
    them, and the place where a line is not empty.  An indent of zero is not known yet. -/
def emptyLines? (indent : Nat) :
    Nat → List Char → Nat → Place → Option (List Char × Nat × Place)
  | 0, _, _, _ => none
  | fuel + 1, breaks, deepest, p =>
    let blanks := (p.rest.takeWhile (· = ' ')).length
    let q := p.advance (if indent = 0 then blanks else min blanks (indent - p.column))
    let deepest := max deepest q.column
    match q.rest with
    | [] => some (breaks, deepest, q)
    | c :: _ =>
      if c = '\t' && (indent = 0 || q.column < indent) then none
      else if isBreak c then emptyLines? indent fuel (breaks ++ [c]) deepest q.next
      else some (breaks, deepest, q)

/-- Lines that have been read: the line break of the last one, the empty lines after it, and
    whether it starts with a blank. -/
structure BlockLines where
  text : String
  lastBreak : List Char
  empty : List Char
  blank : Bool

def blockLines? (literal : Bool) (indent : Nat) :
    Nat → BlockLines → Place → Option (BlockLines × Place)
  | 0, _, _ => none
  | fuel + 1, l, p =>
    if p.column ≠ indent || p.rest.isEmpty then some (l, p)
    else do
      let blank := (p.rest.head?.map isBlank).getD false
      let joined := !literal && l.lastBreak == ['\n'] && !l.blank && !blank
      let breaks :=
        if joined then (if l.empty.isEmpty then [' '] else l.empty) else l.lastBreak ++ l.empty
      let line := p.rest.takeWhile (!isBreak ·)
      let (empty, _, q) ← emptyLines? indent (p.rest.length + 1) [] 0 (p.advance (line.length + 1))
      blockLines? literal indent fuel
        ⟨l.text ++ String.ofList (breaks ++ line), (p.rest.drop line.length).take 1, empty, blank⟩
        q

/-- The scalar whose mark stands at a place inside a block whose contents stand at `floor` or
    right of it. -/
def blockScalar? (literal : Bool) (floor : Nat) (p : Place) : Option (String × Place) := do
  let (header, length) ← BlockHeader.read? (p.rest.drop 1)
  let q := (p.advance (length + 1)).dropWhile isBlank
  let q := if q.rest.head? = some '#' then q.dropWhile (!isBreak ·) else q
  if !breakNext q.rest then none
  else
    let fuel := p.rest.length + 1
    let said := if header.indent = 0 then 0 else floor - 1 + header.indent
    let (empty, deepest, q) ← emptyLines? said fuel [] 0 q.next
    let indent := if said = 0 then max (max deepest floor) 1 else said
    let (l, q) ← blockLines? literal indent fuel ⟨"", [], empty, false⟩ q
    let ending := match header.ends with
      | .none => []
      | .first => l.lastBreak
      | .all => l.lastBreak ++ l.empty
    some (l.text ++ String.ofList ending, q)

end CircuitBroker.Yaml
