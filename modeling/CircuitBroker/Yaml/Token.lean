/-
  CircuitBroker/Yaml/Token.lean
  =============================
  **The tokens of a text.**

  Columns become tokens here: where a block starts, and where blocks end because the text
  goes back to the left.  A key is known by the colon after it, so a place at which one may
  start is kept in mind (`KeyStart`) until its colon comes and its tokens are put in front
  of it (`Scan.colon?`).  A key must be on one line and no longer than 1024 bytes; and a
  place at the column of the open block must turn out to be that of a key.
-/
import CircuitBroker.Yaml.Scalar.Block
import CircuitBroker.Yaml.Scalar.Plain
import CircuitBroker.Yaml.Scalar.Quoted
import CircuitBroker.Yaml.Tag

namespace CircuitBroker.Yaml

inductive ScalarStyle where
  | plain
  | quoted
  | literal
  | folded
  deriving DecidableEq

inductive Token where
  | directive (d : Directive)
  | documentStart
  | documentEnd
  | listStart
  | listEnd
  | mapStart
  | mapEnd
  | comma
  | blockList
  | blockMap
  | blockEnd
  | dash
  | key
  | colon
  | alias (name : String)
  | anchor (name : String)
  | tag (handle ending : String)
  | scalar (style : ScalarStyle) (text : String)

/-- A place at which a key may have started, with the number of tokens before it. -/
structure KeyStart where
  place : Place
  index : Nat
  required : Bool

/-- What has been read of a text.  The contents of a block stand at its floor or right of
    it. -/
structure Scan where
  place : Place
  tokens : Array Token
  /-- The floors of the open blocks, the innermost first. -/
  floors : List Nat
  /-- Whether a key may start here. -/
  keyAllowed : Bool
  keyStart : Option KeyStart
  /-- The starts of keys outside of each open bracket, the innermost first. -/
  outside : List (Option KeyStart)

namespace Scan

def start (cs : List Char) : Scan := ⟨.start cs, #[], [], true, none, []⟩

def bracketed (s : Scan) : Bool := !s.outside.isEmpty

def floor (s : Scan) : Nat := s.floors.headD 0

def emit (s : Scan) (t : Token) (after : Place) (keyAllowed : Bool) : Scan :=
  { s with place := after, tokens := s.tokens.push t, keyAllowed }

/-! ### Keys -/

def longestKey : Nat := 1024

/-- The start of a key, unless it can no longer be one. -/
def KeyStart.fresh? (here : Place) (k : KeyStart) : Option (Option KeyStart) :=
  if k.place.line < here.line ∨ k.place.offset + longestKey < here.offset then
    if k.required then none else some none
  else some (some k)

def refresh? (s : Scan) : Option Scan := do
  let fresh? (k : Option KeyStart) : Option (Option KeyStart) :=
    match k with
    | some k => KeyStart.fresh? s.place k
    | none => some none
  return { s with keyStart := ← fresh? s.keyStart, outside := ← s.outside.mapM fresh? }

def forget? (s : Scan) : Option Scan :=
  if (s.keyStart.map (·.required)).getD false then none else some { s with keyStart := none }

def remember? (s : Scan) : Option Scan :=
  if s.keyAllowed then
    let required := !s.bracketed && s.floor = s.place.column + 1
    s.forget?.map fun s => { s with keyStart := some ⟨s.place, s.tokens.size, required⟩ }
  else some s

/-! ### Blocks -/

/-- Ends the blocks whose floor is right of a limit. -/
def closeBlocks (s : Scan) (limit : Nat) : Scan :=
  if s.bracketed then s
  else
    let closed := (s.floors.takeWhile (limit < ·)).length
    { s with
      tokens := s.tokens ++ Array.replicate closed .blockEnd
      floors := s.floors.drop closed }

/-- Opens a block at a column, unless one is open there; its token comes at an index. -/
def openBlock (s : Scan) (t : Token) (column index : Nat) : Scan :=
  if s.bracketed || column < s.floor then s
  else
    { s with
      tokens := s.tokens.insertIdxIfInBounds index t
      floors := (column + 1) :: s.floors }

/-! ### Single tokens -/

/-- A mark at the start of a line, which ends all blocks. -/
def mark? (s : Scan) (t : Token) (after : Place) : Option Scan :=
  (s.closeBlocks 0).forget?.map fun s => s.emit t after false

def openBracket? (s : Scan) (t : Token) : Option Scan :=
  s.remember?.map fun s =>
    ({ s with keyStart := none, outside := s.keyStart :: s.outside }).emit t s.place.next true

def closeBracket? (s : Scan) (t : Token) : Option Scan :=
  s.forget?.map fun s =>
    match s.outside with
    | keyStart :: outside => ({ s with keyStart, outside }).emit t s.place.next false
    | [] => s.emit t s.place.next false

def comma? (s : Scan) : Option Scan := s.forget?.map fun s => s.emit .comma s.place.next true

def dash? (s : Scan) : Option Scan :=
  if !s.bracketed && !s.keyAllowed then none
  else
    (s.openBlock .blockList s.place.column s.tokens.size).forget?.map fun s =>
      s.emit .dash s.place.next true

/-- The mark of a key that is not known by its colon. -/
def keyMark? (s : Scan) : Option Scan :=
  if !s.bracketed && !s.keyAllowed then none
  else
    (s.openBlock .blockMap s.place.column s.tokens.size).forget?.map fun s =>
      s.emit .key s.place.next !s.bracketed

def colon? (s : Scan) : Option Scan :=
  match s.keyStart with
  | some k =>
    let s := { s with tokens := s.tokens.insertIdxIfInBounds k.index .key, keyStart := none }
    some ((s.openBlock .blockMap k.place.column k.index).emit .colon s.place.next false)
  | none =>
    if !s.bracketed && !s.keyAllowed then none
    else
      some ((s.openBlock .blockMap s.place.column s.tokens.size).emit .colon s.place.next
        !s.bracketed)

def blockScalar? (s : Scan) (literal : Bool) : Option Scan := do
  let s ← s.forget?
  let (text, after) ← Yaml.blockScalar? literal s.floor s.place
  return s.emit (.scalar (if literal then .literal else .folded) text) after true

def quotedScalar? (s : Scan) (double : Bool) : Option Scan := do
  let s ← s.remember?
  let (text, after) ← Yaml.quotedScalar? double s.place
  return s.emit (.scalar .quoted text) after false

def plainScalar? (s : Scan) : Option Scan := do
  let s ← s.remember?
  let scalar ← Yaml.plainScalar? s.bracketed s.floor s.place
  return s.emit (.scalar .plain scalar.text) scalar.after scalar.onNewLine

def name? (s : Scan) (token : String → Token) : Option Scan := do
  let s ← s.remember?
  let (name, after) ← anchorName? s.place
  return s.emit (token name) after false

def tag? (s : Scan) : Option Scan := do
  let s ← s.remember?
  let (handle, ending, after) ← Yaml.tag? s.bracketed s.place
  return s.emit (.tag handle ending) after false

/-! ### The next token -/

/-- The place of the next token, past blanks, comments and empty lines, and whether a key
    may start there.  A tab is no blank where one may. -/
def skipFrom (bracketed comment keyAllowed : Bool) (p : Place) : Place × Bool :=
  match h : p.rest with
  | [] => (p, keyAllowed)
  | c :: _ =>
    have := Place.length_rest_next_lt h
    if isBreak c then skipFrom bracketed false (keyAllowed || !bracketed) p.next
    else if comment || c = ' ' || (c = '\t' && (bracketed || !keyAllowed)) ||
        (isByteOrderMark c && p.column = 0) then skipFrom bracketed comment keyAllowed p.next
    else if c = '#' then skipFrom bracketed true keyAllowed p.next
    else (p, keyAllowed)
termination_by p.rest.length

def skip (s : Scan) : Scan :=
  let (place, keyAllowed) := skipFrom s.bracketed false s.keyAllowed s.place
  { s with place, keyAllowed }

def token? (s : Scan) : Option Scan :=
  let after (n : Nat) : List Char := s.place.rest.drop n
  let marked := s.bracketed || spaceNext (after 1)
  match s.place.rest.head? with
  | none => none
  | some c =>
    if c = '%' && s.place.column = 0 then do
      let s ← (s.closeBlocks 0).forget?
      let (d, after) ← directive? s.place
      return s.emit (.directive d) after false
    else if s.place.atMark '-' then s.mark? .documentStart (s.place.advance 3)
    else if s.place.atMark '.' then s.mark? .documentEnd (s.place.advance 3)
    else if c = '[' then s.openBracket? .listStart
    else if c = '\x7b' then s.openBracket? .mapStart
    else if c = ']' then s.closeBracket? .listEnd
    else if c = '\x7d' then s.closeBracket? .mapEnd
    else if c = ',' then s.comma?
    else if c = '-' && spaceNext (after 1) then s.dash?
    else if c = '?' && marked then s.keyMark?
    else if c = ':' && marked then s.colon?
    else if c = '*' then s.name? .alias
    else if c = '&' then s.name? .anchor
    else if c = '!' then s.tag?
    else if c = '|' && !s.bracketed then s.blockScalar? true
    else if c = '>' && !s.bracketed then s.blockScalar? false
    else if c = '"' then s.quotedScalar? true
    else if c = '\x27' then s.quotedScalar? false
    else if plainStart s.bracketed s.place.rest then s.plainScalar?
    else none

def run? : Nat → Scan → Option (Array Token)
  | 0, _ => none
  | fuel + 1, s => do
    let s ← s.skip.refresh?
    let s := s.closeBlocks (s.place.column + 1)
    if s.place.rest.isEmpty then
      let s ← (s.closeBlocks 0).forget?
      return s.tokens
    else run? fuel (← s.token?)

end Scan

def tokens? (text : String) : Option (List Token) :=
  let cs := unifyBreaks text.toList
  if cs.all isAllowed then (Scan.run? (cs.length + 2) (.start cs)).map Array.toList else none

end CircuitBroker.Yaml
