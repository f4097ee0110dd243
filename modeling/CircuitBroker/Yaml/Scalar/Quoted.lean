/-
  CircuitBroker/Yaml/Scalar/Quoted.lean
  =====================================
  **Scalars in quotes.**

  Spaces in quotes are joined as in plain scalars, wherever the next line starts.  In single
  quotes a quote is written twice; in double quotes a backslash starts an escape, and one at
  the end of a line leaves out the line break and the blanks around it.
-/
import CircuitBroker.Text.Numeral
import CircuitBroker.Yaml.Place

namespace CircuitBroker.Yaml

/-- What stands next between quotes: the closing quote, or `further + 1` characters that
    stand for a text. -/
inductive QuotedPart where
  | close
  | text (further : Nat) (cs : List Char)

def hexEscape? (n : Nat) (cs : List Char) : Option QuotedPart := do
  let digits := cs.take n
  let value ← if digits.length = n then Numeral.digits? 16 digits else none
  if value < 0xD800 ∨ (0xDFFF < value ∧ value < 0x110000) then
    some (.text (n + 1) [Char.ofNat value])
  else none

def letterEscape? : Char → Option Char
  | '0' => some '\x00'
  | 'a' => some '\x07'
  | 'b' => some '\x08'
  | 't' | '\t' => some '\t'
  | 'n' => some '\n'
  | 'v' => some '\x0b'
  | 'f' => some '\x0c'
  | 'r' => some '\r'
  | 'e' => some '\x1b'
  | ' ' => some ' '
  | '"' => some '"'
  | '/' => some '/'
  | '\\' => some '\\'
  | 'N' => some '\u0085'
  | '_' => some '\u00a0'
  | 'L' => some '\u2028'
  | 'P' => some '\u2029'
  | _ => none

/-- An escape after its backslash.  Of the spaces after an escaped line break only the
    further line breaks count. -/
def escape? : List Char → Option QuotedPart
  | [] => none
  | 'x' :: cs => hexEscape? 2 cs
  | 'u' :: cs => hexEscape? 4 cs
  | 'U' :: cs => hexEscape? 8 cs
  | c :: cs =>
    if isBreak c then
      let spaces := cs.takeWhile isSpace
      some (.text (spaces.length + 1) (spaces.filter isBreak))
    else (letterEscape? c).map fun d => .text 1 [d]

def quotedPart? (double : Bool) : List Char → Option QuotedPart
  | [] => none
  | c :: cs =>
    if isSpace c then
      let spaces := cs.takeWhile isSpace
      some (.text spaces.length (joinSpaces (c :: spaces)))
    else if double && c = '"' then some .close
    else if double && c = '\\' then escape? cs
    else if !double && c = '\x27' then
      if cs.head? = some '\x27' then some (.text 1 ['\x27']) else some .close
    else some (.text 0 [c])

def quotedFrom? (double : Bool) (text : String) (p : Place) : Option (String × Place) :=
  if p.atDocumentMark then none
  else
    match h : quotedPart? double p.rest with
    | none => none
    | some .close => some (text, p.next)
    | some (.text further cs) =>
      quotedFrom? double (text ++ String.ofList cs) (p.advance (further + 1))
termination_by p.rest.length
decreasing_by
  refine Place.length_rest_advance_lt (Nat.succ_pos _) fun hp => ?_
  rw [hp] at h
  simp [quotedPart?] at h

def quotedScalar? (double : Bool) (p : Place) : Option (String × Place) :=
  quotedFrom? double "" p.next

end CircuitBroker.Yaml
