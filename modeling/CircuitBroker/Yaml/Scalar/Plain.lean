/-
  CircuitBroker/Yaml/Scalar/Plain.lean
  ====================================
  **Scalars without quotes.**

  A plain scalar is made of words.  Between brackets it ends before a bracket or a comma;
  everywhere it ends before a colon with a space after it, before a comment, at a line that
  starts or ends a document, and where the text goes back to a column left of the block.
-/
import CircuitBroker.Yaml.Place

namespace CircuitBroker.Yaml

def plainStart (bracketed : Bool) : List Char → Bool
  | [] => false
  | c :: cs =>
    if c = '-' then !(cs.head?.map isBlank).getD false
    else if c = '?' || c = ':' then !bracketed && !spaceNext cs
    else !(isSpace c || isFlowMark c || "#&*!|>'\"%@`".toList.contains c)

/-- The word at the start of a text, in reverse; there is none if a colon in brackets has no
    space after it, but a question mark, a bracket or a comma. -/
def plainWord? (bracketed : Bool) (done : List Char) : List Char → Option (List Char)
  | [] => some done
  | c :: cs =>
    let mark := (cs.head?.map fun d => isFlowMark d || d = '?').getD false
    if isSpace c then some done
    else if bracketed && c = ':' && mark then none
    else if (c = ':' && spaceNext cs) || (bracketed && isFlowMark c) then some done
    else plainWord? bracketed (c :: done) cs

/-- Whether spaces hold a tab at a column left of `floor`, once they hold a line break. -/
def tabBefore (floor : Nat) : Option Nat → List Char → Bool
  | _, [] => false
  | column, c :: cs =>
    if isBreak c then tabBefore floor (some 0) cs
    else
      match column with
      | some n => (c = '\t' && n < floor) || tabBefore floor (some (n + 1)) cs
      | none => tabBefore floor none cs

/-- A plain scalar with the place after it and after the spaces that follow; `onNewLine` if
    they hold a line break. -/
structure PlainScalar where
  text : String
  after : Place
  onNewLine : Bool

def plainWords? (bracketed : Bool) (floor : Nat) (text : String) (p : Place) :
    Option PlainScalar :=
  let spaces := p.rest.takeWhile isSpace
  if spaces = [] then some ⟨text, p, false⟩
  else if tabBefore floor none spaces then none
  else
    let q := p.advance spaces.length
    let stop : PlainScalar := ⟨text, q, spaces.any isBreak⟩
    if (!bracketed && q.column < floor) || q.atDocumentMark || q.rest.head? = some '#' then
      some stop
    else
      match plainWord? bracketed [] q.rest with
      | none => none
      | some [] => some stop
      | some word =>
        plainWords? bracketed floor (text ++ String.ofList (joinSpaces spaces ++ word.reverse))
          (p.advance (spaces.length + word.length))
termination_by p.rest.length
decreasing_by
  have hs : spaces ≠ [] := by assumption
  refine Place.length_rest_advance_lt (Nat.add_pos_left (List.length_pos_iff.2 hs) _) ?_
  intro hp
  apply hs
  simp only [spaces, hp, List.takeWhile_nil]

def plainScalar? (bracketed : Bool) (floor : Nat) (p : Place) : Option PlainScalar := do
  let word ← plainWord? bracketed [] p.rest
  plainWords? bracketed floor (String.ofList word.reverse) (p.advance word.length)

end CircuitBroker.Yaml
