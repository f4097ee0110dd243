/-
  CircuitBroker/Yaml/Tag.lean
  ===========================
  **Tags, anchors and directives.**

  A tag is a handle with an ending, or an exact name in angle brackets.  Two directives may
  stand before a document: its version, and what a handle is short for.
-/
import CircuitBroker.Text.Numeral
import CircuitBroker.Yaml.Place

namespace CircuitBroker.Yaml

/-! ### Names of tags -/

def isTagChar (c : Char) : Bool := isNameChar c || ";/?:@&=+$.%!~*'()".toList.contains c

/-- How many octets a character has that starts with this one. -/
def octetCount? (octet : Nat) : Option Nat :=
  if octet < 0x80 then some 1
  else if octet < 0xC0 then none
  else if octet < 0xE0 then some 2
  else if octet < 0xF0 then some 3
  else if octet < 0xF8 then some 4
  else none

/-- A name without its escapes, each of which is an octet; so many octets are still wanted
    before anything else. -/
def unescape? : Nat → List Char → Option (List Char)
  | wanted, '%' :: a :: b :: cs => do
    let octet ← Numeral.digits? 16 [a, b]
    let wanted ← match wanted with
      | 0 => (octetCount? octet).map (· - 1)
      | n + 1 => if 0x80 ≤ octet ∧ octet < 0xC0 then some n else none
    (unescape? wanted cs).map (Char.ofNat octet :: ·)
  | 0, c :: cs => if c = '%' then none else (unescape? 0 cs).map (c :: ·)
  | 0, [] => some []
  | _ + 1, _ => none

def tagName? (test : Char → Bool) (p : Place) : Option (List Char × Place) :=
  let (name, q) := p.takeWhile test
  (unescape? 0 name).map fun name => (name, q)

/-- The handle at a place: an exclamation mark, and perhaps a name with a second one. -/
def tagHandle? (p : Place) : Option (List Char × Place) :=
  match p.rest with
  | '!' :: _ =>
    let (name, q) := p.next.takeWhile isNameChar
    if q.rest.head? = some '!' then some ('!' :: name ++ ['!'], q.next) else some ('!' :: name, q)
  | _ => none

def isClosedHandle (handle : List Char) : Bool := 1 < handle.length && handle.getLast? == some '!'

/-- The handle and the ending of the tag at a place, and the place after it.  An exact name
    has no handle, nor has the exclamation mark alone. -/
def tag? (bracketed : Bool) (p : Place) : Option (String × String × Place) := do
  let (handle, ending, q) ←
    if p.next.rest.head? = some '<' then do
      let (name, q) ← tagName? (fun c => isTagChar c || c = ',' || c = '[' || c = ']') (p.advance 2)
      if name.isEmpty || q.rest.head? ≠ some '>' then none else some ([], name, q.next)
    else do
      let (handle, q) ← tagHandle? p
      let (name, q) ← tagName? isTagChar q
      if isClosedHandle handle then
        if name.isEmpty then none else some (handle, name, q)
      else if handle.length = 1 && name.isEmpty then some ([], ['!'], q)
      else some (['!'], handle.drop 1 ++ name, q)
  if spaceNext q.rest || (bracketed && q.rest.head? = some ',') then
    some (String.ofList handle, String.ofList ending, q)
  else none

/-! ### Anchors -/

def anchorName? (p : Place) : Option (String × Place) :=
  let (name, q) := p.next.takeWhile isNameChar
  let ends := spaceNext q.rest || (q.rest.head?.map ("?:,]\x7d%@`".toList.contains ·)).getD false
  if name.isEmpty || !ends then none else some (String.ofList name, q)

/-! ### Directives -/

inductive Directive where
  | version (major minor : Nat)
  /-- A handle and what it is short for. -/
  | handle (name expansion : String)

/-- The number at a place, of at most nine digits, and the place after it. -/
def versionNumber? (p : Place) : Option (Nat × Place) := do
  let (digits, q) := p.takeWhile Char.isDigit
  if 9 < digits.length then none else (Numeral.digits? 10 digits).map fun n => (n, q)

def directive? (p : Place) : Option (Directive × Place) := do
  let (name, q) := p.next.takeWhile isNameChar
  let blanks := q.rest.takeWhile isBlank
  let arguments := q.advance blanks.length
  let (directive, q) ←
    if !spaceNext q.rest then none
    else if name = "YAML".toList then do
      let (major, q) ← versionNumber? arguments
      if q.rest.head? ≠ some '.' then none
      else
        let (minor, q) ← versionNumber? q.next
        some (Directive.version major minor, q)
    else if name = "TAG".toList then do
      let (handle, q) ← tagHandle? arguments
      if !(isClosedHandle handle || handle.length = 1) then none
      else if (q.rest.takeWhile isBlank).isEmpty then none
      else
        let (name, q) ← tagName? (fun c => isTagChar c || c = ',' || c = '[' || c = ']')
          (q.dropWhile isBlank)
        if name.isEmpty || !spaceNext q.rest then none
        else some (.handle (String.ofList handle) (String.ofList name), q)
    else none
  let q := q.dropWhile isBlank
  let q := if q.rest.head? = some '#' then q.dropWhile (!isBreak ·) else q
  if breakNext q.rest then some (directive, q.next) else none

end CircuitBroker.Yaml
