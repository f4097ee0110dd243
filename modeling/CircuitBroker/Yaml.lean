/-
  CircuitBroker/Yaml.lean
  =======================
  **Values of a settings file.**

  A scalar is a text.  What it stands for is decided by whoever reads it: where a number is
  wanted, a plain scalar is read as one; where a text is wanted, any scalar is one.  Quotes
  say that a scalar is nothing but text.  A missing value is the empty plain scalar.

  A value can have an anchor, and an alias stands for the value of an anchor.  Values are
  therefore read as part of a document, which knows the values of its anchors.
-/
import CircuitBroker.Text.Numeral
import CircuitBroker.Yaml.Token

namespace CircuitBroker

structure Yaml.Scalar where
  style : Yaml.ScalarStyle
  tag : Option String
  text : String

inductive Yaml where
  | scalar (s : Yaml.Scalar)
  | list (items : List Yaml)
  | map (fields : List (Yaml × Yaml))
  /-- Stands for the value of an anchor of this number. -/
  | alias (number : Nat)

namespace Yaml

def empty : Yaml := .scalar ⟨.plain, none, ""⟩

instance : Inhabited Yaml := ⟨empty⟩

/-- An anchor by its number and by its place among all anchors. -/
structure Anchor where
  number : Nat
  place : Nat

/-- A document: its value, and the values that have anchors. -/
structure Document where
  value : Yaml
  anchored : List (Anchor × Yaml)

namespace Document

/-- The value that an alias stands for: of the anchors of its number the last one counts.
    Any other value stands for itself. -/
def follow (d : Document) : Yaml → Yaml
  | .alias number =>
    let found := d.anchored.filter (·.1.number = number)
    match found with
    | [] => empty
    | first :: others =>
      (others.foldl (fun best a => if best.1.place < a.1.place then a else best) first).2
  | y => y

def scalar? (d : Document) (y : Yaml) : Option Scalar :=
  match d.follow y with
  | .scalar s => some s
  | _ => none

end Document

/-! ### Reading values as data -/

abbrev Reader (α : Type) := Document → Yaml → Option α

namespace Scalar

def isEmpty (s : Scalar) : Bool := s.style = .plain && s.text.isEmpty

def nullWords : List String := ["null", "Null", "NULL", "~"]

def isNull (s : Scalar) : Bool := s.style = .plain && (s.text.isEmpty || nullWords.contains s.text)

def integerTag : String := "tag:yaml.org,2002:int"

def nullTag : String := "tag:yaml.org,2002:null"

/-- The name in a tag that belongs to the document alone.  Each character of a tag is a byte
    of its name, and no name is made of other bytes than those of a text. -/
def ownTag? (s : Scalar) : Option String :=
  match s.tag.map String.toList with
  | some ('!' :: name) => String.fromUTF8? ⟨(name.map fun c => c.toNat.toUInt8).toArray⟩
  | _ => none

end Scalar

/-- A text: any scalar, as it is written. -/
def toText? : Reader String := fun d y => (d.scalar? y).map (·.text)

/-- Nothing, the empty plain scalar or a word for it, stands for absence; anything else must
    be read.  With a tag only a word with the tag for nothing does, and it must. -/
def orNull? {α : Type} (read : Reader α) : Reader (Option α) := fun d y =>
  let present := (read d y).map some
  match d.scalar? y with
  | none => present
  | some s =>
    match s.tag with
    | none => if s.isNull then some none else present
    | some tag =>
      if s.style = .plain && tag = Scalar.nullTag then
        if Scalar.nullWords.contains s.text then some none else none
      else present

/-- A natural in base sixteen, eight or two after its mark, else in base ten, where no zero
    may lead. -/
def unsigned? : List Char → Option Nat
  | '0' :: 'x' :: cs => Numeral.digits? 16 cs
  | '0' :: 'o' :: cs => Numeral.digits? 8 cs
  | '0' :: 'b' :: cs => Numeral.digits? 2 cs
  | '0' :: _ :: _ => none
  | cs => Numeral.digits? 10 cs

/-- A natural number below `bound`: a plain scalar, or one in lines of its own with the tag
    of whole numbers; perhaps after a plus sign. -/
def toNatBelow? (bound : Nat) : Reader Nat := fun d y => do
  let s ← d.scalar? y
  if s.style = .plain || (s.style = .literal && s.tag = some Scalar.integerTag) then
    let n ← unsigned? (Numeral.afterPlus s.text.toList)
    if n < bound then some n else none
  else none

/-- One of some named things: its name, or a tag with its name and nothing else. -/
def named? {α : Type} (ofName? : String → Option α) : Reader α := fun d y => do
  let s ← d.scalar? y
  match s.ownTag? with
  | some name => if s.isNull then ofName? name else none
  | none => ofName? s.text

def listOf? {α : Type} (read : Reader α) : Reader (List α) := fun d y =>
  match d.follow y with
  | .list items => items.mapM (read d)
  | .scalar s => if s.isEmpty then some [] else none
  | _ => none

/-- **The record rule.**  The values of the named fields, each name with its aliases: other
    fields are ignored, a field given twice under any of its names is refused, and so is a
    field whose name is not a scalar; nothing is the record without fields. -/
def record? (names : List (List String)) : Reader (List (Option Yaml)) := fun d y =>
  match d.follow y with
  | .map fields => do
    let fields ← fields.mapM fun (name, value) => (toText? d name).map fun name => (name, value)
    names.mapM fun spellings =>
      match fields.filter (fun f => spellings.contains f.1) with
      | [] => some none
      | [f] => some (some f.2)
      | _ => none
  | .scalar s => if s.isEmpty then some (names.map fun _ => none) else none
  | _ => none

end Yaml

end CircuitBroker
