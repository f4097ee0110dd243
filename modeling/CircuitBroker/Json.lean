/-
  CircuitBroker/Json.lean
  =======================
  **JSON values.**

  Circuits, task programs and service replies are JSON documents.  A value keeps
  the order in which its fields were written; where a text is wanted with sorted
  fields, `Json.sorted` says so.  Numbers are kept as they were meant: a natural
  or negative integer of 64 bits, or a double.

  A text may be well written and still hold something no value stands for.  Such a
  part is kept as `Json.unreadable`: nobody can read it, but what is not asked for
  does not spoil the rest.
-/
import CircuitBroker.Text.Decimal

namespace CircuitBroker

inductive Json.Number where
  /-- A natural below `2 ^ 64`. -/
  | natural (n : Nat)
  /-- The integer `-n`, with `0 < n ≤ 2 ^ 63`. -/
  | negative (n : Nat)
  | real (x : Float)

inductive Json where
  | null
  | bool (b : Bool)
  | number (n : Json.Number)
  | string (s : String)
  | array (items : List Json)
  | object (fields : List (String × Json))
  /-- Well written, but without a value: a number beyond every double, a string with half of a
      surrogate pair, or an object with a field of such a name. -/
  | unreadable

namespace Json

instance : Inhabited Json := ⟨.null⟩

def ofNat (n : Nat) : Json := .number (.natural n)

/-- A double as a value; a number that is not finite has no JSON form and becomes `null`. -/
def ofFloat (x : Float) : Json := if x.isFinite then .number (.real x) else .null

def ofStrings (xs : List String) : Json := .array (xs.map .string)

/-- The first field of that name in a list of fields. -/
def lookup (name : String) (fields : List (String × Json)) : Option Json :=
  (fields.find? (·.1 == name)).map (·.2)

/-- The value of a field of an object; `none` for a missing field and for other values. -/
def field? (name : String) : Json → Option Json
  | .object fields => lookup name fields
  | _ => none

/-! ### Reading values as data -/

/-- A natural number below `bound`, written without fraction or exponent. -/
def toNatBelow? (bound : Nat) : Json → Option Nat
  | .number (.natural n) => if n < bound then some n else none
  | _ => none

def toFloat? : Json → Option Float
  | .number (.natural n) => some n.toUInt64.toFloat
  | .number (.negative n) => some (-n.toUInt64.toFloat)
  | .number (.real x) => some x
  | _ => none

def toString? : Json → Option String
  | .string s => some s
  | _ => none

def toBool? : Json → Option Bool
  | .bool b => some b
  | _ => none

def toList? : Json → Option (List Json)
  | .array items => some items
  | _ => none

def listOf? {α : Type} (read : Json → Option α) (j : Json) : Option (List α) := do
  let items ← j.toList?
  items.mapM read

/-- The entries of an object whose every value `read` accepts, the last of equal names
    winning. -/
def entries? {α : Type} (read : Json → Option α) : Json → Option (List (String × α))
  | .object fields => do
    let entries ← fields.mapM fun (name, j) => (read j).map fun a => (name, a)
    some (entries.foldl (fun kept e => kept.filter (·.1 != e.1) ++ [e]) [])
  | _ => none

/-- `null` stands for absence; anything else must be read. -/
def orNull? {α : Type} (read : Json → Option α) : Json → Option (Option α)
  | .null => some none
  | j => (read j).map some

/-- **The record rule.**  The values of the named fields, each name with its aliases: an
    object gives them by name, other fields being ignored and a field given twice (under any
    of its names) refused; an array gives them by position, none too many. -/
def record? (names : List (List String)) : Json → Option (List (Option Json))
  | .object fields =>
    names.mapM fun spellings =>
      match fields.filter (fun f => spellings.contains f.1) with
      | [] => some none
      | [f] => some (some f.2)
      | _ => none
  | .array items =>
    if items.length ≤ names.length then
      some (items.map some ++ List.replicate (names.length - items.length) none)
    else none
  | _ => none

/-- **The tag rule.**  A tagged value is an object with one field; the name is the tag. -/
def tagged? : Json → Option (String × Json)
  | .object [f] => some f
  | _ => none

/-- One of a fixed set of names: the name as a string, or as the tag of `null`. -/
def unitTag? : Json → Option String
  | .string s => some s
  | .object [(s, .null)] => some s
  | _ => none

/-! ### Sorting -/

/-- A field put into its place among fields sorted by name; a field of the same name is
    replaced. -/
def insertSorted (name : String) (value : Json) : List (String × Json) → List (String × Json)
  | [] => [(name, value)]
  | (n, v) :: rest =>
    if name < n then (name, value) :: (n, v) :: rest
    else if name == n then (name, value) :: rest
    else (n, v) :: insertSorted name value rest

mutual

/-- The same value with the fields of every object sorted by name, the last of equal names
    winning. -/
def sorted : Json → Json
  | .array items => .array (sortedList items)
  | .object fields => .object (sortedFields fields [])
  | j => j

def sortedList : List Json → List Json
  | [] => []
  | j :: js => sorted j :: sortedList js

def sortedFields : List (String × Json) → List (String × Json) → List (String × Json)
  | [], done => done
  | (n, v) :: fs, done => sortedFields fs (insertSorted n (sorted v) done)

end

end Json

end CircuitBroker
