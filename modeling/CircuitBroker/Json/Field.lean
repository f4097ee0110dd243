/-
  CircuitBroker/Json/Field.lean
  =============================
  **Fields with a default.**

  Where a document may leave a field out, or write `null` for it, the field is read as an
  absence, or as the empty value of its kind.
-/
import CircuitBroker.GateMatrix
import CircuitBroker.Json

namespace CircuitBroker.Json

def at? (j : Json) (name : String) : Option Json :=
  match j.field? name with
  | some .null => none
  | other => other

def sub (j : Json) (name : String) : Json := (j.field? name).getD .null

def strAt? (j : Json) (name : String) : Option String := (j.at? name).bind toString?

def strAt (j : Json) (name : String) : String := (j.strAt? name).getD ""

/-- A natural of 64 bits; anything else counts as zero. -/
def nat (j : Json) : Nat := (j.toNatBelow? wordSize).getD 0

def natAt? (j : Json) (name : String) : Option Nat := (j.at? name).map nat

def natAt (j : Json) (name : String) : Nat := (j.natAt? name).getD 0

def boolAt (j : Json) (name : String) : Bool := ((j.at? name).bind toBool?).getD false

def items (j : Json) : List Json := j.toList?.getD []

def listAt (j : Json) (name : String) : List Json := ((j.at? name).map items).getD []

def natsAt (j : Json) (name : String) : List Nat := (j.listAt name).map nat

def strsAt (j : Json) (name : String) : List String := (j.listAt name).filterMap toString?

def fields : Json → List (String × Json)
  | .object fields => fields
  | _ => []

def textsAt (j : Json) (name : String) : List (String × String) :=
  (j.sub name).fields.filterMap fun (n, v) => v.toString?.map fun s => (n, s)

end CircuitBroker.Json
