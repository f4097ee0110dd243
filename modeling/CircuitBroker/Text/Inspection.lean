/-
  CircuitBroker/Text/Inspection.lean
  ==================================
  **Texts that show a value with its structure.**

  For people who look for a mistake, a string is shown in quotes, a record with its name
  and its fields, an optional value as `Some(…)` or `None`.
-/
import CircuitBroker.Text.Unprintable

namespace CircuitBroker.Inspection

def hexText (n : Nat) : String := String.ofList (Nat.toDigits 16 n)

def escapeChar (c : Char) : String :=
  if c = '"' then "\\\""
  else if c = '\\' then "\\\\"
  else if c = '\n' then "\\n"
  else if c = '\r' then "\\r"
  else if c = '\t' then "\\t"
  else if c.toNat = 0 then "\\0"
  else if Unprintable.contains c then "\\u\x7b" ++ hexText c.toNat ++ "\x7d"
  else String.singleton c

def quote (s : String) : String := "\"" ++ String.join (s.toList.map escapeChar) ++ "\""

def tagged (tag value : String) : String := tag ++ "(" ++ value ++ ")"

def optional {α : Type} (shown : α → String) : Option α → String
  | some a => tagged "Some" (shown a)
  | none => "None"

def list (items : List String) : String := "[" ++ ", ".intercalate items ++ "]"

def record (name : String) (fields : List (String × String)) : String :=
  name ++ " \x7b " ++ ", ".intercalate (fields.map fun f => f.1 ++ ": " ++ f.2) ++ " \x7d"

def redacted : String := quote "[REDACTED]"

def bool (b : Bool) : String := if b then "true" else "false"

end CircuitBroker.Inspection
