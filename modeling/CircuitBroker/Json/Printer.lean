/-
  CircuitBroker/Json/Printer.lean
  ===============================
  **JSON text.**

  `Json.compress` writes a value without blanks, fields in the order they have;
  `Json.pretty` writes one item a line, two blanks a level.  Only quotes,
  backslashes and control characters are escaped; what has no value is `null`.
-/
import CircuitBroker.Json

namespace CircuitBroker.Json

def hexDigit (n : Nat) : Char := Nat.digitChar (n % 16)

def escapeChar (c : Char) : String :=
  if c = '"' then "\\\""
  else if c = '\\' then "\\\\"
  else if c = '\n' then "\\n"
  else if c = '\r' then "\\r"
  else if c = '\t' then "\\t"
  else if c.toNat = 8 then "\\b"
  else if c.toNat = 12 then "\\f"
  else if c.toNat < 32 then
    "\\u00" ++ String.ofList [hexDigit (c.toNat / 16), hexDigit c.toNat]
  else String.singleton c

def quote (s : String) : String :=
  "\"" ++ String.join (s.toList.map escapeChar) ++ "\""

def Number.render : Number → String
  | .natural n => toString n
  | .negative n => "-" ++ toString n
  | .real x => Decimal.text .json x

mutual

def compress : Json → String
  | .null | .unreadable => "null"
  | .bool b => if b then "true" else "false"
  | .number n => n.render
  | .string s => quote s
  | .array items => "[" ++ ",".intercalate (compressList items) ++ "]"
  | .object fields => "\x7b" ++ ",".intercalate (compressFields fields) ++ "\x7d"

def compressList : List Json → List String
  | [] => []
  | j :: js => compress j :: compressList js

def compressFields : List (String × Json) → List String
  | [] => []
  | (n, j) :: fs => (quote n ++ ":" ++ compress j) :: compressFields fs

end

/-- Items one a line between brackets, at a depth of nesting. -/
def block (opening closing : String) (depth : Nat) (items : List String) : String :=
  let margin (n : Nat) : String := String.ofList (List.replicate (2 * n) ' ')
  match items with
  | [] => opening ++ closing
  | _ =>
    opening ++ "\n" ++ ",\n".intercalate (items.map (margin (depth + 1) ++ ·)) ++ "\n" ++
      margin depth ++ closing

mutual

def prettyAt (depth : Nat) : Json → String
  | .array items => block "[" "]" depth (prettyList (depth + 1) items)
  | .object fields => block "\x7b" "\x7d" depth (prettyFields (depth + 1) fields)
  | .null | .unreadable => "null"
  | .bool b => if b then "true" else "false"
  | .number n => n.render
  | .string s => quote s

def prettyList (depth : Nat) : List Json → List String
  | [] => []
  | j :: js => prettyAt depth j :: prettyList depth js

def prettyFields (depth : Nat) : List (String × Json) → List String
  | [] => []
  | (n, j) :: fs => (quote n ++ ": " ++ prettyAt depth j) :: prettyFields depth fs

end

def pretty (j : Json) : String := prettyAt 0 j

end CircuitBroker.Json
