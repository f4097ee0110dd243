/-
  CircuitBroker/Json/Parser.lean
  ==============================
  **Reading JSON text.**

  `Json.parse?` reads a whole text; `Json.value?` reads a value and hands back
  what follows it, so that a caller can tell a bad document from a good one with
  something after it.  Containers nest as deep as they like.

  A number is read by its *significand*: its digits up to the last that fits into
  64 bits, and a power of ten that `Decimal.scaled` applies.  A number that no double
  holds, and a string with half of a surrogate pair, are read as `Json.unreadable`, so
  that only a reader who needs them refuses the text.
-/
import CircuitBroker.Json

namespace CircuitBroker.Json

def isBlank (c : Char) : Bool := c = ' ' || c = '\n' || c = '\t' || c = '\r'

def skipBlanks (cs : List Char) : List Char := cs.dropWhile isBlank

/-! ### Numbers -/

/-- Digits taken into a significand while it fits into 64 bits: the significand, how many
    digits were taken, and how many were left out. -/
def Number.accumulate : Nat → List Char → Nat × Nat × Nat
  | s, [] => (s, 0, 0)
  | s, c :: cs =>
    let next := 10 * s + (c.toNat - 48)
    if next < UInt64.size then
      let (s', taken, left) := Number.accumulate next cs
      (s', taken + 1, left)
    else (s, 0, cs.length + 1)

/-- The double `significand * 10 ^ exponent`, with its sign. -/
def Number.ofParts (negative : Bool) (significand : Nat) (exponent : Int) : Json :=
  match Decimal.scaled significand exponent with
  | some x => .number (.real (if negative then -x else x))
  | none => .unreadable

/-- What an exponent's digits do to a number: `plus` is the sign of the exponent. -/
def Number.withExponent (negative : Bool) (significand : Nat) (start : Int) (plus : Bool)
    (ds : List Char) : Json :=
  let e := ds.foldl (fun e c => 10 * e + (c.toNat - 48)) 0
  if e < 1 <<< 31 then
    Number.ofParts negative significand (if plus then start + Int.ofNat e else start - Int.ofNat e)
  else if significand ≠ 0 ∧ plus then .unreadable
  else .number (.real (if negative then -0.0 else 0.0))

/-- A number without fraction and exponent: an integer while 64 bits hold it, else a double. -/
def Number.whole (negative : Bool) (significand : Nat) (left : Nat) : Json :=
  if left ≠ 0 then Number.ofParts negative significand left
  else if !negative then .number (.natural significand)
  else if 0 < significand ∧ significand ≤ 1 <<< 63 then .number (.negative significand)
  else .number (.real (-significand.toUInt64.toFloat))

def Number.exponent? (negative : Bool) (significand : Nat) (start : Int) (plus : Bool)
    (cs : List Char) : Option (Json × List Char) :=
  let ds := cs.takeWhile Char.isDigit
  if ds.isEmpty then none
  else some (Number.withExponent negative significand start plus ds, cs.dropWhile Char.isDigit)

def Number.signedExponent? (negative : Bool) (significand : Nat) (start : Int) :
    List Char → Option (Json × List Char)
  | '+' :: cs => Number.exponent? negative significand start true cs
  | '-' :: cs => Number.exponent? negative significand start false cs
  | cs => Number.exponent? negative significand start true cs

/-- What follows the digits of a number: its exponent, or nothing, and then it is `plain`. -/
def Number.scaledBy? (negative : Bool) (significand : Nat) (start : Int) (plain : Json) :
    List Char → Option (Json × List Char)
  | 'e' :: cs => Number.signedExponent? negative significand start cs
  | 'E' :: cs => Number.signedExponent? negative significand start cs
  | cs => some (plain, cs)

def Number.fraction? (negative : Bool) (significand left : Nat) (cs : List Char) :
    Option (Json × List Char) :=
  let ds := cs.takeWhile Char.isDigit
  if ds.isEmpty then none
  else
    let (s, taken, _) := Number.accumulate significand ds
    let e := Int.ofNat left - Int.ofNat taken
    Number.scaledBy? negative s e (Number.ofParts negative s e) (cs.dropWhile Char.isDigit)

def Number.afterWhole? (negative : Bool) (significand left : Nat) :
    List Char → Option (Json × List Char)
  | '.' :: cs => Number.fraction? negative significand left cs
  | cs => Number.scaledBy? negative significand left (Number.whole negative significand left) cs

def Number.unsigned? (negative : Bool) (cs : List Char) : Option (Json × List Char) :=
  let whole := cs.takeWhile Char.isDigit
  let leadingZero := whole.head? == some '0' && whole.length ≠ 1
  if whole.isEmpty || leadingZero then none
  else
    let (s, _, left) := Number.accumulate 0 whole
    Number.afterWhole? negative s left (cs.dropWhile Char.isDigit)

def Number.read? : List Char → Option (Json × List Char)
  | '-' :: cs => Number.unsigned? true cs
  | cs => Number.unsigned? false cs

/-! ### Strings -/

def hexValue? (c : Char) : Option Nat :=
  if c.isDigit then some (c.toNat - 48)
  else if 'a' ≤ c ∧ c ≤ 'f' then some (c.toNat - 87)
  else if 'A' ≤ c ∧ c ≤ 'F' then some (c.toNat - 55)
  else none

def hex4? (cs : List Char) : Option (Nat × List Char) :=
  match cs with
  | a :: b :: c :: d :: rest => do
    let a ← hexValue? a
    let b ← hexValue? b
    let c ← hexValue? c
    let d ← hexValue? d
    some (4096 * a + 256 * b + 16 * c + d, rest)
  | _ => none

/-- The second half of a surrogate pair, written as an escape. -/
def lowSurrogate? : List Char → Option (Nat × List Char)
  | '\\' :: 'u' :: cs =>
    (hex4? cs).filter fun (m, _) => 0xDC00 ≤ m ∧ m ≤ 0xDFFF
  | _ => none

/-- The character an escape stands for, after its backslash.  Two escapes that form a
    surrogate pair stand for one character; half of such a pair stands for none. -/
def escape? : List Char → Option (Option Char × List Char)
  | '"' :: cs => some (some '"', cs)
  | '\\' :: cs => some (some '\\', cs)
  | '/' :: cs => some (some '/', cs)
  | 'b' :: cs => some (some (Char.ofNat 8), cs)
  | 'f' :: cs => some (some (Char.ofNat 12), cs)
  | 'n' :: cs => some (some '\n', cs)
  | 'r' :: cs => some (some '\r', cs)
  | 't' :: cs => some (some '\t', cs)
  | 'u' :: cs =>
    (hex4? cs).map fun (n, rest) =>
      if 0xD800 ≤ n ∧ n ≤ 0xDBFF then
        match lowSurrogate? rest with
        | some (m, rest) => (some (Char.ofNat (0x10000 + (n - 0xD800) * 0x400 + (m - 0xDC00))), rest)
        | none => (none, rest)
      else if 0xDC00 ≤ n ∧ n ≤ 0xDFFF then (none, rest)
      else (some (Char.ofNat n), rest)
  | _ => none

/-- The characters of a string up to its closing quote, in reverse, and what follows; no
    characters once one of them is missing. -/
def stringChars? : Nat → Option (List Char) → List Char →
    Option (Option (List Char) × List Char)
  | 0, _, _ => none
  | _, _, [] => none
  | _, done, '"' :: cs => some (done, cs)
  | fuel + 1, done, '\\' :: cs =>
    match escape? cs with
    | some (c?, rest) => stringChars? fuel (c?.bind fun c => done.map (c :: ·)) rest
    | none => none
  | fuel + 1, done, c :: cs =>
    if c.toNat < 32 then none else stringChars? fuel (done.map (c :: ·)) cs

def string? (cs : List Char) : Option (Option String × List Char) :=
  (stringChars? (cs.length + 1) (some []) cs).map fun (done, rest) =>
    (done.map fun cs => String.ofList cs.reverse, rest)

/-! ### Values -/

def word? (word : String) (cs : List Char) : Option (List Char) :=
  let w := word.toList
  if w.isPrefixOf cs then some (cs.drop w.length) else none

mutual

def value? : Nat → List Char → Option (Json × List Char)
  | 0, _ => none
  | fuel + 1, cs =>
    match skipBlanks cs with
    | 'n' :: cs => (word? "ull" cs).map fun rest => (.null, rest)
    | 't' :: cs => (word? "rue" cs).map fun rest => (.bool true, rest)
    | 'f' :: cs => (word? "alse" cs).map fun rest => (.bool false, rest)
    | '"' :: cs => (string? cs).map fun (s?, rest) => (s?.elim .unreadable .string, rest)
    | '[' :: cs =>
      match skipBlanks cs with
      | ']' :: rest => some (.array [], rest)
      | cs => items? fuel [] cs
    | '{' :: cs =>
      match skipBlanks cs with
      | '}' :: rest => some (.object [], rest)
      | cs => fields? fuel (some []) cs
    | cs => Number.read? cs

def items? : Nat → List Json → List Char → Option (Json × List Char)
  | 0, _, _ => none
  | fuel + 1, done, cs =>
    match value? fuel cs with
    | none => none
    | some (j, rest) =>
      match skipBlanks rest with
      | ',' :: rest => items? fuel (j :: done) rest
      | ']' :: rest => some (.array (j :: done).reverse, rest)
      | _ => none

/-- The fields of an object whose first field comes next; no fields once one of the names is
    no string. -/
def fields? : Nat → Option (List (String × Json)) → List Char → Option (Json × List Char)
  | 0, _, _ => none
  | fuel + 1, done, cs =>
    match skipBlanks cs with
    | '"' :: cs =>
      match string? cs with
      | none => none
      | some (name?, rest) =>
        match skipBlanks rest with
        | ':' :: rest =>
          match value? fuel rest with
          | none => none
          | some (j, rest) =>
            let done := name?.bind fun name => done.map ((name, j) :: ·)
            match skipBlanks rest with
            | ',' :: rest => fields? fuel done rest
            | '}' :: rest => some (done.elim .unreadable fun fields => .object fields.reverse, rest)
            | _ => none
        | _ => none
    | _ => none

end

def readPrefix? (text : String) : Option (Json × List Char) :=
  let cs := text.toList
  -- Each step of the reader passes at least one character or opens a value.
  value? (2 * cs.length + 2) cs

def parse? (text : String) : Option Json :=
  match readPrefix? text with
  | some (j, rest) => if (skipBlanks rest).isEmpty then some j else none
  | none => none

end CircuitBroker.Json
