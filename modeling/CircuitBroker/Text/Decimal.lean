/-
  CircuitBroker/Text/Decimal.lean
  ===============================
  **Doubles as decimal text, and decimal text as doubles.**

  A finite double is a natural mantissa times a power of two, so every digit
  printed here is chosen in exact `Nat` arithmetic (`Parts.ofFloat`).

  * `shortest` gives the fewest digits that still read back: the coarsest
    decimal grid with a point inside the interval of reals that round to the
    value, and of two such points the nearer.
  * `roundDiv` rounds a quotient to the nearest natural, a half to the even
    neighbour; `fixed` prints a chosen number of places with it.
  * A `Layout` says how chosen digits are laid out: where positional notation
    ends, whether a whole number keeps a `.0`, how an exponent is signed.
  * `scaled` reads a decimal by one multiplication or division with a power of
    ten, the rule of the circuit documents this library reads.
-/

namespace CircuitBroker.Decimal

/-! ### A double, taken apart -/

/-- What the bits of a double say: a finite one is `mantissa * 2 ^ exponent`. -/
inductive Parts where
  | notANumber
  | infinite (negative : Bool)
  | finite (negative : Bool) (mantissa : Nat) (exponent : Int)
  deriving DecidableEq, Repr

/-- Sign, exponent and fraction fields of a double, the hidden bit restored. -/
def Parts.ofFloat (x : Float) : Parts :=
  let bits := x.toBits.toNat
  let negative := bits >>> 63 == 1
  let biased := bits >>> 52 % 1 <<< 11
  let fraction := bits % 1 <<< 52
  if biased = 2047 then
    if fraction = 0 then .infinite negative else .notANumber
  else if biased = 0 then .finite negative fraction (-1074)
  else .finite negative (fraction + 1 <<< 52) (Int.ofNat biased - 1075)

/-! ### Digits -/

/-- `num / den` rounded to the nearest natural, a half going to the even neighbour. -/
def roundDiv (num den : Nat) : Nat :=
  let floor := num / den
  let rest := 2 * (num % den)
  if rest < den then floor
  else if den < rest then floor + 1
  else if floor % 2 = 0 then floor
  else floor + 1

def digits (n : Nat) : String := String.ofList (Nat.toDigits 10 n)

/-- The point of the grid of step `10 ^ k` nearest to `m * 2 ^ q` among those that
    round to it; of two equally near points the larger. -/
def onGrid (m : Nat) (q k : Int) : Option Nat :=
  -- Everything is measured in units of a quarter of the last binary place.
  let narrow := m = 1 <<< 52 ∧ -1074 < q
  let value := 4 * m
  let low := if narrow then value - 1 else value - 2
  let high := value + 2
  let two := if 0 ≤ q - 2 then 1 <<< (q - 2).toNat else 1
  let twoDown := if 0 ≤ q - 2 then 1 else 1 <<< (2 - q).toNat
  let ten := if 0 ≤ k then Nat.pow 10 k.toNat else 1
  let tenDown := if 0 ≤ k then 1 else Nat.pow 10 (-k).toNat
  -- A grid point `d * 10 ^ k` and a bound `b * 2 ^ (q - 2)` over one denominator.
  let step := ten * twoDown
  let unit := two * tenDown
  let d := value * unit / step
  let inside (d : Nat) : Bool :=
    if m % 2 = 0 then low * unit ≤ d * step ∧ d * step ≤ high * unit
    else low * unit < d * step ∧ d * step < high * unit
  let below := value * unit - d * step
  let above := (d + 1) * step - value * unit
  match inside d, inside (d + 1) with
  | true, true => some (if below < above then d else d + 1)
  | true, false => some d
  | false, true => some (d + 1)
  | false, false => none

/-- The coarsest of the grids `10 ^ k, 10 ^ (k - 1), …` (at most `fuel` of them) with a
    point that rounds to `m * 2 ^ q`, and that point. -/
def coarsest (m : Nat) (q : Int) : Nat → Int → Nat × Int
  | 0, k => (m, k)
  | fuel + 1, k =>
    match onGrid m q k with
    | some d => (d, k)
    | none => coarsest m q fuel (k - 1)

/-- The fewest digits `d`, with the power `k`, such that `d * 10 ^ k` reads back as
    `m * 2 ^ q` (`m` positive).  The first grid tried is coarser than twice the value and
    a grid of seventeen digits always has a hit, so the search never runs out. -/
def shortest (m : Nat) (q : Int) : Nat × Int :=
  let top := q + Int.ofNat m.log2 + 2
  coarsest m q 25 (Int.fdiv (top * 30103) 100000 + 1)

/-! ### Layouts -/

structure Layout where
  /-- Smallest and largest position of the point, counted from the first digit, that are
      written out; `none` writes every number positionally. -/
  positional : Option (Int × Int)
  /-- What follows a whole number written positionally. -/
  whole : String
  /-- What stands between the mantissa and a non-negative exponent. -/
  exponent : String

/-- Every digit written out, and nothing after a whole number: `0.1`, `100`. -/
def Layout.plain : Layout := ⟨none, "", "e"⟩

/-- A literal that is always seen to be fractional: `1.0`, and `1e16` or `1e-5` outside
    `[1e-4, 1e16)`. -/
def Layout.literal : Layout := ⟨some (-3, 16), ".0", "e"⟩

/-- Always an exponent: `5e-1`. -/
def Layout.scientific : Layout := ⟨some (1, 0), "", "e"⟩

/-- Numbers of a JSON text: `100.0`, `0.00001`, `1e-6`, `1e+16`. -/
def Layout.json : Layout := ⟨some (-4, 16), ".0", "e+"⟩

/-- Digits with the point after `point` of them, zeros filled in on either side. -/
def positionalText (layout : Layout) (ds : String) (point : Int) : String :=
  let n := Int.ofNat ds.length
  if point ≤ 0 then "0." ++ String.ofList (List.replicate (-point).toNat '0') ++ ds
  else if n ≤ point then
    ds ++ String.ofList (List.replicate (point - n).toNat '0') ++ layout.whole
  else (ds.take point.toNat).toString ++ "." ++ (ds.drop point.toNat).toString

def exponentText (layout : Layout) (ds : String) (exponent : Int) : String :=
  let mantissa := if ds.length = 1 then ds else (ds.take 1).toString ++ "." ++ (ds.drop 1).toString
  if exponent < 0 then mantissa ++ "e-" ++ toString exponent.natAbs
  else mantissa ++ layout.exponent ++ toString exponent.natAbs

def Layout.arrange (layout : Layout) (ds : String) (point : Int) : String :=
  match layout.positional with
  | none => positionalText layout ds point
  | some (least, most) =>
    if least ≤ point ∧ point ≤ most then positionalText layout ds point
    else exponentText layout ds (point - 1)

/-- A double in the fewest digits that read back. -/
def text (layout : Layout) (x : Float) : String :=
  match Parts.ofFloat x with
  | .notANumber => "NaN"
  | .infinite negative => if negative then "-inf" else "inf"
  | .finite negative m q =>
    let (d, k) := if m = 0 then (0, 0) else shortest m q
    let ds := digits d
    (if negative then "-" else "") ++ layout.arrange ds (Int.ofNat ds.length + k)

/-- Text that carries its sign even when it is positive. -/
def signed (x : Float) (text : String) : String :=
  match Parts.ofFloat x with
  | .notANumber => text
  | .infinite negative => if negative then text else "+" ++ text
  | .finite negative _ _ => if negative then text else "+" ++ text

/-! ### Fixed places -/

def withPlaces (places n : Nat) : String :=
  let ds := digits n
  let ds := String.ofList (List.replicate (places + 1 - ds.length) '0') ++ ds
  let whole := ds.length - places
  if places = 0 then ds else (ds.take whole).toString ++ "." ++ (ds.drop whole).toString

/-- A double with exactly `places` digits after the point, rounded from its exact value. -/
def fixed (places : Nat) (x : Float) : String :=
  match Parts.ofFloat x with
  | .notANumber => "NaN"
  | .infinite negative => if negative then "-inf" else "inf"
  | .finite negative m q =>
    let num := m * Nat.pow 10 places * (if 0 ≤ q then 1 <<< q.toNat else 1)
    let den := if 0 ≤ q then 1 else 1 <<< (-q).toNat
    (if negative then "-" else "") ++ withPlaces places (roundDiv num den)

/-! ### Reading -/

/-- `significand * 10 ^ exponent` as a double: the significand is rounded first, then one
    multiplication or division by a power of ten is rounded; far below the smallest power
    the value is brought up in steps of `10 ^ 308`.  `none` when it is too large. -/
def scaled (significand : Nat) (exponent : Int) : Option Float :=
  let rec go (fuel : Nat) (f : Float) (e : Int) : Option Float :=
    if e.natAbs ≤ 308 then
      let power := Float.ofScientific 1 false e.natAbs
      if 0 ≤ e then
        let r := f * power
        if r.isInf then none else some r
      else some (f / power)
    else if f == 0 then some f
    else if 0 ≤ e then none
    else
      match fuel with
      | 0 => some 0
      | fuel + 1 => go fuel (f / 1e308) (e + 308)
  -- Two steps take every double to zero.
  go 4 significand.toUInt64.toFloat exponent

end CircuitBroker.Decimal
