/-
  CircuitBroker/Scalar.lean
  =========================
  **What the numbers of a circuit can do.**

  Angles, amplitudes and probabilities are taken from a type `R` of real scalars.
  Beside the ring operations a circuit needs three small sets of functions, kept
  apart so that a statement asks only for those it uses:

  * `Elementary`: the functions that turn an angle into matrix entries;
  * `Magnitude`: comparisons and the size of a deviation;
  * `Share`: what it takes to divide a number of shots by weights.

  Programs run with `R := Float`, where the instances below give each operation its
  rounded value; the laws of the library are about any `R`, or about the reals.
-/

namespace CircuitBroker

class Elementary (R : Type) where
  sin : R → R
  cos : R → R
  sqrt : R → R
  half : R → R
  pi : R
  /-- One over the square root of two. -/
  invSqrtTwo : R

/-- Comparisons of real scalars and the length of a complex number. -/
class Magnitude (R : Type) where
  lt : R → R → Bool
  le : R → R → Bool
  /-- The larger of two scalars; one that is not a number gives way to the other. -/
  max : R → R → R
  /-- The length of the vector with the two components. -/
  hypot : R → R → R
  isFinite : R → Bool
  /-- How far from unitary a gate may be. -/
  tolerance : R

/-- What it takes to divide a number of shots by weights. -/
class Share (R : Type) where
  ofNat : Nat → R
  /-- The largest natural not above a scalar. -/
  floor : R → Nat
  /-- What is left of a scalar above `floor`. -/
  fraction : R → R
  compare : R → R → Ordering

/-! ### Doubles -/

/-- The square root of a sum of two squares, `small ≤ large`, with one correction step. -/
def Double.hypotCorrected (large small : Float) : Float :=
  let h := (large * large + small * small).sqrt
  let (t1, t2) :=
    if h <= 2.0 * small then
      let delta := h - small
      (large * (2.0 * delta - large), (delta - 2.0 * (large - small)) * delta)
    else
      let delta := h - large
      (2.0 * delta * (large - 2.0 * small), (4.0 * delta - small) * small + delta * delta)
  h - (t1 + t2) / (2.0 * h)

def Double.twoTo (exponent : Int) : Float :=
  Float.ofBits ((1023 + exponent).toNat <<< 52).toUInt64

/-- The length of a vector of two doubles.  A component too small to be seen beside the
    other is left out; very large and very small vectors are scaled first, so that no square
    overflows or vanishes. -/
def Double.hypot (x y : Float) : Float :=
  if x.isInf || y.isInf then Float.ofScientific 1 false 400
  else if x.isNaN || y.isNaN then x + y
  else
    let x := x.abs
    let y := y.abs
    let large := if x < y then y else x
    let small := if x < y then x else y
    let unseen := Double.twoTo (-54)
    let shrink := Double.twoTo (-600)
    let stretch := Double.twoTo 600
    if Double.twoTo 511 < large then
      if small <= large * unseen then large + small
      else Double.hypotCorrected (large * shrink) (small * shrink) / shrink
    else if small < Double.twoTo (-459) then
      if small / unseen <= large then large + small
      else Double.hypotCorrected (large * stretch) (small * stretch) * shrink
    else if small <= large * unseen then large + small
    else Double.hypotCorrected large small

/-- The larger of two doubles, a number before anything that is none. -/
def Double.maxNumber (x y : Float) : Float :=
  if x.isNaN then y else if y.isNaN then x else if x < y then y else x

/-- The bits of a double as a key that sorts every double: negative before positive, by size,
    the ones that are no number outermost. -/
def Double.orderKey (x : Float) : Int :=
  let bits := x.toBits.toNat
  if bits < 1 <<< 63 then Int.ofNat bits else -(Int.ofNat (bits - 1 <<< 63)) - 1

instance : Elementary Float where
  sin := Float.sin
  cos := Float.cos
  sqrt := Float.sqrt
  half x := x / 2.0
  pi := 3.141592653589793
  invSqrtTwo := 0.7071067811865476

instance : Magnitude Float where
  lt x y := x < y
  le x y := x <= y
  max := Double.maxNumber
  hypot := Double.hypot
  isFinite := Float.isFinite
  tolerance := 1e-9

instance : Share Float where
  ofNat n := n.toUInt64.toFloat
  floor x := x.floor.toUInt64.toNat
  fraction x := x - x.floor
  compare x y := Ord.compare (Double.orderKey x) (Double.orderKey y)

end CircuitBroker
