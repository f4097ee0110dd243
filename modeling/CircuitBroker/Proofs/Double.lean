/-
  CircuitBroker/Proofs/Double.lean
  ================================
  **Comparisons and arithmetic of doubles, with the one that is no number.**

  Every double but `Float.nan` has a place on the line of numbers, infinities included;
  `lt_iff` and `le_iff` say that a comparison holds exactly between two numbers whose
  places are in order, so it fails wherever one side is no number.  Arithmetic hands on
  what is no number, but `Double.maxNumber` does not: a bound lies below the larger of two
  doubles exactly if it lies below one of them (`lt_maxNumber_iff`), and one that is no
  number leaves no trace in it.
-/
import CircuitBroker.Scalar
import Mathlib

namespace CircuitBroker.Double

open Float.Model UnpackedFloat

/-! ## 1. The line of numbers -/

/-- The place of a double on the line: the negative infinity, negative numbers, zero, positive
    numbers and the positive infinity one after another, numbers of one sign by exponent and
    then by mantissa.  What is no number gets the place of zero. -/
def place : UnpackedFloat → ℤ ×ₗ ℤ ×ₗ ℤ
  | .notANumber => toLex (0, toLex (0, 0))
  | .infinity .negative => toLex (-2, toLex (0, 0))
  | .infinity .positive => toLex (2, toLex (0, 0))
  | .zero _ => toLex (0, toLex (0, 0))
  | .finite .negative mantissa exponent _ => toLex (-1, toLex (-exponent, -mantissa))
  | .finite .positive mantissa exponent _ => toLex (1, toLex (exponent, mantissa))

theorem compare_toLex {α β : Type} [LinearOrder α] [LinearOrder β] (a c : α) (b d : β) :
    compare (toLex (a, b)) (toLex (c, d)) = (compare a c).then (compare b d) := by
  rw [Prod.Lex.compare_def]
  rfl

theorem compare_neg (a b : ℤ) : compare (-a) (-b) = (compare a b).swap := by
  rw [Int.compare_swap]
  grind [Int.compare_eq_ite_lt]

theorem compare_natCast (a b : ℕ) : compare (a : ℤ) b = compare a b := by
  grind [Int.compare_eq_ite_lt, Nat.compare_eq_ite_lt]

/-- Two numbers compare as their places do. -/
theorem compare_of_ne {a b : UnpackedFloat} (ha : a ≠ .notANumber) (hb : b ≠ .notANumber) :
    a.compare b = some (compare (place a) (place b)) := by
  rcases a with (_ | _) | _ | _ | ⟨_ | _, m, e, hm⟩ <;>
    rcases b with (_ | _) | _ | _ | ⟨_ | _, m', e', hm'⟩
  -- The first parts of the places decide, but for two finite numbers of one sign.
  all_goals
    first
    | exact absurd rfl ha
    | exact absurd rfl hb
    | simp [UnpackedFloat.compare, place, compare_toLex, compare_neg, compare_natCast,
        Ordering.swap_then] <;> rfl

theorem compare_of_eq {a b : UnpackedFloat} (h : a = .notANumber ∨ b = .notANumber) :
    a.compare b = none := by
  cases a <;> cases b <;> simp_all [UnpackedFloat.compare]

/-! ## 2. Comparisons -/

def position (x : Float) : ℤ ×ₗ ℤ ×ₗ ℤ := place x.toModel.unpack

theorem unpack_eq_notANumber_iff {x : Float} : x.toModel.unpack = .notANumber ↔ x = .nan := by
  rw [← UnpackedFloat.isNaN_iff, ← decide_eq_true_iff (p := x = .nan),
    ← Float.isNaN_eq_decide_eq_nan]
  rfl

theorem compare_unpack (x y : Float) : x.toModel.unpack.compare y.toModel.unpack =
    if x = .nan ∨ y = .nan then none else some (compare (position x) (position y)) := by
  split
  case isTrue hnan =>
    exact compare_of_eq (hnan.imp unpack_eq_notANumber_iff.mpr unpack_eq_notANumber_iff.mpr)
  case isFalse hnum =>
    rw [not_or] at hnum
    exact compare_of_ne (unpack_eq_notANumber_iff.not.mpr hnum.1)
      (unpack_eq_notANumber_iff.not.mpr hnum.2)

/-- **Smaller is said of numbers only**, and there it is the order of the line. -/
theorem lt_iff {x y : Float} : x < y ↔ x ≠ .nan ∧ y ≠ .nan ∧ position x < position y := by
  have hcompare : x < y ↔ x.toModel.unpack.compare y.toModel.unpack = some .lt := by
    change Float.lt x y = true ↔ _
    exact (decide_eq_true_iff (p := x.toModel < y.toModel)).trans beq_iff_eq
  rw [hcompare, compare_unpack, ← and_assoc, ← not_or]
  split
  case isTrue hnan => simp [hnan]
  case isFalse hnum => simp [hnum, compare_lt_iff_lt]

/-- **At most is said of numbers only**, and there it is the order of the line. -/
theorem le_iff {x y : Float} : x ≤ y ↔ x ≠ .nan ∧ y ≠ .nan ∧ position x ≤ position y := by
  have hcompare : x ≤ y ↔
      (x.toModel.unpack.compare y.toModel.unpack).any (·.isLE) = true := by
    change Float.le x y = true ↔ _
    exact decide_eq_true_iff (p := x.toModel ≤ y.toModel)
  rw [hcompare, compare_unpack, ← and_assoc, ← not_or]
  split
  case isTrue hnan => simp [hnan]
  case isFalse hnum => simp [hnum, compare_le_iff_le, ← Ordering.ne_gt_iff_isLE]

theorem not_lt_iff {x y : Float} (hx : x ≠ .nan) : ¬x < y ↔ y = .nan ∨ y ≤ x := by
  rw [lt_iff, le_iff]
  by_cases hy : y = .nan <;> simp [hx, hy]

/-! ## 3. What is no number -/

theorem unpack_nan : Float.nan.toModel.unpack = .notANumber :=
  unpack_eq_notANumber_iff.mpr rfl

theorem pack_notANumber : Float.ofModel (Float.Model.pack .notANumber) = .nan := by
  decide +kernel

@[simp] theorem nan_add (x : Float) : Float.nan + x = .nan := by
  change Float.ofModel (.pack (.add _ Float.nan.toModel.unpack x.toModel.unpack)) = _
  rw [unpack_nan, UnpackedFloat.add, pack_notANumber]

@[simp] theorem add_nan (x : Float) : x + Float.nan = .nan := by
  change Float.ofModel (.pack (.add _ x.toModel.unpack Float.nan.toModel.unpack)) = _
  rw [unpack_nan, ← pack_notANumber]
  cases x.toModel.unpack <;> rfl

@[simp] theorem nan_sub (x : Float) : Float.nan - x = .nan := by
  change Float.ofModel (.pack (.sub _ Float.nan.toModel.unpack x.toModel.unpack)) = _
  rw [unpack_nan, UnpackedFloat.sub, pack_notANumber]

@[simp] theorem sub_nan (x : Float) : x - Float.nan = .nan := by
  change Float.ofModel (.pack (.sub _ x.toModel.unpack Float.nan.toModel.unpack)) = _
  rw [unpack_nan, ← pack_notANumber]
  cases x.toModel.unpack <;> rfl

@[simp] theorem nan_mul (x : Float) : Float.nan * x = .nan := by
  change Float.ofModel (.pack (.mul _ Float.nan.toModel.unpack x.toModel.unpack)) = _
  rw [unpack_nan, UnpackedFloat.mul, pack_notANumber]

@[simp] theorem neg_nan : -Float.nan = .nan := by
  decide +kernel

/-! ## 4. The largest double -/

/-- A bound lies below the larger of two doubles exactly if it lies below one of them, also
    where one of the three is no number. -/
theorem lt_maxNumber_iff {t x y : Float} : t < maxNumber x y ↔ t < x ∨ t < y := by
  by_cases hx : x = .nan
  · simp [maxNumber, hx, lt_iff]
  by_cases hy : y = .nan
  · simp [maxNumber, hx, hy, lt_iff]
  rw [maxNumber, if_neg (by simpa using hx), if_neg (by simpa using hy)]
  -- Both are numbers, so the larger one is the one whose place comes later.
  split
  case isTrue hxy =>
    have hxy := (lt_iff.mp hxy).2.2
    grind [lt_iff]
  case isFalse hxy =>
    rw [not_lt_iff hx, le_iff] at hxy
    grind [lt_iff]

/-- What one step of a pass says of a bound, the whole pass says of it: the bound lies below the
    result exactly if it lay below the start or one of the elements lifted it. -/
theorem lt_foldl_iff {α : Type} {t : Float} {step : Float → α → Float} {lifts : α → Prop}
    (hstep : ∀ w a, t < step w a ↔ t < w ∨ lifts a) (xs : List α) (w : Float) :
    t < xs.foldl step w ↔ t < w ∨ ∃ a ∈ xs, lifts a := by
  induction xs generalizing w with
  | nil => simp
  | cons a xs ih => simp [ih, hstep, or_assoc]

theorem hypot_nan_nan : hypot .nan .nan = .nan := by
  decide +kernel

end CircuitBroker.Double
