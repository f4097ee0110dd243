/-
  CircuitBroker/Proofs/Scalar.lean
  ================================
  **The reals as scalars, and points of the unit circle.**

  Over the reals every function of a circuit has its exact value.  What the gates need of
  them is said once, as laws of `Amplitude.phase` and of one over the square root of two.
-/
import CircuitBroker.Proofs.Amplitude
import CircuitBroker.Scalar

namespace CircuitBroker

/-! ## 1. Exact functions -/

noncomputable instance : Elementary ℝ where
  sin := Real.sin
  cos := Real.cos
  sqrt := Real.sqrt
  half x := x / 2
  pi := Real.pi
  invSqrtTwo := 1 / √2

/-- Exact comparisons.  Every real is finite; a gate may deviate by what rounding can do. -/
noncomputable instance : Magnitude ℝ where
  lt x y := decide (x < y)
  le x y := decide (x ≤ y)
  max := max
  hypot x y := √(x * x + y * y)
  isFinite _ := true
  tolerance := 1 / 10 ^ 9

namespace Amplitude

open Elementary (half pi)

/-! ## 2. The unit circle -/

/-- **Angles add as points multiply.** -/
theorem phase_add (a b : ℝ) : phase (a + b) = phase a * phase b := by
  ext
  · simp [phase, Elementary.cos, Elementary.sin, Real.cos_add]
  · simp [phase, Elementary.cos, Elementary.sin, Real.sin_add]
    ring

theorem phase_neg (a : ℝ) : phase (-a) = conj (phase a) := by
  ext <;> simp [phase, conj, Elementary.cos, Elementary.sin]

theorem phase_half_pi : phase (half (pi : ℝ)) = i := by
  ext <;> simp [phase, i, Elementary.cos, Elementary.sin, half, pi]

theorem i_mul_i : (i : Amplitude ℝ) * i = -1 := by
  ext <;> simp [i]

/-! ## 3. The square root of two -/

theorem invSqrtTwo_sq : (Elementary.invSqrtTwo : ℝ) * Elementary.invSqrtTwo = 1 / 2 := by
  rw [Elementary.invSqrtTwo, instElementaryReal]
  simp only
  rw [div_mul_div_comm, Real.mul_self_sqrt (by norm_num)]
  norm_num

/-- **Half and half are one**, said of the square of one over the square root of two. -/
theorem invSqrtTwo_sq_add_self : (ofReal (Elementary.invSqrtTwo : ℝ)) *
    ofReal Elementary.invSqrtTwo + ofReal Elementary.invSqrtTwo * ofReal Elementary.invSqrtTwo =
      1 := by
  ext
  · simp only [ofReal, add_re, mul_re, invSqrtTwo_sq, one_re]
    norm_num
  · simp [ofReal]

/-- An eighth of a turn lies on the diagonal. -/
theorem phase_quarter : phase (half (half (pi : ℝ))) = ofReal Elementary.invSqrtTwo * (1 + i) := by
  have hroot : (1 / √2 : ℝ) = √2 / 2 := by
    rw [div_eq_div_iff (by positivity) (by norm_num), one_mul, Real.mul_self_sqrt (by norm_num)]
  have hangle : Real.pi / 2 / 2 = Real.pi / 4 := by ring
  ext
  · simp [phase, ofReal, i, Elementary.cos, half, pi, Elementary.invSqrtTwo, hangle, ← hroot]
  · simp [phase, ofReal, i, Elementary.sin, half, pi, Elementary.invSqrtTwo, hangle, ← hroot]

theorem phase_neg_quarter :
    phase (-half (half (pi : ℝ))) = ofReal Elementary.invSqrtTwo * (1 - i) := by
  rw [phase_neg, phase_quarter]
  ext <;> simp [conj, ofReal, i]

end Amplitude

end CircuitBroker
