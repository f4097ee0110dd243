/-
  CircuitBroker/Proofs/GateMatrix/Tolerance.lean
  ==============================================
  **How far from unitary a custom gate of doubles can be.**

  A custom gate is refused if the largest deviation of an entry of `U†U` from the identity is
  above the tolerance.  `Magnitude.max` passes over a deviation that is no number, so the check
  is one of each entry by itself, and such an entry passes it (`excessDeviation?_eq_none_iff`).
  What a gate is promised to be, `UnitaryWithin`, it is exactly if all deviations are numbers
  (`CustomGate.unitary_up_to_nan`).  One entry of the matrix that is no number hides a whole row
  of `U†U` from the check (`deviationAt_eq_nan`), and one in each column hides everything
  (`excessDeviation?_of_nan_columns`).
-/
import CircuitBroker.Proofs.Double
import CircuitBroker.Proofs.GateMatrix.Sizes

namespace CircuitBroker

/-! ## 1. Amplitudes that are no numbers -/

namespace Amplitude

def nan : Amplitude Float := ⟨.nan, .nan⟩

@[simp] theorem nan_add (a : Amplitude Float) : nan + a = nan := by
  ext1 <;> simp [nan, Double.nan_add]

@[simp] theorem add_nan (a : Amplitude Float) : a + nan = nan := by
  ext1 <;> simp [nan, Double.add_nan]

theorem modulus_nan_sub (a : Amplitude Float) : (nan - a).modulus = .nan := by
  rw [modulus, sub_re, sub_im, nan, Double.nan_sub, Double.nan_sub]
  exact Double.hypot_nan_nan

def HasNaN (a : Amplitude Float) : Prop := a.re = .nan ∨ a.im = .nan

theorem HasNaN.conj {a : Amplitude Float} (h : a.HasNaN) : HasNaN (Conjugate.conj a) := by
  obtain hre | him := h
  · exact .inl hre
  · exact .inr ((congrArg (- ·) him).trans Double.neg_nan)

theorem HasNaN.beq_zero {a : Amplitude Float} (h : a.HasNaN) : (a == 0) = false := by
  change (a.re == 0 && a.im == 0) = false
  obtain hre | him := h
  · rw [hre, Float.nan_beq_eq_false, Bool.false_and]
  · rw [him, Float.nan_beq_eq_false, Bool.and_false]

theorem HasNaN.mul {a : Amplitude Float} (h : a.HasNaN) (b : Amplitude Float) : a * b = nan := by
  obtain hre | him := h
  · ext1 <;> simp [hre, nan]
  · ext1 <;> simp [him, nan]

end Amplitude

open Amplitude

namespace GateMatrix

/-! ## 2. The check, entry by entry -/

section Check

variable {R : Type} [Zero R] [One R] [Add R] [Sub R] [Neg R] [Mul R] [BEq R] [Magnitude R]

/-- How far the entry of `U†U` at a row and a column is from the identity's. -/
def deviationAt (u : GateMatrix (Amplitude R)) (row col : Nat) : R :=
  ((u.adjoint.mul u).get row col - ofReal (if row = col then 1 else 0)).modulus

end Check

def UnitaryWithin (u : GateMatrix (Amplitude Float)) (tolerance : Float) : Prop :=
  ∀ row < u.dim, ∀ col < u.dim, u.deviationAt row col ≤ tolerance

variable {u : GateMatrix (Amplitude Float)}

theorem unitarityDeviation_eq (u : GateMatrix (Amplitude Float)) : u.unitarityDeviation =
    (List.range u.dim).foldl (fun w row => (List.range u.dim).foldl
      (fun w col => Double.maxNumber w (u.deviationAt row col)) w) 0 :=
  rfl

theorem lt_unitarityDeviation_iff {t : Float} : t < u.unitarityDeviation ↔
    t < 0 ∨ ∃ row < u.dim, ∃ col < u.dim, t < u.deviationAt row col := by
  have hcol : ∀ row w col, t < Double.maxNumber w (u.deviationAt row col) ↔
      t < w ∨ t < u.deviationAt row col := fun _ _ _ => Double.lt_maxNumber_iff
  rw [unitarityDeviation_eq,
    Double.lt_foldl_iff fun w row => Double.lt_foldl_iff (hcol row) (List.range u.dim) w]
  simp only [List.mem_range]

theorem tolerance_ne_nan : (Magnitude.tolerance : Float) ≠ .nan := by decide +kernel

/-- **A matrix passes if each entry of `U†U` deviates by no more than the tolerance or by what is
    no number.** -/
theorem excessDeviation?_eq_none_iff : u.excessDeviation? = none ↔
    ∀ row < u.dim, ∀ col < u.dim,
      u.deviationAt row col = .nan ∨ u.deviationAt row col ≤ Magnitude.tolerance := by
  have hstart : ¬ (Magnitude.tolerance : Float) < 0 := by decide +kernel
  have hpass : u.excessDeviation? = none ↔ ¬ Magnitude.tolerance < u.unitarityDeviation := by
    simp [GateMatrix.excessDeviation?, Magnitude.lt]
  rw [hpass, lt_unitarityDeviation_iff]
  simp only [hstart, false_or, not_exists, not_and, Double.not_lt_iff tolerance_ne_nan]

theorem unitaryWithin_iff (hpass : u.excessDeviation? = none) :
    u.UnitaryWithin Magnitude.tolerance ↔
      ∀ row < u.dim, ∀ col < u.dim, u.deviationAt row col ≠ .nan := by
  rw [excessDeviation?_eq_none_iff] at hpass
  constructor
  · intro h row hrow col hcol
    exact (Double.le_iff.mp (h row hrow col hcol)).1
  · intro h row hrow col hcol
    exact (hpass row hrow col hcol).resolve_left (h row hrow col hcol)

/-! ## 3. What one entry hides -/

theorem foldl_eq_nan {α : Type} {xs : List α} {skip : α → Bool} {term : α → Amplitude Float}
    {x : α} (hx : x ∈ xs) (hskip : skip x = false) (hterm : term x = nan)
    (acc : Amplitude Float) :
    xs.foldl (fun acc k => if skip k then acc else acc + term k) acc = nan := by
  -- From the term that is no number on, the sum is none either.
  have hstays : ∀ ys : List α,
      ys.foldl (fun acc k => if skip k then acc else acc + term k) nan = nan := by
    intro ys
    induction ys with
    | nil => rfl
    | cons y ys ih => simpa using ih
  obtain ⟨before, after, rfl⟩ := List.append_of_mem hx
  rw [List.foldl_append, List.foldl_cons, hskip, hterm]
  simpa using hstays after

theorem get_mul_eq_nan {a b : GateMatrix (Amplitude Float)} {row k col : Nat}
    (hrow : row < a.dim) (hk : k < a.dim) (hcol : col < a.dim) (hnan : (a.get row k).HasNaN) :
    (a.mul b).get row col = nan := by
  rw [mul, get_ofFn _ hrow hcol]
  exact foldl_eq_nan (List.mem_range.mpr hk) hnan.beq_zero (hnan.mul _) 0

/-- **An entry in column `j` of the matrix that is no number leaves no number in row `j` of
    `U†U`.** -/
theorem deviationAt_eq_nan {k j col : Nat} (hk : k < u.dim) (hj : j < u.dim) (hcol : col < u.dim)
    (hnan : (u.get k j).HasNaN) : u.deviationAt j col = .nan := by
  -- What is no number is not equal to zero, so the product does not pass over it.
  have hentry : (u.adjoint.get j k).HasNaN := by
    rw [adjoint, get_ofFn _ hj hk]
    exact hnan.conj
  rw [deviationAt, get_mul_eq_nan (a := u.adjoint) hj hk hcol hentry, modulus_nan_sub]

/-- **A matrix with such an entry in each column passes**, whatever else it holds. -/
theorem excessDeviation?_of_nan_columns
    (h : ∀ j < u.dim, ∃ k < u.dim, (u.get k j).HasNaN) : u.excessDeviation? = none := by
  rw [excessDeviation?_eq_none_iff]
  intro row hrow col hcol
  obtain ⟨k, hk, hnan⟩ := h row hrow
  exact .inl (deviationAt_eq_nan hk hrow hcol hnan)

end GateMatrix

/-! ## 4. Custom gates -/

namespace CustomGate

open GateMatrix

/-- **A custom gate is unitary up to what is no number.**  Accepted is a matrix of the size and
    the labels asked for, each of whose entries passes.  It is within the tolerance in every entry
    exactly if no deviation is no number; and an entry of the matrix that is none makes a whole row
    of deviations pass. -/
theorem unitary_up_to_nan [Build] (name : String) (arity : Nat) (u : GateMatrix (Amplitude Float))
    (labels : List String) :
    ((∃ g, new name arity u labels = .ok g) ↔
      Word.bit arity = .ok u.dim ∧ labels.length = arity ∧
        ∀ row < u.dim, ∀ col < u.dim,
          u.deviationAt row col = .nan ∨ u.deviationAt row col ≤ Magnitude.tolerance) ∧
    (∀ g, new name arity u labels = .ok g → g.matrix = u ∧
      (g.matrix.UnitaryWithin Magnitude.tolerance ↔
        ∀ row < u.dim, ∀ col < u.dim, u.deviationAt row col ≠ .nan)) ∧
    ∀ k < u.dim, ∀ j < u.dim, (u.get k j).HasNaN →
      ∀ col < u.dim, u.deviationAt j col = .nan := by
  refine ⟨?accepted, ?unitary, ?hidden⟩
  case accepted =>
    simp only [new_eq_ok_iff, excessDeviation?_eq_none_iff, exists_and_left, exists_eq', and_true]
  case unitary =>
    intro g hg
    obtain ⟨-, -, hpass, rfl⟩ := new_eq_ok_iff.mp hg
    exact ⟨rfl, unitaryWithin_iff hpass⟩
  case hidden =>
    intro k hk j hj hnan col hcol
    exact deviationAt_eq_nan hk hj hcol hnan

/-- The flip, with nothing unknown: accepted, and within the tolerance. -/
theorem unitary_up_to_nan_flip :
    let flip : GateMatrix (Amplitude Float) := ⟨2, #[0, 1, 1, 0]⟩
    (∃ g, new "g" 1 flip ["g"] = .ok g) ∧
      ∀ g, new "g" 1 flip ["g"] = .ok g → g.matrix.UnitaryWithin Magnitude.tolerance := by
  intro flip
  obtain ⟨haccepted, hunitary, -⟩ := unitary_up_to_nan "g" 1 flip ["g"]
  exact ⟨haccepted.mpr ⟨rfl, rfl, by decide +kernel⟩,
    fun g hg => (hunitary g hg).2.mpr (by decide +kernel)⟩

/-- A matrix whose first entry is no number, and whose others are the identity's. -/
def partlyKnown : GateMatrix (Amplitude Float) := ⟨2, #[⟨.nan, 0⟩, 0, 0, 1]⟩

/-- **Not every accepted gate is unitary within the tolerance.** -/
theorem accepted_partlyKnown :
    new "g" 1 partlyKnown ["g"] = .ok ⟨"g", 1, partlyKnown, ["g"]⟩ ∧
      ¬ partlyKnown.deviationAt 0 0 ≤ Magnitude.tolerance ∧
      ¬ partlyKnown.UnitaryWithin Magnitude.tolerance := by
  have hbeyond : ¬ partlyKnown.deviationAt 0 0 ≤ Magnitude.tolerance := by decide +kernel
  refine ⟨new_eq_ok_iff.mpr ⟨rfl, rfl, by decide +kernel, rfl⟩, hbeyond, ?_⟩
  intro hwithin
  exact hbeyond (hwithin 0 (by decide) 0 (by decide))

end CustomGate

end CircuitBroker
