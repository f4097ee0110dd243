/-
  CircuitBroker/Proofs/Statevector/Collapse.lean
  ==============================================
  **Measurements one after the other.**

  A measurement finds a value with the probability of the indices that have it, and leaves
  the amplitudes of these, divided by what makes their probabilities sum to one again.  So
  the probability of a value times that of an index afterwards is that of the index before,
  or nothing where the index has the other value (`mul_weight_collapse`).  By induction on the
  measurements, the probabilities of their outcomes multiply to that of the indices that
  have all of them (`chainProbability_eq`).
-/
import CircuitBroker.Proofs.Simulation.UniformDraws
import CircuitBroker.Proofs.Statevector.Basis
import CircuitBroker.Proofs.Statevector.Range

namespace CircuitBroker

/-! ## 1. Probabilities as sums -/

namespace Amplitude

theorem normSq_nonneg (a : Amplitude ℝ) : 0 ≤ a.normSq :=
  add_nonneg (mul_self_nonneg a.re) (mul_self_nonneg a.im)

theorem normSq_zero : (0 : Amplitude ℝ).normSq = 0 := by simp [normSq]

theorem normSq_divide (a : Amplitude ℝ) (x : ℝ) : (a.divide x).normSq = a.normSq / (x * x) := by
  simp only [normSq, divide]
  ring

end Amplitude

namespace Statevector

open Amplitude

variable {n : Nat} {ψ : Statevector (Amplitude ℝ) n} {q : Nat} {b : Bool}

noncomputable def weight (ψ : Statevector (Amplitude ℝ) n) (i : Nat) : ℝ := (ψ.amplitude i).normSq

noncomputable def totalProbability (ψ : Statevector (Amplitude ℝ) n) : ℝ :=
  ∑ i ∈ Finset.range (2 ^ n), ψ.weight i

theorem weight_nonneg (ψ : Statevector (Amplitude ℝ) n) (i : Nat) : 0 ≤ ψ.weight i :=
  normSq_nonneg _

theorem probabilities_eq (ψ : Statevector (Amplitude ℝ) n) :
    ψ.probabilities = (List.range (2 ^ n)).map ψ.weight := by
  rw [probabilities]
  apply List.ext_getElem
  · simp [ψ.size_amplitudes, Nat.one_shiftLeft]
  · intro i hi _
    have hsize : i < ψ.amplitudes.size := by simpa using hi
    simp [weight, amplitude, Array.getD, hsize]

theorem probabilityOne_eq (ψ : Statevector (Amplitude ℝ) n) (q : Nat) :
    ψ.probabilityOne q = ∑ i ∈ Finset.range (2 ^ n) with i.testBit q = true, ψ.weight i := by
  rw [probabilityOne, probabilities_eq, zipIdx_map_range, List.filter_map, List.map_map,
    ← List.sum_eq_foldl]
  simp only [Finset.sum, Finset.filter, Finset.range, Multiset.range, Multiset.filter_coe,
    Multiset.map_coe, Multiset.sum_coe, Function.comp_def]
  simp only [Bool.decide_eq_true]

/-! ## 2. One measurement -/

/-- The probability that a measurement finds a value, as it is computed. -/
noncomputable def branchProbability (ψ : Statevector (Amplitude ℝ) n) (q : Nat) (b : Bool) : ℝ :=
  if b then ψ.probabilityOne q else 1 - ψ.probabilityOne q

/-- The state that a measurement leaves when it finds a value. -/
noncomputable def collapse (ψ : Statevector (Amplitude ℝ) n) (q : Nat) (b : Bool) :
    Statevector (Amplitude ℝ) n :=
  ψ.project q b (Elementary.sqrt (ψ.branchProbability q b))

theorem measure_eq (ψ : Statevector (Amplitude ℝ) n) (q : Nat) (draw : ℝ) :
    ψ.measure q draw = (decide (draw < ψ.probabilityOne q),
      ψ.collapse q (decide (draw < ψ.probabilityOne q))) := rfl

/-- A measurement never finds a value that has no probability. -/
theorem branchProbability_measure_pos (ψ : Statevector (Amplitude ℝ) n) {draw : ℝ}
    (hdraw : 0 ≤ draw) (hdraw' : draw < 1) (q : Nat) :
    0 < ψ.branchProbability q (ψ.measure q draw).1 := by
  rw [measure_eq]
  by_cases hlt : draw < ψ.probabilityOne q
  · rw [decide_eq_true hlt, branchProbability, if_pos rfl]
    exact hdraw.trans_lt hlt
  · rw [decide_eq_false hlt, branchProbability, if_neg Bool.false_ne_true]
    linarith

theorem branchProbability_eq (hψ : ψ.totalProbability = 1) (q : Nat) (b : Bool) :
    ψ.branchProbability q b = ∑ i ∈ Finset.range (2 ^ n) with i.testBit q = b, ψ.weight i := by
  have hsplit := Finset.sum_filter_add_sum_filter_not (Finset.range (2 ^ n))
    (fun i => i.testBit q = true) ψ.weight
  rw [← probabilityOne_eq, ← totalProbability, hψ] at hsplit
  cases b with
  | true => exact probabilityOne_eq ψ q
  | false =>
    simp only [Bool.not_eq_true] at hsplit
    rw [branchProbability, if_neg Bool.false_ne_true]
    linarith

theorem branchProbability_nonneg (hψ : ψ.totalProbability = 1) (q : Nat) (b : Bool) :
    0 ≤ ψ.branchProbability q b := by
  rw [branchProbability_eq hψ]
  exact Finset.sum_nonneg fun i _ => ψ.weight_nonneg i

theorem probabilityOne_le_one (hψ : ψ.totalProbability = 1) (q : Nat) : ψ.probabilityOne q ≤ 1 := by
  have := branchProbability_nonneg hψ q false
  rw [branchProbability, if_neg Bool.false_ne_true] at this
  linarith

/-- **The probability of a value times that of an index after it** is that of the index
    before, as far as the index has the value. -/
theorem mul_weight_collapse (hψ : ψ.totalProbability = 1) (q : Nat) (b : Bool) {i : Nat}
    (hi : i < 2 ^ n) : ψ.branchProbability q b * (ψ.collapse q b).weight i =
      if i.testBit q = b then ψ.weight i else 0 := by
  have hnonneg := branchProbability_nonneg hψ q b
  rw [weight, collapse, amplitude_project _ _ _ _ hi]
  by_cases hbit : i.testBit q = b
  · rw [if_pos hbit, if_pos hbit]
    rcases hnonneg.eq_or_lt with hzero | hpos
    · -- nothing is divided, as all indices with the value are impossible
      have hle : ψ.weight i ≤ ψ.branchProbability q b := by
        rw [branchProbability_eq hψ]
        exact Finset.single_le_sum (fun j _ => ψ.weight_nonneg j)
          (Finset.mem_filter.mpr ⟨Finset.mem_range.mpr hi, hbit⟩)
      rw [← hzero, zero_mul]
      exact le_antisymm (ψ.weight_nonneg i) (hle.trans_eq hzero.symm)
    · have hroot : 0 < √(ψ.branchProbability q b) := Real.sqrt_pos.mpr hpos
      have hlt : Magnitude.lt 0 (Elementary.sqrt (ψ.branchProbability q b)) = true :=
        decide_eq_true hroot
      rw [if_pos hlt, normSq_divide]
      change _ * (_ / (√(ψ.branchProbability q b) * √(ψ.branchProbability q b))) = _
      rw [Real.mul_self_sqrt hnonneg, mul_div_cancel₀ _ hpos.ne', weight]
  · rw [if_neg hbit, if_neg hbit, normSq_zero, mul_zero]

/-- Sums over indices before and after a measurement. -/
theorem mul_sum_collapse (hψ : ψ.totalProbability = 1) (q : Nat) (b : Bool) (P : Nat → Prop)
    [DecidablePred P] :
    ψ.branchProbability q b * ∑ i ∈ Finset.range (2 ^ n) with P i, (ψ.collapse q b).weight i =
      ∑ i ∈ Finset.range (2 ^ n) with i.testBit q = b ∧ P i, ψ.weight i := by
  have hweight := fun i (hi : i ∈ (Finset.range (2 ^ n)).filter P) =>
    mul_weight_collapse hψ q b (Finset.mem_range.mp (Finset.mem_filter.mp hi).1)
  rw [Finset.mul_sum, Finset.sum_congr rfl hweight, ← Finset.sum_filter, Finset.filter_filter]
  simp only [and_comm]

theorem sum_true_add_sum_false (f : Nat → ℝ) (q : Nat) (P : Nat → Prop) [DecidablePred P] :
    ∑ i ∈ Finset.range (2 ^ n) with i.testBit q = true ∧ P i, f i +
        ∑ i ∈ Finset.range (2 ^ n) with i.testBit q = false ∧ P i, f i =
      ∑ i ∈ Finset.range (2 ^ n) with P i, f i := by
  have hsplit := Finset.sum_filter_add_sum_filter_not ((Finset.range (2 ^ n)).filter P)
    (fun i => i.testBit q = true) f
  simp only [Finset.filter_filter, Bool.not_eq_true, and_comm] at hsplit ⊢
  exact hsplit

/-- After a value that is possible, the probabilities again sum to one. -/
theorem totalProbability_collapse (hψ : ψ.totalProbability = 1) (q : Nat) (b : Bool)
    (hpossible : ψ.branchProbability q b ≠ 0) : (ψ.collapse q b).totalProbability = 1 := by
  have hsum := mul_sum_collapse hψ q b fun _ => True
  simp only [Finset.filter_true, and_true, ← branchProbability_eq hψ] at hsum
  exact mul_left_cancel₀ hpossible (hsum.trans (mul_one _).symm)

/-! ## 3. One measurement after the other -/

/-- The probability with which measuring a qubit gives a value, over a uniform draw. -/
noncomputable def outcomeProbability (ψ : Statevector (Amplitude ℝ) n) (q : Nat) (b : Bool) : ℝ :=
  uniformDraw.real {draw | ∃ φ, ψ.measure? q draw = .ok (b, φ)}

theorem uniformDraw_measure (hψ : ψ.totalProbability = 1) (q : Nat) (b : Bool) :
    uniformDraw {draw | (ψ.measure q draw).1 = b} =
      ENNReal.ofReal (ψ.branchProbability q b) := by
  cases b with
  | true =>
    simp only [measure_eq, decide_eq_true_eq]
    exact uniformDraw_lt (probabilityOne_le_one hψ q)
  | false =>
    simp only [measure_eq, decide_eq_false_iff_not]
    refine uniformDraw_ge ?_
    rw [probabilityOne_eq]
    exact Finset.sum_nonneg fun i _ => ψ.weight_nonneg i

theorem outcomeProbability_eq (hψ : ψ.totalProbability = 1) {q : Nat} (hq : q < 64) (b : Bool) :
    ψ.outcomeProbability q b = ψ.branchProbability q b := by
  have hfound : {draw | ∃ φ, ψ.measure? q draw = .ok (b, φ)} =
      {draw | (ψ.measure q draw).1 = b} := by
    ext draw
    constructor
    · rintro ⟨φ, hmeasure⟩
      exact congrArg Prod.fst (measure?_eq_ok_iff.mp hmeasure).2
    · rintro rfl
      exact ⟨_, measure?_eq_ok_iff.mpr ⟨hq, rfl⟩⟩
  rw [outcomeProbability, hfound, MeasureTheory.measureReal_def, uniformDraw_measure hψ,
    ENNReal.toReal_ofReal (branchProbability_nonneg hψ q b)]

/-- The product of the probabilities with which measurements, one after the other, give
    some values: each is measured in the state that the one before it leaves. -/
noncomputable def chainProbability : Statevector (Amplitude ℝ) n → List (Nat × Bool) → ℝ
  | _, [] => 1
  | ψ, (q, b) :: found => ψ.outcomeProbability q b * chainProbability (ψ.collapse q b) found

/-- **Probabilities of successive outcomes multiply to that of the indices that have all of
    them.** -/
theorem chainProbability_eq (found : List (Nat × Bool)) :
    ∀ {ψ : Statevector (Amplitude ℝ) n}, ψ.totalProbability = 1 → (∀ m ∈ found, m.1 < 64) →
      ψ.chainProbability found = ∑ i ∈ Finset.range (2 ^ n) with
        (∀ m ∈ found, i.testBit m.1 = m.2), ψ.weight i := by
  induction found with
  | nil =>
    intro ψ hψ _
    simpa [chainProbability, totalProbability] using hψ.symm
  | cons m found ih =>
    intro ψ hψ hwords
    obtain ⟨q, b⟩ := m
    obtain ⟨hq, hrest⟩ := List.forall_mem_cons.mp hwords
    rw [chainProbability, outcomeProbability_eq hψ hq]
    simp only [List.forall_mem_cons]
    rw [← mul_sum_collapse hψ]
    by_cases hpossible : ψ.branchProbability q b = 0
    · rw [hpossible, zero_mul, zero_mul]
    · rw [ih (totalProbability_collapse hψ q b hpossible) hrest]

end Statevector

end CircuitBroker
