/-
  CircuitBroker/Proofs/Simulation/UniformDraws.lean
  =================================================
  **Independent draws from the unit interval.**

  `uniformDraws` is the law of a sequence of independent draws, each uniform on the interval
  from zero to one.  The first draw is independent of those after it, and these have the law
  of the whole (`map_symm_splitDraws`), so an event that looks at the first draw and then
  at the others has a product as its probability.
-/
import Mathlib

namespace CircuitBroker

open MeasureTheory Set

noncomputable def uniformDraw : Measure ℝ := volume.restrict (Ico 0 1)

instance : IsProbabilityMeasure uniformDraw := ⟨by simp [uniformDraw]⟩

noncomputable def uniformDraws : Measure (ℕ → ℝ) := Measure.infinitePi fun _ => uniformDraw

instance : IsProbabilityMeasure uniformDraws := by
  unfold uniformDraws
  infer_instance

/-! ## 1. One draw -/

theorem uniformDraw_apply (U : Set ℝ) : uniformDraw U = volume (U ∩ Ico 0 1) :=
  Measure.restrict_apply' measurableSet_Ico

/-- **A draw lies between two points of the unit interval as often as they are apart.** -/
theorem uniformDraw_Ico {a b : ℝ} (ha : 0 ≤ a) (hb : b ≤ 1) :
    uniformDraw (Ico a b) = ENNReal.ofReal (b - a) := by
  rw [uniformDraw_apply, Ico_inter_Ico, max_eq_left ha, min_eq_left hb, Real.volume_Ico]

/-- Only draws from the unit interval count. -/
theorem uniformDraw_congr {U V : Set ℝ} (h : ∀ u, 0 ≤ u → u < 1 → (u ∈ U ↔ u ∈ V)) :
    uniformDraw U = uniformDraw V := by
  rw [uniformDraw_apply, uniformDraw_apply]
  congr 1
  ext u
  constructor
  · rintro ⟨hu, hunit⟩
    exact ⟨(h u hunit.1 hunit.2).mp hu, hunit⟩
  · rintro ⟨hu, hunit⟩
    exact ⟨(h u hunit.1 hunit.2).mpr hu, hunit⟩

theorem uniformDraw_lt {p : ℝ} (hp : p ≤ 1) : uniformDraw {u | u < p} = ENNReal.ofReal p := by
  rw [uniformDraw_congr (V := Ico 0 p) fun u hu _ => by simp [hu], uniformDraw_Ico le_rfl hp,
    sub_zero]

theorem uniformDraw_ge {p : ℝ} (hp : 0 ≤ p) :
    uniformDraw {u | ¬ u < p} = ENNReal.ofReal (1 - p) := by
  rw [uniformDraw_congr (V := Ico p 1) fun u _ hu => by simp [hu], uniformDraw_Ico hp le_rfl]

/-! ## 2. The first draw and the others -/

def splitDraws : (ℕ → ℝ) ≃ᵐ ℝ × (ℕ → ℝ) where
  toFun draws := (draws 0, fun k => draws (k + 1))
  invFun parts := fun k => k.casesOn parts.1 parts.2
  left_inv draws := by
    funext k
    cases k <;> rfl
  right_inv _ := rfl
  measurable_toFun := by
    change Measurable fun draws : ℕ → ℝ => (draws 0, fun k => draws (k + 1))
    fun_prop
  measurable_invFun := by
    refine measurable_pi_iff.mpr fun k => ?_
    cases k with
    | zero => exact measurable_fst
    | succ k => exact (measurable_pi_apply k).comp measurable_snd

/-- **The first draw and the others are independent, and the others are again such a
    sequence.** -/
theorem map_symm_splitDraws :
    (uniformDraw.prod uniformDraws).map splitDraws.symm = uniformDraws := by
  refine Measure.eq_infinitePi _ fun s t ht => ?_
  -- a box over finitely many draws, taken as one over all draws up to a number
  obtain ⟨N, hN⟩ : ∃ N, s ⊆ Finset.range (N + 1) :=
    ⟨s.sup id, fun k hk => Finset.mem_range.mpr (Nat.lt_succ_of_le (Finset.le_sup (f := id) hk))⟩
  let side : ℕ → Set ℝ := fun k => if k ∈ s then t k else univ
  have hside : ∀ k, MeasurableSet (side k) := by
    intro k
    by_cases hk : k ∈ s
    · simpa [side, hk] using ht k
    · simp [side, hk]
  have hbox : preimage splitDraws.symm ((s : Set ℕ).pi t) =
      side 0 ×ˢ ((Finset.range N : Set ℕ).pi fun k => side (k + 1)) := by
    ext ⟨first, others⟩
    constructor
    · intro h
      have hin : ∀ k, splitDraws.symm (first, others) k ∈ side k := by
        intro k
        by_cases hk : k ∈ s
        · simpa only [side, if_pos hk] using h k hk
        · simp only [side, if_neg hk, mem_univ]
      exact ⟨hin 0, fun k _ => hin (k + 1)⟩
    · rintro ⟨hfirst, hothers⟩ k hk
      have hk' : k ∈ s := hk
      cases k with
      | zero =>
        simp only [side, if_pos hk'] at hfirst
        exact hfirst
      | succ k =>
        have hlt := Nat.lt_of_succ_lt_succ (Finset.mem_range.mp (hN hk'))
        have hin := hothers k (Finset.mem_coe.mpr (Finset.mem_range.mpr hlt))
        simp only [side, if_pos hk'] at hin
        exact hin
  rw [MeasurableEquiv.map_apply, hbox, Measure.prod_prod, uniformDraws,
    Measure.infinitePi_pi _ fun k _ => hside (k + 1)]
  rw [mul_comm, ← Finset.prod_range_succ' (fun k => uniformDraw (side k))]
  refine (Finset.prod_subset_one_on_sdiff hN (fun k hk => ?_) fun k hk => ?_).symm
  · rw [Finset.mem_sdiff] at hk
    simp only [side, if_neg hk.2, measure_univ]
  · simp only [side, if_pos hk]

/-- The probability of an event of the first draw and one of the others. -/
theorem uniformDraws_split (U : Set ℝ) (A : Set (ℕ → ℝ)) :
    uniformDraws {draws | draws 0 ∈ U ∧ (fun k => draws (k + 1)) ∈ A} =
      uniformDraw U * uniformDraws A := by
  conv_lhs => rw [← map_symm_splitDraws]
  rw [MeasurableEquiv.map_apply]
  exact Measure.prod_prod U A

/-! ## 3. Events that the first draw chooses -/

theorem measurableSet_below (p : ℝ) : MeasurableSet {draws : ℕ → ℝ | draws 0 < p} :=
  measurableSet_lt (measurable_pi_apply 0) measurable_const

/-- An event of the other draws, one where the first draw is below a point and another where
    it is not. -/
theorem uniformDraws_choice (p : ℝ) (A : Bool → Set (ℕ → ℝ)) :
    uniformDraws {draws | (fun k => draws (k + 1)) ∈ A (decide (draws 0 < p))} =
      uniformDraw {draw | draw < p} * uniformDraws (A true) +
        uniformDraw {draw | ¬ draw < p} * uniformDraws (A false) := by
  let event : Set (ℕ → ℝ) := {draws | (fun k => draws (k + 1)) ∈ A (decide (draws 0 < p))}
  have hbelow : event ∩ {draws | draws 0 < p} =
      {draws | draws 0 ∈ {draw | draw < p} ∧ (fun k => draws (k + 1)) ∈ A true} := by
    ext draws
    by_cases hlt : draws 0 < p <;> simp [event, hlt]
  have habove : event \ {draws | draws 0 < p} =
      {draws | draws 0 ∈ {draw | ¬ draw < p} ∧ (fun k => draws (k + 1)) ∈ A false} := by
    ext draws
    by_cases hlt : draws 0 < p <;> simp [event, hlt, -not_lt]
  rw [← uniformDraws_split, ← uniformDraws_split, ← hbelow, ← habove]
  exact (measure_inter_add_sdiff event (measurableSet_below p)).symm

theorem measurableSet_choice (p : ℝ) {A : Bool → Set (ℕ → ℝ)} (hA : ∀ b, MeasurableSet (A b)) :
    MeasurableSet {draws : ℕ → ℝ | (fun k => draws (k + 1)) ∈ A (decide (draws 0 < p))} := by
  have hothers : Measurable fun (draws : ℕ → ℝ) k => draws (k + 1) := by fun_prop
  have hparts : {draws : ℕ → ℝ | (fun k => draws (k + 1)) ∈ A (decide (draws 0 < p))} =
      {draws | draws 0 < p}.ite {draws | (fun k => draws (k + 1)) ∈ A true}
        {draws | (fun k => draws (k + 1)) ∈ A false} := by
    ext draws
    by_cases hlt : draws 0 < p <;> simp [Set.ite, hlt]
  rw [hparts]
  exact (measurableSet_below p).ite (hothers (hA true)) (hothers (hA false))

end CircuitBroker
