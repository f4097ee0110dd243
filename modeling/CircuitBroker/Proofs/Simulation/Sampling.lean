/-
  CircuitBroker/Proofs/Simulation/Sampling.lean
  =============================================
  **One draw from a list of weights.**

  The running sums of weights cut the interval from zero to their total into one part for
  each position, as long as its weight.  A draw, scaled to the total, falls into the part of
  the position that is sampled (`sampleIndex_eq_iff`), so the positions of a set are sampled
  with the probability of their weights together (`uniformDraw_sampleIndex`).
-/
import CircuitBroker.Proofs.Statevector.Collapse

namespace CircuitBroker

open Statevector

/-! ## 1. Running sums -/

section Sums

variable {ws : List ℝ} {acc r : ℝ}

theorem length_runningSums (acc : ℝ) (ws : List ℝ) : (runningSums acc ws).length = ws.length := by
  induction ws generalizing acc with
  | nil => rfl
  | cons w ws ih => rw [runningSums, List.length_cons, ih, List.length_cons]

theorem getLast?_runningSums (acc : ℝ) (hne : ws ≠ []) :
    (runningSums acc ws).getLast? = some (acc + ws.sum) := by
  induction ws generalizing acc with
  | nil => exact absurd rfl hne
  | cons w ws ih =>
    cases ws with
    | nil => simp [runningSums]
    | cons w' ws =>
      rw [runningSums, runningSums, List.getLast?_cons_cons, ← runningSums, ih _ (by simp),
        List.sum_cons (a := w), add_assoc]

/-- How many running sums a number has reached tells between which two it lies. -/
theorem length_takeWhile_runningSums (hws : ∀ w ∈ ws, 0 ≤ w) (hacc : acc ≤ r) {i : Nat}
    (hi : i < ws.length) :
    ((runningSums acc ws).takeWhile fun c => Magnitude.le c r).length = i ↔
      acc + (ws.take i).sum ≤ r ∧ r < acc + (ws.take (i + 1)).sum := by
  induction ws generalizing acc i with
  | nil => simp at hi
  | cons w ws ih =>
    obtain ⟨hw, hws⟩ := List.forall_mem_cons.mp hws
    rw [runningSums]
    by_cases hreached : acc + w ≤ r
    · rw [List.takeWhile_cons_of_pos (by simpa [Magnitude.le] using hreached), List.length_cons]
      cases i with
      | zero => simpa using fun _ => hreached
      | succ i =>
        rw [Nat.add_right_cancel_iff, ih hws hreached (Nat.lt_of_succ_lt_succ hi)]
        simp only [List.take_succ_cons, List.sum_cons, ← add_assoc]
    · rw [List.takeWhile_cons_of_neg (by simpa [Magnitude.le] using hreached), List.length_nil]
      cases i with
      | zero => simpa using ⟨hacc, not_le.mp hreached⟩
      | succ i =>
        have hrest : 0 ≤ (ws.take i).sum :=
          List.sum_nonneg fun v hv => hws v (List.mem_of_mem_take hv)
        simp only [List.take_succ_cons, List.sum_cons]
        constructor
        · intro h
          cases h
        · rintro ⟨h, -⟩
          linarith

/-- A number below the last running sum has not reached all of them. -/
theorem length_takeWhile_runningSums_lt (hne : ws ≠ []) (hr : r < acc + ws.sum) :
    ((runningSums acc ws).takeWhile fun c => Magnitude.le c r).length < ws.length := by
  induction ws generalizing acc with
  | nil => exact absurd rfl hne
  | cons w ws ih =>
    rw [List.sum_cons, ← add_assoc] at hr
    rw [runningSums, List.length_cons]
    by_cases hreached : acc + w ≤ r
    · rw [List.takeWhile_cons_of_pos (by simpa [Magnitude.le] using hreached), List.length_cons]
      refine Nat.succ_lt_succ (ih ?_ hr)
      rintro rfl
      simp only [List.sum_nil, add_zero] at hr
      linarith
    · rw [List.takeWhile_cons_of_neg (by simpa [Magnitude.le] using hreached)]
      exact Nat.succ_pos _

/-- The draw, scaled to the total, decides how many running sums are passed; the last position
    is never needed as a way out. -/
theorem sampleIndex_eq_length (hpos : 0 < ws.sum) {draw : ℝ} (hdraw : draw < 1) :
    sampleIndex (runningSums 0 ws) draw =
        ((runningSums 0 ws).takeWhile fun c => Magnitude.le c (draw * ws.sum)).length ∧
      sampleIndex (runningSums 0 ws) draw < ws.length := by
  have hne : ws ≠ [] := by
    rintro rfl
    simp at hpos
  have hreach : draw * ws.sum < 0 + ws.sum := by nlinarith
  have hlt := length_takeWhile_runningSums_lt hne hreach
  have heq : sampleIndex (runningSums 0 ws) draw =
      ((runningSums 0 ws).takeWhile fun c => Magnitude.le c (draw * ws.sum)).length := by
    simp only [sampleIndex, getLast?_runningSums 0 hne, Option.getD_some, zero_add,
      length_runningSums]
    exact Nat.min_eq_left (by omega)
  exact ⟨heq, heq ▸ hlt⟩

/-- **A draw falls between the running sums around the position it samples.** -/
theorem sampleIndex_eq_iff (hws : ∀ w ∈ ws, 0 ≤ w) (hpos : 0 < ws.sum) {draw : ℝ} (hdraw : 0 ≤ draw)
    (hdraw' : draw < 1) {i : Nat} (hi : i < ws.length) :
    sampleIndex (runningSums 0 ws) draw = i ↔
      (ws.take i).sum ≤ draw * ws.sum ∧ draw * ws.sum < (ws.take (i + 1)).sum := by
  rw [(sampleIndex_eq_length hpos hdraw').1,
    length_takeWhile_runningSums hws (mul_nonneg hdraw hpos.le) hi, zero_add, zero_add]

end Sums

/-! ## 2. Sampling a state -/

namespace Statevector

variable {n : Nat} {ψ : Statevector (Amplitude ℝ) n}

theorem sum_map_range (f : Nat → ℝ) (count : Nat) :
    ((List.range count).map f).sum = ∑ i ∈ Finset.range count, f i := by
  simp only [Finset.sum, Finset.range, Multiset.range, Multiset.map_coe, Multiset.sum_coe]

theorem sum_take_probabilities (ψ : Statevector (Amplitude ℝ) n) {i : Nat} (hi : i ≤ 2 ^ n) :
    (ψ.probabilities.take i).sum = ∑ j ∈ Finset.range i, ψ.weight j := by
  rw [probabilities_eq, ← List.map_take, List.take_range, min_eq_left hi, sum_map_range]

theorem length_probabilities (ψ : Statevector (Amplitude ℝ) n) : ψ.probabilities.length = 2 ^ n := by
  rw [probabilities_eq, List.length_map, List.length_range]

theorem sum_probabilities (hψ : ψ.totalProbability = 1) : ψ.probabilities.sum = 1 := by
  rw [probabilities_eq, sum_map_range]
  exact hψ

noncomputable def weightBelow (ψ : Statevector (Amplitude ℝ) n) (i : Nat) : ℝ :=
  ∑ j ∈ Finset.range i, ψ.weight j

theorem monotone_weightBelow (ψ : Statevector (Amplitude ℝ) n) : Monotone ψ.weightBelow := by
  refine monotone_nat_of_le_succ fun i => ?_
  rw [weightBelow, weightBelow, Finset.sum_range_succ]
  exact le_add_of_nonneg_right (ψ.weight_nonneg i)

/-- A draw samples the index whose part of the unit interval it lies in. -/
theorem sampleIndex_cumulative_iff (hψ : ψ.totalProbability = 1) {draw : ℝ} (hdraw : 0 ≤ draw)
    (hdraw' : draw < 1) {i : Nat} (hi : i < 2 ^ n) :
    sampleIndex ψ.cumulative draw = i ↔
      draw ∈ Set.Ico (ψ.weightBelow i) (ψ.weightBelow (i + 1)) := by
  have hsum := sum_probabilities hψ
  have hnonneg : ∀ w ∈ ψ.probabilities, 0 ≤ w := by
    rw [probabilities_eq, List.forall_mem_map]
    exact fun i _ => ψ.weight_nonneg i
  rw [cumulative, sampleIndex_eq_iff hnonneg (hsum ▸ one_pos) hdraw hdraw'
    (ψ.length_probabilities ▸ hi), hsum, mul_one, sum_take_probabilities ψ hi.le,
    sum_take_probabilities ψ hi, Set.mem_Ico, weightBelow, weightBelow]

theorem sampleIndex_cumulative_lt (hψ : ψ.totalProbability = 1) {draw : ℝ} (hdraw : draw < 1) :
    sampleIndex ψ.cumulative draw < 2 ^ n := by
  have hlt := (sampleIndex_eq_length (sum_probabilities hψ ▸ one_pos) hdraw).2
  rwa [length_probabilities] at hlt

/-- **Indices are sampled with the probability of their amplitudes.** -/
theorem uniformDraw_sampleIndex (hψ : ψ.totalProbability = 1) (P : Nat → Prop) [DecidablePred P] :
    uniformDraw {draw | P (sampleIndex ψ.cumulative draw)} =
      ENNReal.ofReal (∑ i ∈ Finset.range (2 ^ n) with P i, ψ.weight i) := by
  let part (i : Nat) : Set ℝ := Set.Ico (ψ.weightBelow i) (ψ.weightBelow (i + 1))
  have hparts : ∀ draw : ℝ, 0 ≤ draw → draw < 1 → (P (sampleIndex ψ.cumulative draw) ↔
      draw ∈ ⋃ i ∈ (Finset.range (2 ^ n)).filter P, part i) := by
    intro draw hdraw hdraw'
    simp only [Set.mem_iUnion, Finset.mem_filter, Finset.mem_range, exists_prop]
    constructor
    · intro h
      have hlt := sampleIndex_cumulative_lt hψ hdraw'
      exact ⟨_, ⟨hlt, h⟩, (sampleIndex_cumulative_iff hψ hdraw hdraw' hlt).mp rfl⟩
    · rintro ⟨i, ⟨hi, h⟩, hin⟩
      rwa [(sampleIndex_cumulative_iff hψ hdraw hdraw' hi).mpr hin]
  have hdisjoint : Pairwise (Function.onFun Disjoint part) :=
    ψ.monotone_weightBelow.pairwise_disjoint_on_Ico_succ
  have hpart : ∀ i ∈ (Finset.range (2 ^ n)).filter P,
      uniformDraw (part i) = ENNReal.ofReal (ψ.weight i) := by
    intro i hi
    have hlt := Finset.mem_range.mp (Finset.mem_filter.mp hi).1
    have hlow : 0 ≤ ψ.weightBelow i := Finset.sum_nonneg fun j _ => ψ.weight_nonneg j
    have hhigh : ψ.weightBelow (i + 1) ≤ 1 := (monotone_weightBelow ψ hlt).trans_eq hψ
    rw [uniformDraw_Ico hlow hhigh, weightBelow, weightBelow, Finset.sum_range_succ,
      add_sub_cancel_left]
  rw [uniformDraw_congr (U := {draw | P (sampleIndex ψ.cumulative draw)}) hparts,
    MeasureTheory.measure_biUnion_finset
    (hdisjoint.set_pairwise _) fun _ _ => measurableSet_Ico, Finset.sum_congr rfl hpart,
    ENNReal.ofReal_sum_of_nonneg fun i _ => ψ.weight_nonneg i]

end Statevector

/-- Which position is sampled depends measurably on the draw. -/
theorem measurable_sampleIndex (cumulative : List ℝ) : Measurable (sampleIndex cumulative) := by
  have hlength : ∀ (cs : List ℝ) (total : ℝ),
      Measurable fun draw => (cs.takeWhile fun c => Magnitude.le c (draw * total)).length := by
    intro cs total
    induction cs with
    | nil => exact measurable_const
    | cons c cs ih =>
      have hcons : (fun draw => ((c :: cs).takeWhile fun c => Magnitude.le c (draw * total)).length) =
          fun draw => if c ≤ draw * total then
            (cs.takeWhile fun c => Magnitude.le c (draw * total)).length + 1 else 0 := by
        funext draw
        by_cases h : c ≤ draw * total
        · rw [List.takeWhile_cons_of_pos (by simpa [Magnitude.le] using h), if_pos h, List.length_cons]
        · rw [List.takeWhile_cons_of_neg (by simpa [Magnitude.le] using h), if_neg h, List.length_nil]
      rw [hcons]
      refine Measurable.ite ?_ (ih.add_const 1) measurable_const
      exact measurableSet_le measurable_const (by fun_prop)
  exact (measurable_of_countable fun k => Nat.min k (cumulative.length - 1)).comp
    (hlength cumulative (cumulative.getLast?.getD 0))

end CircuitBroker
