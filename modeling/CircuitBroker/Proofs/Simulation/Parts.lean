/-
  CircuitBroker/Proofs/Simulation/Parts.lean
  ==========================================
  **The unit interval, cut by weights.**

  The running sums of weights are the boundaries of one part for each position, and a weight of
  zero gives a part without points.  A draw, scaled to the total, lies in the part of the
  position it samples and in no other, so the draws of a position are an interval as long as its
  share of the total (`sampleIndex_cuts_unit_interval`).  The sums never fall, so a search that
  halves what is left finds the position too (`sumsReached_runningSums`).
-/
import CircuitBroker.Proofs.Simulation.Sampling

namespace CircuitBroker

open Statevector

/-! ## 1. Searching by halves -/

/-- The least position from `low` on and below `high` that fails a test, and `high` if none does.
    Each step looks at the middle one and drops half of them: the test is passed in front of the
    position sought and failed from there on. -/
def bisect (passes : Nat → Bool) (low high : Nat) : Nat :=
  if low < high then
    let middle := low + (high - low) / 2
    if passes middle then bisect passes (middle + 1) high else bisect passes low middle
  else low
termination_by high - low

theorem bisect_eq {passes : Nat → Bool} {low high i : Nat} (hlow : low ≤ i) (hhigh : i ≤ high)
    (hfront : ∀ j < i, passes j = true) (hback : ∀ j, i ≤ j → j < high → passes j = false) :
    bisect passes low high = i := by
  fun_induction bisect passes low high with
  | case1 low high hlt middle hpass ih =>
    -- a test passed in the middle is passed in front of the position sought only
    refine ih (Nat.lt_of_not_le fun hle => ?_) hhigh hback
    rw [hback middle hle (by omega)] at hpass
    exact Bool.false_ne_true hpass
  | case2 low high hlt middle hpass ih =>
    refine ih hlow (Nat.le_of_not_lt fun hmiddle => hpass (hfront middle hmiddle)) ?_
    exact fun j hij hj => hback j hij (by omega)
  | case3 low high hge => omega

/-- How many of some sums, in ascending order, a number has reached. -/
noncomputable def sumsReached (sums : List ℝ) (r : ℝ) : Nat :=
  bisect (fun i => Magnitude.le (sums.getD i 0) r) 0 sums.length

/-! ## 2. Boundaries -/

/-- Where the part of a position begins: at the sum before it, which is zero for the first. -/
noncomputable def boundary (sums : List ℝ) (i : Nat) : ℝ := (0 :: sums).getD i 0

def part (sums : List ℝ) (i : Nat) : Set ℝ := Set.Ico (boundary sums i) (boundary sums (i + 1))

section Weights

variable {ws : List ℝ}

theorem getElem?_runningSums (acc : ℝ) {i : Nat} (hi : i < ws.length) :
    (runningSums acc ws)[i]? = some (acc + (ws.take (i + 1)).sum) := by
  induction ws generalizing acc i with
  | nil => cases hi
  | cons w ws ih =>
    cases i with
    | zero => simp [runningSums]
    | succ i =>
      rw [runningSums, List.getElem?_cons_succ, ih _ (Nat.lt_of_succ_lt_succ hi),
        List.take_succ_cons (i := i + 1), List.sum_cons, add_assoc]

theorem boundary_runningSums {i : Nat} (hi : i ≤ ws.length) :
    boundary (runningSums 0 ws) i = (ws.take i).sum := by
  cases i with
  | zero => rfl
  | succ i =>
    rw [boundary, List.getD_cons_succ, List.getD_eq_getElem?_getD, getElem?_runningSums 0 hi,
      Option.getD_some, zero_add]

/-- The part of a position is as long as its weight. -/
theorem boundary_succ {i : Nat} {w : ℝ} (hw : ws[i]? = some w) :
    boundary (runningSums 0 ws) (i + 1) = boundary (runningSums 0 ws) i + w := by
  obtain ⟨hi, rfl⟩ := List.getElem?_eq_some_iff.mp hw
  rw [boundary_runningSums hi, boundary_runningSums hi.le, List.take_add_one,
    List.getElem?_eq_getElem hi, Option.toList_some, List.sum_append, List.sum_singleton]

/-- No part begins before the one in front of it. -/
theorem sum_take_mono (hws : ∀ w ∈ ws, 0 ≤ w) {i j : Nat} (h : i ≤ j) :
    (ws.take i).sum ≤ (ws.take j).sum :=
  (List.take_sublist_take_left h).sum_le_sum fun w hw => hws w (List.mem_of_mem_take hw)

/-- Behind the last position there is no part. -/
theorem part_of_length_le (hws : ∀ w ∈ ws, 0 ≤ w) {i : Nat} (hi : ws.length ≤ i) :
    part (runningSums 0 ws) i = ∅ := by
  have hnext : boundary (runningSums 0 ws) (i + 1) = 0 := by
    rw [boundary, List.getD_cons_succ,
      List.getD_eq_default _ _ ((length_runningSums 0 ws).trans_le hi)]
  have hnonneg : 0 ≤ boundary (runningSums 0 ws) i := by
    rcases hi.eq_or_lt with rfl | hlt
    · rw [boundary_runningSums le_rfl, List.take_length]
      exact List.sum_nonneg hws
    · rw [boundary, List.getD_eq_default]
      rw [List.length_cons, length_runningSums]
      exact hlt
  rw [part, hnext]
  exact Set.Ico_eq_empty (not_lt.mpr hnonneg)

/-! ## 3. Sampling -/

/-- **A draw samples the position in whose part it lies.** -/
theorem sampleIndex_eq_iff_mem_part (hws : ∀ w ∈ ws, 0 ≤ w) (hpos : 0 < ws.sum) {draw : ℝ}
    (hdraw : 0 ≤ draw) (hdraw' : draw < 1) (i : Nat) :
    sampleIndex (runningSums 0 ws) draw = i ↔ draw * ws.sum ∈ part (runningSums 0 ws) i := by
  rcases Nat.lt_or_ge i ws.length with hi | hi
  · rw [sampleIndex_eq_iff hws hpos hdraw hdraw' hi, part, Set.mem_Ico, boundary_runningSums hi.le,
      boundary_runningSums hi]
  · rw [part_of_length_le hws hi, Set.mem_empty_iff_false, iff_false]
    exact ((sampleIndex_eq_length hpos hdraw').2.trans_le hi).ne

/-- Searching by halves finds the position that is sampled. -/
theorem sumsReached_runningSums (hws : ∀ w ∈ ws, 0 ≤ w) (hpos : 0 < ws.sum) {draw : ℝ}
    (hdraw : 0 ≤ draw) (hdraw' : draw < 1) :
    sumsReached (runningSums 0 ws) (draw * ws.sum) = sampleIndex (runningSums 0 ws) draw := by
  have hlt := (sampleIndex_eq_length hpos hdraw').2
  obtain ⟨hlow, hhigh⟩ := (sampleIndex_eq_iff hws hpos hdraw hdraw' hlt).mp rfl
  have hsum : ∀ j < ws.length, (runningSums 0 ws).getD j 0 = (ws.take (j + 1)).sum := by
    intro j hj
    rw [List.getD_eq_getElem?_getD, getElem?_runningSums 0 hj, Option.getD_some, zero_add]
  rw [sumsReached]
  refine bisect_eq (Nat.zero_le _) ((length_runningSums 0 ws).symm ▸ hlt.le) ?_ ?_
  · intro j hj
    rw [hsum j (hj.trans hlt)]
    exact decide_eq_true ((sum_take_mono hws hj).trans hlow)
  · intro j hij hj
    rw [length_runningSums] at hj
    rw [hsum j hj]
    exact decide_eq_false (not_le.mpr (hhigh.trans_le (sum_take_mono hws (Nat.succ_le_succ hij))))

/-- The draws that sample a position. -/
theorem setOf_sampleIndex_eq (hws : ∀ w ∈ ws, 0 ≤ w) (hpos : 0 < ws.sum) {i : Nat}
    (hi : i < ws.length) :
    {draw | 0 ≤ draw ∧ draw < 1 ∧ sampleIndex (runningSums 0 ws) draw = i} =
      Set.Ico (boundary (runningSums 0 ws) i / ws.sum)
        (boundary (runningSums 0 ws) (i + 1) / ws.sum) := by
  have hbegin : 0 ≤ boundary (runningSums 0 ws) i := by
    rw [boundary_runningSums hi.le]
    exact List.sum_nonneg fun w hw => hws w (List.mem_of_mem_take hw)
  have hend : boundary (runningSums 0 ws) (i + 1) ≤ ws.sum := by
    rw [boundary_runningSums hi]
    exact (sum_take_mono hws hi).trans_eq (by rw [List.take_length])
  ext draw
  rw [Set.mem_ofPred_eq, Set.mem_Ico, div_le_iff₀ hpos, lt_div_iff₀ hpos]
  constructor
  · rintro ⟨hdraw, hdraw', hsample⟩
    exact (sampleIndex_eq_iff_mem_part hws hpos hdraw hdraw' i).mp hsample
  · rintro ⟨hlow, hhigh⟩
    have hdraw : 0 ≤ draw := nonneg_of_mul_nonneg_left (hbegin.trans hlow) hpos
    have hdraw' : draw < 1 := by
      rw [← mul_lt_iff_lt_one_left hpos]
      exact hhigh.trans_le hend
    exact ⟨hdraw, hdraw', (sampleIndex_eq_iff_mem_part hws hpos hdraw hdraw' i).mpr ⟨hlow, hhigh⟩⟩

end Weights

/-- **Sampling cuts the unit interval into parts.**  The last running sum of weights that are not
    negative is their total.  Where that is positive each draw, scaled to it, lies in the part
    of the position it samples and in no other, and the weight there is positive; the position
    is the number of sums that are reached, also when they are searched by halves, and never
    needs to be brought back into the list.  The draws of a position are an interval as
    long as its weight divided by the total. -/
theorem sampleIndex_cuts_unit_interval {ws : List ℝ} (hws : ∀ w ∈ ws, 0 ≤ w) (hpos : 0 < ws.sum) :
    (runningSums 0 ws).getLast? = some ws.sum ∧
    (∀ draw, 0 ≤ draw → draw < 1 →
      (∀ i, sampleIndex (runningSums 0 ws) draw = i ↔
        draw * ws.sum ∈ part (runningSums 0 ws) i) ∧
      (∃ w, ws[sampleIndex (runningSums 0 ws) draw]? = some w ∧ 0 < w) ∧
      sampleIndex (runningSums 0 ws) draw =
        ((runningSums 0 ws).takeWhile fun c => Magnitude.le c (draw * ws.sum)).length ∧
      sampleIndex (runningSums 0 ws) draw = sumsReached (runningSums 0 ws) (draw * ws.sum) ∧
      sampleIndex (runningSums 0 ws) draw < (runningSums 0 ws).length) ∧
    ∀ i w, ws[i]? = some w →
      {draw | 0 ≤ draw ∧ draw < 1 ∧ sampleIndex (runningSums 0 ws) draw = i} =
          Set.Ico (boundary (runningSums 0 ws) i / ws.sum)
            (boundary (runningSums 0 ws) (i + 1) / ws.sum) ∧
        boundary (runningSums 0 ws) (i + 1) / ws.sum - boundary (runningSums 0 ws) i / ws.sum =
          w / ws.sum := by
  have hne : ws ≠ [] := by
    rintro rfl
    simp at hpos
  refine ⟨?_, fun draw hdraw hdraw' => ?_, fun i w hw => ?_⟩
  · rw [getLast?_runningSums 0 hne, zero_add]
  · have hpart := sampleIndex_eq_iff_mem_part hws hpos hdraw hdraw'
    obtain ⟨hlength, hlt⟩ := sampleIndex_eq_length hpos hdraw'
    have hw := List.getElem?_eq_getElem hlt
    refine ⟨hpart, ⟨_, hw, ?_⟩, hlength, (sumsReached_runningSums hws hpos hdraw hdraw').symm,
      hlt.trans_eq (length_runningSums 0 ws).symm⟩
    obtain ⟨hlow, hhigh⟩ := (hpart _).mp rfl
    rw [boundary_succ hw] at hhigh
    linarith
  · have hi : i < ws.length := (List.getElem?_eq_some_iff.mp hw).1
    refine ⟨setOf_sampleIndex_eq hws hpos hi, ?_⟩
    rw [boundary_succ hw, add_div, add_sub_cancel_left]

def sparseWeights : List ℝ := [0, 1, 0, 0, 3, 0]

/-- A draw on the boundary that three positions share samples the one with a weight. -/
theorem sampleIndex_cuts_unit_interval_sparse :
    (∀ w ∈ sparseWeights, 0 ≤ w) ∧ 0 < sparseWeights.sum ∧
      sampleIndex (runningSums 0 sparseWeights) (1 / 4) = 4 ∧
      {draw | 0 ≤ draw ∧ draw < 1 ∧ sampleIndex (runningSums 0 sparseWeights) draw = 2} = ∅ := by
  have hws : ∀ w ∈ sparseWeights, 0 ≤ w := by simp [sparseWeights]
  have htotal : sparseWeights.sum = 4 := by norm_num [sparseWeights]
  have hpos : 0 < sparseWeights.sum := by rw [htotal]; norm_num
  obtain ⟨-, hdraws, hintervals⟩ := sampleIndex_cuts_unit_interval hws hpos
  refine ⟨hws, hpos, ?_, ?_⟩
  · rw [(hdraws (1 / 4) (by norm_num) (by norm_num)).1, htotal]
    norm_num [part, boundary, sparseWeights, runningSums]
  · obtain ⟨hset, hlength⟩ := hintervals 2 0 rfl
    rw [zero_div, sub_eq_zero] at hlength
    rw [hset, hlength, Set.Ico_self]

end CircuitBroker
