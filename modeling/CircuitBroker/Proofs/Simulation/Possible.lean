/-
  CircuitBroker/Proofs/Simulation/Possible.lean
  =============================================
  **Only what is possible is counted.**

  Steps executed in order, each measurement a projection onto one of its values, record an event
  with a probability (`executionProbability`).  A shot of a circuit of unitary gates records
  nothing that has no probability, whether it goes through the steps (`shot_possible`) or samples
  the last state (`sample_possible`).  So a run counts as many outcomes as there
  are shots, and only possible ones (`runFrom_possible`).
-/
import CircuitBroker.Proofs.Counts.Occurrences
import CircuitBroker.Proofs.Native.Measured
import CircuitBroker.Proofs.Simulation.Builder
import CircuitBroker.Proofs.Simulation.Distribution
import CircuitBroker.Proofs.Statevector.Unitary

namespace CircuitBroker

open Simulator Statevector

/-! ## 1. Projections -/

namespace Amplitude

theorem normSq_ofReal_mul (x : ℝ) (a : Amplitude ℝ) : (ofReal x * a).normSq = x * x * a.normSq := by
  simp only [normSq, ofReal, mul_re, mul_im]
  ring

theorem eq_zero_of_normSq_eq_zero {a : Amplitude ℝ} (h : a.normSq = 0) : a = 0 := by
  rw [normSq, add_eq_zero_iff_of_nonneg (mul_self_nonneg _) (mul_self_nonneg _)] at h
  obtain ⟨hre, him⟩ := h
  ext
  · exact mul_self_eq_zero.mp hre
  · exact mul_self_eq_zero.mp him

theorem ofReal_mul_divide {x : ℝ} (hx : x ≠ 0) (a : Amplitude ℝ) : ofReal x * a.divide x = a := by
  ext
  · simp only [ofReal, divide, mul_re]
    field_simp
    ring
  · simp only [ofReal, divide, mul_im]
    field_simp
    ring

end Amplitude

namespace Statevector

open Amplitude (ofReal)

variable {n : Nat} {ψ φ : Statevector (Amplitude ℝ) n}

noncomputable def restrict (ψ : Statevector (Amplitude ℝ) n) (q : Nat) (b : Bool) :
    Statevector (Amplitude ℝ) n where
  amplitudes := ψ.amplitudes.mapIdx fun i a => if i.testBit q = b then a else 0
  size_amplitudes := by rw [Array.size_mapIdx, ψ.size_amplitudes]

theorem amplitude_restrict (ψ : Statevector (Amplitude ℝ) n) (q : Nat) (b : Bool) {i : Nat}
    (hi : i < 2 ^ n) :
    (ψ.restrict q b).amplitude i = if i.testBit q = b then ψ.amplitude i else 0 := by
  have hsize : i < ψ.amplitudes.size := by rwa [ψ.size_amplitudes, Nat.one_shiftLeft]
  simp [amplitude, restrict, Array.getD, hsize]

theorem weight_restrict (ψ : Statevector (Amplitude ℝ) n) (q : Nat) (b : Bool) {i : Nat}
    (hi : i < 2 ^ n) : (ψ.restrict q b).weight i = if i.testBit q = b then ψ.weight i else 0 := by
  rw [weight, amplitude_restrict ψ q b hi, weight]
  split
  · rfl
  · exact Amplitude.normSq_zero

theorem sum_weight_restrict (ψ : Statevector (Amplitude ℝ) n) (q : Nat) (b : Bool) (P : Nat → Prop)
    [DecidablePred P] : ∑ i ∈ Finset.range (2 ^ n) with P i, (ψ.restrict q b).weight i =
      ∑ i ∈ Finset.range (2 ^ n) with i.testBit q = b ∧ P i, ψ.weight i := by
  have hweight := fun i (hi : i ∈ (Finset.range (2 ^ n)).filter P) =>
    ψ.weight_restrict q b (Finset.mem_range.mp (Finset.mem_filter.mp hi).1)
  rw [Finset.sum_congr rfl hweight, ← Finset.sum_filter, Finset.filter_filter]
  simp only [and_comm]

def IsMultiple (x : ℝ) (φ ψ : Statevector (Amplitude ℝ) n) : Prop :=
  ∀ i < 2 ^ n, φ.amplitude i = ofReal x * ψ.amplitude i

namespace IsMultiple

variable {x : ℝ}

theorem totalProbability (h : IsMultiple x φ ψ) :
    φ.totalProbability = x * x * ψ.totalProbability := by
  rw [Statevector.totalProbability, Statevector.totalProbability, Finset.mul_sum]
  refine Finset.sum_congr rfl fun i hi => ?_
  rw [weight, h i (Finset.mem_range.mp hi), Amplitude.normSq_ofReal_mul, weight]

theorem applyMatrix (h : IsMultiple x φ ψ) (m : GateMatrix (Amplitude ℝ))
    {targets controls : List Nat} (hnodup : (controls ++ targets).Nodup)
    (hlt : ∀ q ∈ targets, q < n) :
    IsMultiple x (φ.applyMatrix m targets controls) (ψ.applyMatrix m targets controls) := by
  intro i hi
  rw [amplitude_applyMatrix φ m hnodup hi hlt, amplitude_applyMatrix ψ m hnodup hi hlt]
  split
  · rw [Finset.mul_sum]
    refine Finset.sum_congr rfl fun c _ => ?_
    rw [h _ (replaceBits_lt hlt hi), mul_left_comm]
  · exact h i hi

theorem restrict (h : IsMultiple x φ ψ) (q : Nat) (b : Bool) :
    IsMultiple x (φ.restrict q b) (ψ.restrict q b) := by
  intro i hi
  rw [amplitude_restrict φ q b hi, amplitude_restrict ψ q b hi, mul_ite, mul_zero, h i hi]

end IsMultiple

/-- **What a measurement leaves is the projection**, up to the root of its probability. -/
theorem isMultiple_restrict_collapse (hψ : ψ.totalProbability = 1) (q : Nat) (b : Bool) :
    IsMultiple √(ψ.branchProbability q b) (ψ.restrict q b) (ψ.collapse q b) := by
  intro i hi
  rw [amplitude_restrict ψ q b hi, collapse, amplitude_project _ _ _ _ hi]
  by_cases hbit : i.testBit q = b
  · rw [if_pos hbit, if_pos hbit]
    rcases (branchProbability_nonneg hψ q b).eq_or_lt with hzero | hpos
    · -- an impossible value has no amplitude to begin with
      have hle : ψ.weight i ≤ ψ.branchProbability q b := by
        rw [branchProbability_eq hψ]
        exact Finset.single_le_sum (fun j _ => ψ.weight_nonneg j)
          (Finset.mem_filter.mpr ⟨Finset.mem_range.mpr hi, hbit⟩)
      have hamplitude : ψ.amplitude i = 0 :=
        Amplitude.eq_zero_of_normSq_eq_zero
          (le_antisymm (hle.trans_eq hzero.symm) (ψ.weight_nonneg i))
      have hroot : ofReal √(ψ.branchProbability q b) = (0 : Amplitude ℝ) := by
        rw [← hzero, Real.sqrt_zero]
        rfl
      rw [hroot, zero_mul, hamplitude]
    · have hroot : 0 < √(ψ.branchProbability q b) := Real.sqrt_pos.mpr hpos
      have hlt : Magnitude.lt 0 (Elementary.sqrt (ψ.branchProbability q b)) = true :=
        decide_eq_true hroot
      rw [if_pos hlt]
      exact (Amplitude.ofReal_mul_divide hroot.ne' _).symm
  · rw [if_neg hbit, if_neg hbit, mul_zero]

end Statevector

/-! ## 2. Executions -/

section Executions

variable {n : Nat} {steps : List (LoweredStep (Amplitude ℝ))} {ψ φ : Statevector (Amplitude ℝ) n}
  {P : (Nat → Bool) → Prop} [DecidablePred P] {register : Nat → Bool}

/-- The probability that steps executed in order record an event: gates change the state, and each
    measurement projects it onto either of its values. -/
noncomputable def executionProbability (P : (Nat → Bool) → Prop) [DecidablePred P] :
    List (LoweredStep (Amplitude ℝ)) → Statevector (Amplitude ℝ) n → (Nat → Bool) → ℝ
  | [], ψ, register => if P register then ψ.totalProbability else 0
  | .gate m targets controls :: steps, ψ, register =>
    executionProbability P steps (ψ.applyMatrix m targets controls) register
  | .measure q :: steps, ψ, register =>
    ∑ b : Bool, executionProbability P steps (ψ.restrict q b) (record register q b)

theorem executionProbability_nonneg (steps : List (LoweredStep (Amplitude ℝ)))
    (ψ : Statevector (Amplitude ℝ) n) (register : Nat → Bool) :
    0 ≤ executionProbability P steps ψ register := by
  induction steps generalizing ψ register with
  | nil =>
    rw [executionProbability]
    split
    · exact Finset.sum_nonneg fun i _ => ψ.weight_nonneg i
    · exact le_rfl
  | cons s steps ih =>
    cases s with
    | gate m targets controls => exact ih _ _
    | measure q => exact Finset.sum_nonneg fun b _ => ih _ _

theorem executionProbability_of_isMultiple (hsteps : ∀ s ∈ steps, s.IsUnitary n) {x : ℝ}
    (h : IsMultiple x φ ψ) (register : Nat → Bool) :
    executionProbability P steps φ register = x * x * executionProbability P steps ψ register := by
  induction steps generalizing φ ψ register with
  | nil =>
    rw [executionProbability, executionProbability, h.totalProbability, mul_ite, mul_zero]
  | cons s steps ih =>
    obtain ⟨hs, hrest⟩ := List.forall_mem_cons.mp hsteps
    cases s with
    | gate m targets controls => exact ih hrest (h.applyMatrix m hs.nodup hs.targets_lt) register
    | measure q =>
      rw [executionProbability, executionProbability, Finset.mul_sum]
      exact Finset.sum_congr rfl fun b _ => ih hrest (h.restrict q b) _

/-- Before the first measurement nothing is decided. -/
theorem executionProbability_gates {gates : List (LoweredStep (Amplitude ℝ))}
    (hgates : ∀ s ∈ gates, s.measured? = none) (rest : List (LoweredStep (Amplitude ℝ)))
    (ψ : Statevector (Amplitude ℝ) n) (register : Nat → Bool) :
    executionProbability P (gates ++ rest) ψ register =
      executionProbability P rest (applyGates ψ gates) register := by
  induction gates generalizing ψ with
  | nil => rfl
  | cons s gates ih =>
    obtain ⟨hs, hmore⟩ := List.forall_mem_cons.mp hgates
    cases s with
    | gate m targets controls => exact ih hmore _
    | measure q => cases hs

/-- **Measurements alone** record what the indices have, each as often as it is probable. -/
theorem executionProbability_measurements (qubits : List Nat) (ψ : Statevector (Amplitude ℝ) n)
    (register : Nat → Bool) :
    executionProbability P (qubits.map .measure) ψ register =
      ∑ i ∈ Finset.range (2 ^ n) with P (fun p => if p ∈ qubits then i.testBit p else register p),
        ψ.weight i := by
  induction qubits generalizing ψ register with
  | nil =>
    simp only [List.map_nil, executionProbability, List.not_mem_nil, if_false, Finset.sum_filter]
    split
    · rfl
    · exact Finset.sum_const_zero.symm
  | cons q qubits ih =>
    have hbranch : ∀ b, executionProbability P (qubits.map .measure) (ψ.restrict q b)
        (record register q b) = ∑ i ∈ Finset.range (2 ^ n) with i.testBit q = b ∧
          P (fun p => if p ∈ q :: qubits then i.testBit p else register p), ψ.weight i := by
      intro b
      rw [ih, sum_weight_restrict]
      refine Finset.sum_congr (Finset.filter_congr fun i _ => ?_) fun _ _ => rfl
      exact and_congr_right fun hbit => by rw [measured_cons hbit]
    rw [List.map_cons, executionProbability, Fintype.sum_bool, hbranch, hbranch]
    exact sum_true_add_sum_false _ q _

end Executions

/-! ## 3. Shots -/

section Shots

variable {n : Nat} {ψ : Statevector (Amplitude ℝ) n} {σ : Type} [DrawSource σ ℝ] {draws : σ}

/-- **Going through the steps records what is possible**, and uses draws up one by one. -/
theorem shot_possible (P : (Nat → Bool) → Prop) [DecidablePred P]
    {steps : List (LoweredStep (Amplitude ℝ))} (hsteps : ∀ s ∈ steps, s.IsUnitary n)
    (hψ : ψ.totalProbability = 1) (register : Nat → Bool) (hdraws : DrawSource.InUnit draws) :
    (P (shot steps ψ register draws).1 → 0 < executionProbability P steps ψ register) ∧
      DrawSource.InUnit (shot steps ψ register draws).2 := by
  induction steps generalizing ψ register draws with
  | nil =>
    refine ⟨fun hP => ?_, hdraws⟩
    rw [shot] at hP
    rw [executionProbability, if_pos hP, hψ]
    exact one_pos
  | cons s steps ih =>
    obtain ⟨hs, hrest⟩ := List.forall_mem_cons.mp hsteps
    cases s with
    | gate m targets controls =>
      exact ih hrest ((hs.totalProbability ψ).trans hψ) register hdraws
    | measure q =>
      obtain ⟨hlow, hhigh⟩ := hdraws 0
      have hvalue : ∀ b, (ψ.measure q (DrawSource.next draws).1).1 = b →
          (P (shot steps (ψ.collapse q b) (record register q b) (DrawSource.next draws).2).1 →
            0 < executionProbability P (.measure q :: steps) ψ register) ∧
          DrawSource.InUnit
            (shot steps (ψ.collapse q b) (record register q b) (DrawSource.next draws).2).2 := by
        intro b hb
        have hpossible : 0 < ψ.branchProbability q b :=
          hb ▸ branchProbability_measure_pos ψ hlow hhigh q
        obtain ⟨hshot, hleft⟩ := ih hrest (totalProbability_collapse hψ q b hpossible.ne')
          (record register q b) hdraws.next
        refine ⟨fun hP => ?_, hleft⟩
        rw [executionProbability]
        refine Finset.sum_pos' (fun b _ => executionProbability_nonneg steps _ _)
          ⟨b, Finset.mem_univ b, ?_⟩
        rw [executionProbability_of_isMultiple hrest (isMultiple_restrict_collapse hψ q b),
          Real.mul_self_sqrt hpossible.le]
        exact mul_pos hpossible (hshot hP)
      exact hvalue _ rfl

/-- An index that is sampled has a probability. -/
theorem weight_sampleIndex_pos (hψ : ψ.totalProbability = 1) {draw : ℝ} (hdraw : 0 ≤ draw)
    (hdraw' : draw < 1) : 0 < ψ.weight (sampleIndex ψ.cumulative draw) := by
  have hlt := sampleIndex_cumulative_lt hψ hdraw'
  obtain ⟨hlow, hhigh⟩ := (sampleIndex_cumulative_iff hψ hdraw hdraw' hlt).mp rfl
  rw [weightBelow, Finset.sum_range_succ, ← weightBelow] at hhigh
  linarith

/-- **Sampling the last state records what is possible**, and uses up a draw. -/
theorem sample_possible (hψ : ψ.totalProbability = 1) {measured qubits : List Nat}
    (hmeasured : ∀ q ∈ measured, q ∈ qubits) (register : Nat → Bool)
    (hdraws : DrawSource.InUnit draws) :
    0 < executionProbability
        (fun register => bitstring measured register = (sample ψ.cumulative measured draws).1)
        (qubits.map .measure) ψ register ∧
      DrawSource.InUnit (sample ψ.cumulative measured draws).2 := by
  refine ⟨?_, hdraws.next⟩
  obtain ⟨hlow, hhigh⟩ := hdraws 0
  rw [executionProbability_measurements]
  refine Finset.sum_pos' (fun i _ => ψ.weight_nonneg i)
    ⟨sampleIndex ψ.cumulative (DrawSource.next draws).1, ?_, weight_sampleIndex_pos hψ hlow hhigh⟩
  rw [Finset.mem_filter, Finset.mem_range]
  refine ⟨sampleIndex_cumulative_lt hψ hhigh, ?_⟩
  exact bitstring_eq_iff.mpr fun q hq => if_pos (hmeasured q hq)

end Shots

/-! ## 4. Runs -/

/-- Some shots count some outcomes, one each, and all that is so of each shot is so of them. -/
theorem exists_repeatShots {σ : Type} {one : σ → String × σ} {I : σ → Prop} {Q : String → Prop}
    (hone : ∀ draws, I draws → Q (one draws).1 ∧ I (one draws).2) (shots : Nat) {draws : σ}
    (hdraws : I draws) (counts : Counts) :
    ∃ outcomes : List String, outcomes.length = shots ∧ (∀ bits ∈ outcomes, Q bits) ∧
      repeatShots one shots draws counts =
        (outcomes.map fun bits => (bits, 1)).foldl (fun c (bits, n) => c.insert bits n) counts := by
  induction shots generalizing draws counts with
  | zero => exact ⟨[], rfl, by simp, rfl⟩
  | succ shots ih =>
    obtain ⟨hbits, hnext⟩ := hone draws hdraws
    obtain ⟨outcomes, hlength, hall, hcounts⟩ := ih hnext (counts.insert (one draws).1 1)
    refine ⟨(one draws).1 :: outcomes, congrArg (· + 1) hlength,
      List.forall_mem_cons.mpr ⟨hbits, hall⟩, ?_⟩
    rw [repeatShots]
    exact hcounts

/-- As many outcomes are counted as there are shots, and nothing else. -/
theorem exists_tells_repeatShots {σ : Type} {one : σ → String × σ} {I : σ → Prop} {Q : String → Prop}
    (hone : ∀ draws, I draws → Q (one draws).1 ∧ I (one draws).2) {shots : Nat}
    (hshots : shots < 2 ^ 64) {draws : σ} (hdraws : I draws) :
    ∃ outcomes : Multiset String, outcomes.card = shots ∧ (∀ bits ∈ outcomes, Q bits) ∧
      (repeatShots one shots draws .empty).Tells outcomes := by
  obtain ⟨outcomes, hlength, hall, hcounts⟩ := exists_repeatShots hone shots hdraws .empty
  refine ⟨outcomes, hlength, hall, ?_⟩
  have hfew : (Counts.unfolded (outcomes.map fun bits => (bits, 1))).card < 2 ^ 64 := by
    rwa [Counts.unfolded_ones, Multiset.coe_card, hlength]
  have htells := Counts.tells_ofPairs hfew
  rw [Counts.unfolded_ones] at htells
  rw [hcounts]
  exact htells

namespace LoweredCircuit

/-- The probability that executing the steps of a circuit in order, from the zero state, ends with a
    bitstring of the measured qubits. -/
noncomputable def probability (c : LoweredCircuit (Amplitude ℝ)) (bits : String) : ℝ :=
  executionProbability (fun register => bitstring c.measuredQubits register = bits) c.steps
    (zero c.numQubits) fun _ => false

variable {low : LoweredCircuit (Amplitude ℝ)}

theorem probability_eq_start (low : LoweredCircuit (Amplitude ℝ)) (bits : String) :
    low.probability bits =
      executionProbability (fun register => bitstring low.measuredQubits register = bits) low.after
        (start low) fun _ => false := by
  rw [probability, ← before_append_after, executionProbability_gates low.measured?_of_mem_before]
  rfl

theorem totalProbability_start (hunitary : ∀ s ∈ low.steps, s.IsUnitary low.numQubits) :
    (start low).totalProbability = 1 := by
  have hbefore : ∀ s ∈ low.before, s.IsUnitary low.numQubits := fun s hs =>
    hunitary s (List.takeWhile_subset _ hs)
  exact (totalProbability_applyGates hbefore _).trans (totalProbability_zero _)

end LoweredCircuit

section Runs

variable {low : LoweredCircuit (Amplitude ℝ)} {σ : Type} [DrawSource σ ℝ] {draws : σ}

/-- **A shot records what is possible**, on either of the simulator's two ways. -/
theorem oneShot_possible (hunitary : ∀ s ∈ low.steps, s.IsUnitary low.numQubits)
    (hdraws : DrawSource.InUnit draws) :
    0 < low.probability (oneShot low draws).1 ∧ DrawSource.InUnit (oneShot low draws).2 := by
  have htotal := LoweredCircuit.totalProbability_start hunitary
  have hafter : ∀ s ∈ low.after, s.IsUnitary low.numQubits := fun s hs =>
    hunitary s (List.dropWhile_subset _ hs)
  rw [LoweredCircuit.probability_eq_start]
  by_cases hreplays : low.replays = true
  · rw [oneShot, if_pos hreplays]
    obtain ⟨hshot, hleft⟩ := shot_possible (fun register => bitstring low.measuredQubits register =
      (replay (start low) low.after low.measuredQubits draws).1) hafter htotal (fun _ => false) hdraws
    exact ⟨hshot rfl, hleft⟩
  · rw [oneShot, if_neg hreplays]
    have hterminal : ∀ s ∈ low.after, s.measured?.isSome = true := by
      rw [LoweredCircuit.replays, Bool.not_eq_true, Bool.not_eq_false', List.all_eq_true] at hreplays
      exact hreplays
    have hlast : ∀ q ∈ low.measuredQubits, q ∈ low.after.filterMap LoweredStep.measured? :=
      fun _ => LoweredCircuit.mem_after_of_mem_measured
    have hsample := sample_possible htotal hlast (fun _ => false) hdraws
    rwa [← eq_map_measure hterminal] at hsample

/-- A step that is a unitary gate or a measurement of some qubit of a word runs, if its outcome has
    a place or is not written down. -/
theorem LoweredStep.IsUnitary.runs {n : Nat} {s : LoweredStep (Amplitude ℝ)} (h : s.IsUnitary n)
    (hn : n < 64) (hwords : ∀ q, s = .measure q → q < 64) {written : Bool}
    (hthere : written = true → ∀ q, s = .measure q → q < n) : s.Words ∧ s.Fits n written := by
  cases s with
  | gate m targets controls =>
    have hgate : m.UnitaryOn targets controls n := h
    exact ⟨gateWords_of_nodup hn hgate.nodup hgate.lt,
      fits_of_lt hgate.onQubits (List.nodup_append'.mp hgate.nodup).2.1 hgate.targets_lt⟩
  | measure q => exact ⟨hwords q rfl, fun hwritten => hthere hwritten q rfl⟩

/-- **As many outcomes are counted as there are shots, and only possible ones.**  Where gates are
    unitary on different qubits, a run of a circuit whose state has an index for each of its
    amplitudes fails only for measured qubits that are not there: if outcomes are written down, and
    in any case if the bit of one is no word.  Its counts come to the shots, have a character for
    each measured qubit, and are of bitstrings that executing the steps can end with. -/
theorem runFrom_possible (hunitary : ∀ s ∈ low.steps, s.IsUnitary low.numQubits)
    (hmeasures : ∃ q, .measure q ∈ low.steps) {maxQubits : Nat} (hmax : low.numQubits ≤ maxQubits)
    (hdraws : DrawSource.InUnit draws) {shots : Nat} (hshots : shots < 2 ^ 64) :
    (low.numQubits < 64 →
      ((∀ q, .measure q ∈ low.steps → q < 64) →
        (low.replays = true → ∀ q, .measure q ∈ low.steps → q < low.numQubits) →
        ∃ counts, runFrom maxQubits draws low shots = .ok counts ∧
          counts.sum = shots ∧ counts.total.toNat = shots ∧
          (∀ entry ∈ counts.entries, entry.1.length = low.measuredQubits.length) ∧
          ∀ bits, counts.get bits ≠ 0 → 0 < low.probability bits) ∧
      ((∀ q, .measure q ∈ low.steps → q < 64) →
        (low.replays = true ∧ ∃ q, .measure q ∈ low.steps ∧ low.numQubits ≤ q) → 0 < shots →
        runFrom maxQubits draws low shots = .error (.machine .indexOutOfRange)) ∧
      ((∃ q, .measure q ∈ low.steps ∧ 64 ≤ q) → 0 < shots →
        ∃ fault, runFrom maxQubits draws low shots = .error (.machine fault))) ∧
    (64 ≤ low.numQubits → runFrom maxQubits draws low shots = .error (.machine .overflow)) := by
  have hmeasured := LoweredCircuit.measuredQubits_ne_nil hmeasures
  refine ⟨fun hn => ?_, fun hn => runFrom_of_large hn hmeasured hmax draws shots⟩
  obtain ⟨hcounts, -, hlarge⟩ := runFrom_cases hn hmeasured hmax draws shots
  have hwords (hsmall : ∀ q, .measure q ∈ low.steps → q < 64) : ∀ s ∈ low.steps, s.Words := by
    intro s hs
    have hruns : s.Words ∧ s.Fits low.numQubits false :=
      (hunitary s hs).runs hn (fun q hq => hsmall q (hq ▸ hs)) nofun
    exact hruns.1
  refine ⟨fun hsmall hthere => ?_, fun hsmall houtcome hpos => ?_, fun hbeyond hpos => ?_⟩
  · have hrun := hcounts fun s hs => by
      have hmem := low.reached_subset shots s hs
      exact (hunitary s hmem).runs hn (fun q hq => hsmall q (hq ▸ hmem))
        fun hreplays q hq => hthere hreplays q (hq ▸ hmem)
    obtain ⟨outcomes, hcard, hpossible, htells⟩ := exists_tells_repeatShots
      (Q := fun bits => 0 < low.probability bits)
      (fun draws hdraws => oneShot_possible hunitary hdraws) hshots hdraws
    have hsum := htells.sum.trans hcard
    refine ⟨_, hrun, hsum, (Counts.toNat_total (hsum.trans_lt hshots)).trans hsum, ?_, ?_⟩
    · intro entry hentry
      obtain ⟨outcome, hbits⟩ := (entries_runFrom hrun).2 entry hentry
      rw [hbits, bitstring, String.length_ofList, List.length_map]
    · intro bits hbits
      refine hpossible bits (Multiset.count_pos.mp ?_)
      rw [← htells.get, Nat.pos_iff_ne_zero]
      exact fun hzero => hbits (UInt64.toNat_inj.mp hzero)
  · obtain ⟨hreplays, q, hq, hout⟩ := houtcome
    exact runFrom_of_written_outside hn hmax hreplays (hwords hsmall) hq hout draws hpos
  · obtain ⟨q, hq, hout⟩ := hbeyond
    have hreached : low.reached shots = low.steps := if_neg hpos.ne'
    refine hlarge fun hall => ?_
    have hword : q < 64 := hall (.measure q) (hreached ▸ hq)
    omega

end Runs

/-- A qubit brought halfway between its values, and another that is flipped if it is found to be
    one. -/
noncomputable def flippedIfFound : LoweredCircuit (Amplitude ℝ) :=
  ⟨2, [.gate GateMatrix.Standard.h [0] [], .measure 0, .gate GateMatrix.Standard.x [1] [0],
    .measure 1]⟩

theorem runFrom_possible_flippedIfFound :
    flippedIfFound.replays = true ∧ (∀ s ∈ flippedIfFound.steps, s.IsUnitary 2) ∧
      ∃ counts, runFrom 24 (fun _ : Nat => (1 / 2 : ℝ)) flippedIfFound 100 = .ok counts ∧
        counts.sum = 100 := by
  have hunitary : ∀ s ∈ flippedIfFound.steps, s.IsUnitary 2 := by
    simp only [flippedIfFound, List.forall_mem_cons]
    refine ⟨⟨by decide, by decide, ⟨rfl, rfl⟩, GateMatrix.orthonormal_h⟩, trivial,
      ⟨by decide, by decide, ⟨rfl, rfl⟩, GateMatrix.orthonormal_x⟩, trivial, by simp⟩
  have hinside : ∀ q, .measure q ∈ flippedIfFound.steps → q < flippedIfFound.numQubits := by
    intro q hq
    change q < 2
    simp only [flippedIfFound, List.mem_cons, LoweredStep.measure.injEq, reduceCtorEq,
      List.not_mem_nil, or_false, false_or] at hq
    omega
  have hdraws : DrawSource.InUnit fun _ : Nat => (1 / 2 : ℝ) :=
    DrawSource.inUnit_sequence fun _ => by norm_num
  have hmax : flippedIfFound.numQubits ≤ 24 := by decide
  have hn : flippedIfFound.numQubits < 64 := by decide
  obtain ⟨hruns, -⟩ := runFrom_possible hunitary ⟨0, by simp [flippedIfFound]⟩ hmax hdraws
    (by decide : 100 < 2 ^ 64)
  obtain ⟨hcounts, -, -⟩ := hruns hn
  obtain ⟨counts, hrun, hsum, -⟩ := hcounts (fun q hq => (hinside q hq).trans hn) fun _ => hinside
  exact ⟨rfl, hunitary, counts, hrun, hsum⟩

noncomputable def measuredElsewhere : LoweredCircuit (Amplitude ℝ) :=
  ⟨1, [.measure 0, .measure 5, .gate GateMatrix.Standard.x [0] []]⟩

theorem runFrom_measuredElsewhere {draws : ℕ → ℝ} :
    runFrom 24 draws measuredElsewhere 3 = .error (.machine .indexOutOfRange) := by
  have hn : measuredElsewhere.numQubits < 64 := by decide
  have hmax : measuredElsewhere.numQubits ≤ 24 := by decide
  have hwords : ∀ s ∈ measuredElsewhere.steps, s.Words := by
    simp only [measuredElsewhere, List.forall_mem_cons, LoweredStep.Words]
    exact ⟨by decide, by decide, ⟨by decide, by decide, by decide⟩, by simp⟩
  have hfive : .measure 5 ∈ measuredElsewhere.steps := by simp [measuredElsewhere]
  exact runFrom_of_written_outside hn hmax rfl hwords hfive (by decide) _ (by decide)

/-- Its one gate is unitary, and it gives no counts. -/
theorem measuredElsewhere_out_of_range :
    (∀ s ∈ measuredElsewhere.steps, s.IsUnitary 1) ∧ .measure 0 ∈ measuredElsewhere.steps ∧
      measuredElsewhere.numQubits ≤ 24 ∧
      runFrom 24 (fun _ : Nat => (1 / 2 : ℝ)) measuredElsewhere 3 =
        .error (.machine .indexOutOfRange) := by
  have hunitary : ∀ s ∈ measuredElsewhere.steps, s.IsUnitary 1 := by
    simp only [measuredElsewhere, List.forall_mem_cons]
    refine ⟨trivial, trivial, ⟨by decide, by decide, ⟨rfl, rfl⟩, GateMatrix.orthonormal_x⟩, by simp⟩
  have hfirst : LoweredStep.measure 0 ∈ measuredElsewhere.steps := by simp [measuredElsewhere]
  exact ⟨hunitary, hfirst, by decide, runFrom_measuredElsewhere⟩

end CircuitBroker
