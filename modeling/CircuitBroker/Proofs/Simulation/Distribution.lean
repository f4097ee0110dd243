/-
  CircuitBroker/Proofs/Simulation/Distribution.lean
  =================================================
  **Sampling is as good as replaying.**

  Where only measurements follow the first measurement, a run takes each shot by one draw
  from the last state instead of going through the measurements.  Over independent uniform
  draws both ways give each bitstring the probability of the indices that have it, and leave
  draws that are independent of the bitstring (`shotLaw_sample`, `shotLaw_replay`).  So whole
  runs have the same law as well, whatever the number of shots (`runFrom_law`).
-/
import CircuitBroker.Proofs.GateMatrix.Identities
import CircuitBroker.Proofs.Simulation.Sampling
import CircuitBroker.Proofs.Simulation.Shots
import CircuitBroker.Proofs.Statevector.Unitary

namespace CircuitBroker

open MeasureTheory Simulator Statevector

/-! ## 1. Shots with a law -/

instance countableString : Countable String :=
  have : Countable Char := Function.Injective.countable (f := Char.toNat) fun _ _ => Char.toNat_inj.mp
  Function.Injective.countable (f := String.toList) fun _ _ => String.toList_inj.mp

/-- A shot gives each bitstring with some probability, and what it leaves of the draws is
    independent of the bitstring and again uniform. -/
structure ShotLaw (one : (ℕ → ℝ) → String × (ℕ → ℝ)) (probability : String → ENNReal) : Prop where
  measurableSet : ∀ bits, MeasurableSet {draws | (one draws).1 = bits}
  law : ∀ bits (A : Set (ℕ → ℝ)),
    uniformDraws {draws | (one draws).1 = bits ∧ (one draws).2 ∈ A} =
      probability bits * uniformDraws A

namespace ShotLaw

variable {one one' : (ℕ → ℝ) → String × (ℕ → ℝ)} {probability : String → ENNReal}

theorem apply (h : ShotLaw one probability) (bits : String) :
    uniformDraws {draws | (one draws).1 = bits} = probability bits := by
  have hlaw := h.law bits Set.univ
  simpa using hlaw

/-- An event of what is left, chosen by the bitstring. -/
theorem left_mem (h : ShotLaw one probability) (A : String → Set (ℕ → ℝ)) :
    uniformDraws {draws | (one draws).2 ∈ A (one draws).1} =
      tsum fun bits => probability bits * uniformDraws (A bits) := by
  let event : Set (ℕ → ℝ) := {draws | (one draws).2 ∈ A (one draws).1}
  let found (bits : String) : Set (ℕ → ℝ) := {draws | (one draws).1 = bits}
  have hall : ⋃ bits, found bits = Set.univ :=
    Set.eq_univ_of_forall fun draws => Set.mem_iUnion.mpr ⟨(one draws).1, rfl⟩
  have hdisjoint : Pairwise (Function.onFun Disjoint found) := by
    intro bits bits' hne
    refine Set.disjoint_left.mpr fun draws hbits hbits' => hne ?_
    exact Eq.trans (Eq.symm hbits) hbits'
  have hcut : ∀ bits, found bits ∩ event =
      {draws | (one draws).1 = bits ∧ (one draws).2 ∈ A bits} := by
    intro bits
    ext draws
    constructor
    · rintro ⟨rfl, hin⟩
      exact ⟨rfl, hin⟩
    · rintro ⟨rfl, hin⟩
      exact ⟨rfl, hin⟩
  calc uniformDraws event
      = uniformDraws.restrict event (⋃ bits, found bits) := by
        rw [hall, Measure.restrict_apply_univ]
    _ = tsum fun bits => uniformDraws.restrict event (found bits) :=
        measure_iUnion hdisjoint h.measurableSet
    _ = tsum fun bits => probability bits * uniformDraws (A bits) := by
        refine tsum_congr fun bits => ?_
        rw [Measure.restrict_apply (h.measurableSet bits), hcut, h.law]

/-- **Runs of as many shots with one law have one law.** -/
theorem repeatShots (h : ShotLaw one probability) (h' : ShotLaw one' probability)
    (results : Set Counts)
    (shots : Nat) : ∀ counts,
      uniformDraws {draws | repeatShots one shots draws counts ∈ results} =
        uniformDraws {draws | repeatShots one' shots draws counts ∈ results} := by
  induction shots with
  | zero => exact fun _ => rfl
  | succ shots ih =>
    intro counts
    have hone := h.left_mem fun bits =>
      {draws | Simulator.repeatShots one shots draws (counts.insert bits 1) ∈ results}
    have hone' := h'.left_mem fun bits =>
      {draws | Simulator.repeatShots one' shots draws (counts.insert bits 1) ∈ results}
    simp only [ih] at hone
    exact hone.trans hone'.symm

end ShotLaw

/-! ## 2. The two ways to take a shot -/

section Ways

variable {n : Nat} {ψ : Statevector (Amplitude ℝ) n}

/-- The probability of the indices that a bitstring of the measured qubits stands for. -/
noncomputable def bitstringProbability (ψ : Statevector (Amplitude ℝ) n) (measured : List Nat)
    (bits : String) : ℝ :=
  ∑ i ∈ Finset.range (2 ^ n) with bitstring measured i.testBit = bits, ψ.weight i

/-- **One draw from the last state.** -/
theorem shotLaw_sample (hψ : ψ.totalProbability = 1) (measured : List Nat) :
    ShotLaw (sample ψ.cumulative measured)
      fun bits => ENNReal.ofReal (bitstringProbability ψ measured bits) := by
  constructor
  · intro bits
    have hfirst : Measurable fun draws : ℕ → ℝ => draws 0 := measurable_pi_apply 0
    exact (measurable_sampleIndex ψ.cumulative).comp hfirst
      (MeasurableSet.of_discrete (s := {i | bitstring measured i.testBit = bits}))
  · intro bits A
    have hsplit := uniformDraws_split
      {draw | bitstring measured (sampleIndex ψ.cumulative draw).testBit = bits} A
    rw [uniformDraw_sampleIndex hψ fun i => bitstring measured i.testBit = bits] at hsplit
    exact hsplit

theorem measurableSet_shot (measured : List Nat) (bits : String) (qubits : List Nat) :
    ∀ (ψ : Statevector (Amplitude ℝ) n) (register : Nat → Bool),
      MeasurableSet {draws : ℕ → ℝ |
        bitstring measured (shot (qubits.map .measure) ψ register draws).1 = bits} := by
  induction qubits with
  | nil => exact fun _ register => MeasurableSet.const (bitstring measured register = bits)
  | cons q qubits ih =>
    exact fun ψ register => measurableSet_choice (ψ.probabilityOne q) fun b =>
      ih (ψ.collapse q b) (record register q b)

/-- Bits measured after a qubit, and that qubit with the value it had, are bits measured from
    it on. -/
theorem measured_cons {i q : Nat} {b : Bool} (hbit : i.testBit q = b) (qubits : List Nat)
    (register : Nat → Bool) :
    (fun p => if p ∈ qubits then i.testBit p else record register q b p) =
      fun p => if p ∈ q :: qubits then i.testBit p else register p := by
  funext p
  by_cases hp : p = q
  · simp [hp, record, hbit]
  · simp [hp, record]

/-- **Measurements one after the other** give each bitstring the probability of the indices
    that have it at the qubits measured, whatever is done with the draws that are left. -/
theorem uniformDraws_shot (measured : List Nat) (bits : String) (A : Set (ℕ → ℝ))
    (qubits : List Nat) :
    ∀ {ψ : Statevector (Amplitude ℝ) n}, ψ.totalProbability = 1 → ∀ register : Nat → Bool,
      uniformDraws {draws | bitstring measured (shot (qubits.map .measure) ψ register draws).1 = bits ∧
          (shot (qubits.map .measure) ψ register draws).2 ∈ A} =
        ENNReal.ofReal (∑ i ∈ Finset.range (2 ^ n) with
          bitstring measured (fun p => if p ∈ qubits then i.testBit p else register p) = bits,
            ψ.weight i) * uniformDraws A := by
  induction qubits with
  | nil =>
    intro ψ hψ register
    by_cases hbits : bitstring measured register = bits
    · have hweight := hψ
      simp only [totalProbability] at hweight
      simp [shot, hbits, hweight]
    · simp [shot, hbits]
  | cons q qubits ih =>
    intro ψ hψ register
    -- what follows the first measurement, once its value is known
    have hbranch : ∀ b, uniformDraw {draw | (ψ.measure q draw).1 = b} *
        uniformDraws {draws |
          bitstring measured (shot (qubits.map .measure) (ψ.collapse q b) (record register q b)
            draws).1 = bits ∧
          (shot (qubits.map .measure) (ψ.collapse q b) (record register q b) draws).2 ∈ A} =
        ENNReal.ofReal (∑ i ∈ Finset.range (2 ^ n) with i.testBit q = b ∧
          bitstring measured (fun p => if p ∈ q :: qubits then i.testBit p else register p) = bits,
            ψ.weight i) * uniformDraws A := by
      intro b
      have hsum := mul_sum_collapse hψ q b fun i => bitstring measured
        (fun p => if p ∈ qubits then i.testBit p else record register q b p) = bits
      have hsame : ∀ i ∈ Finset.range (2 ^ n), (i.testBit q = b ∧ bitstring measured
          (fun p => if p ∈ qubits then i.testBit p else record register q b p) = bits) ↔
          i.testBit q = b ∧ bitstring measured
            (fun p => if p ∈ q :: qubits then i.testBit p else register p) = bits :=
        fun i _ => and_congr_right fun hbit => by rw [measured_cons hbit]
      rw [Finset.filter_congr hsame] at hsum
      rw [uniformDraw_measure hψ, ← hsum]
      by_cases hpossible : ψ.branchProbability q b = 0
      · rw [hpossible, zero_mul, ENNReal.ofReal_zero, zero_mul, zero_mul]
      · rw [ih (totalProbability_collapse hψ q b hpossible),
          ENNReal.ofReal_mul (branchProbability_nonneg hψ q b), mul_assoc]
    have hchoice := uniformDraws_choice (ψ.probabilityOne q) fun b => {draws |
      bitstring measured (shot (qubits.map .measure) (ψ.collapse q b) (record register q b)
        draws).1 = bits ∧
      (shot (qubits.map .measure) (ψ.collapse q b) (record register q b) draws).2 ∈ A}
    have htrue := hbranch true
    have hfalse := hbranch false
    simp only [measure_eq, decide_eq_true_eq, decide_eq_false_iff_not] at htrue hfalse
    refine hchoice.trans ?_
    rw [htrue, hfalse, ← add_mul, ← ENNReal.ofReal_add, sum_true_add_sum_false]
    · exact Finset.sum_nonneg fun i _ => ψ.weight_nonneg i
    · exact Finset.sum_nonneg fun i _ => ψ.weight_nonneg i

/-- **One measurement after the other.** -/
theorem shotLaw_replay (hψ : ψ.totalProbability = 1) {measured qubits : List Nat}
    (hmeasured : ∀ q ∈ measured, q ∈ qubits) :
    ShotLaw (replay ψ (qubits.map .measure) measured)
      fun bits => ENNReal.ofReal (bitstringProbability ψ measured bits) := by
  have hsame : ∀ bits, ∀ i ∈ Finset.range (2 ^ n), (bitstring measured (fun p =>
      if p ∈ qubits then i.testBit p else false) = bits ↔ bitstring measured i.testBit = bits) := by
    intro bits i _
    rw [bitstring_eq_iff.mpr fun q hq => if_pos (hmeasured q hq)]
  constructor
  · exact fun bits => measurableSet_shot measured bits qubits ψ fun _ => false
  · intro bits A
    have hlaw := uniformDraws_shot measured bits A qubits hψ fun _ => false
    rw [Finset.filter_congr (hsame bits)] at hlaw
    exact hlaw

end Ways

/-! ## 3. Runs -/

section Runs

variable {low : LoweredCircuit (Amplitude ℝ)}

/-- **Sampling has the law of replaying**, for any number of shots, if what is measured can be
    written down. -/
theorem runFrom_law (hn : low.numQubits < 64) {maxQubits : Nat} (hmax : low.numQubits ≤ maxQubits)
    (hmeasured : low.measuredQubits ≠ [])
    (hsteps : ∀ s ∈ low.steps, s.Words ∧ s.Fits low.numQubits false)
    (hthere : ∀ q, .measure q ∈ low.steps → q < low.numQubits)
    (hterminal : ∀ s ∈ low.after, s.measured?.isSome = true)
    (htotal : (start low).totalProbability = 1) (shots : Nat) (results : Set Counts) :
    uniformDraws {draws | ∃ counts ∈ results, runFrom maxQubits draws low shots = .ok counts} =
      uniformDraws {draws | ∃ counts ∈ results, replayShots draws low shots = .ok counts} := by
  have hwritten : ∀ s ∈ low.steps, s.Words ∧ s.Fits low.numQubits true := by
    intro s hs
    cases s with
    | gate m targets controls => exact hsteps _ hs
    | measure q => exact ⟨(hsteps _ hs).1, fun _ => hthere q hs⟩
  have hreplays := LoweredCircuit.replays_eq_false_iff.mpr hterminal
  have hrun : ∀ draws : ℕ → ℝ, runFrom maxQubits draws low shots =
      .ok (repeatShots (sample (start low).cumulative low.measuredQubits) shots draws .empty) := by
    intro draws
    have hcounts := (runFrom_cases hn hmeasured hmax draws shots).1
    simp only [hreplays, oneShot, Bool.false_eq_true, if_false] at hcounts
    exact hcounts fun s hs => hsteps s (low.reached_subset shots s hs)
  have hreplay : ∀ draws : ℕ → ℝ, replayShots draws low shots =
      .ok (repeatShots (replay (start low) low.after low.measuredQubits) shots draws .empty) := by
    intro draws
    rw [replayShots, shotsFault?_of_fits hn fun s hs => hwritten s (low.reached_subset shots s hs)]
  have hlaw := (shotLaw_sample htotal low.measuredQubits).repeatShots
    (shotLaw_replay htotal fun _ => LoweredCircuit.mem_after_of_mem_measured) results shots .empty
  rw [← eq_map_measure hterminal] at hlaw
  simpa only [hrun, hreplay, Except.ok.injEq, exists_eq_right'] using hlaw

/-- **Sampling goes on where replaying has no place for an outcome.** -/
theorem samples_beyond (hn : low.numQubits < 64) {maxQubits : Nat} (hmax : low.numQubits ≤ maxQubits)
    (hmeasured : low.measuredQubits ≠ [])
    (hsteps : ∀ s ∈ low.steps, s.Words ∧ s.Fits low.numQubits false)
    (hbeyond : ∃ q, .measure q ∈ low.steps ∧ low.numQubits ≤ q)
    (hterminal : ∀ s ∈ low.after, s.measured?.isSome = true) {shots : Nat} (hshots : 0 < shots)
    (draws : ℕ → ℝ) :
    (∃ counts, runFrom maxQubits draws low shots = .ok counts) ∧
      replayShots draws low shots = .error .indexOutOfRange := by
  have hreplays := LoweredCircuit.replays_eq_false_iff.mpr hterminal
  have hreached : low.reached shots = low.steps := if_neg hshots.ne'
  constructor
  · refine ⟨_, (runFrom_cases hn hmeasured hmax draws shots).1 ?_⟩
    rw [hreplays, hreached]
    exact hsteps
  · obtain ⟨q, hq, hout⟩ := hbeyond
    have hfault : shotsFault? true low shots = some .indexOutOfRange := by
      refine shotsFault?_of_not_fits hn ?_ fun hall => ?_
      · exact fun s hs => (hsteps s (low.reached_subset shots s hs)).1
      · have hthere : q < low.numQubits := hall (.measure q) (hreached ▸ hq) rfl
        omega
    rw [replayShots, hfault]

/-- **The sampling shortcut is sound, where there is a place for every outcome.**  The
    probabilities with which successive measurements give some outcomes multiply to that of the
    indices that have them; one draw gives each bitstring the probability that the measurements
    give it; and so a run that samples has the law of one that goes through the measurements for
    each shot.  If a qubit that is not there is measured, sampling gives counts and going through
    the measurements does not. -/
theorem sampling_sound {n : Nat} {ψ : Statevector (Amplitude ℝ) n} (hψ : ψ.totalProbability = 1) :
    (∀ found : List (Nat × Bool), (∀ m ∈ found, m.1 < 64) → ψ.chainProbability found =
      ∑ i ∈ Finset.range (2 ^ n) with (∀ m ∈ found, i.testBit m.1 = m.2), ψ.weight i) ∧
    (n < 64 → ∀ qubits measured : List Nat, (∀ q ∈ qubits, q < n) → (∀ q ∈ measured, q ∈ qubits) →
      ∀ bits,
        uniformDraws {draws | (sample ψ.cumulative measured draws).1 = bits} =
          ENNReal.ofReal (bitstringProbability ψ measured bits) ∧
        uniformDraws {draws | (replay ψ (qubits.map .measure) measured draws).1 = bits} =
          ENNReal.ofReal (bitstringProbability ψ measured bits)) ∧
    ∀ (low : LoweredCircuit (Amplitude ℝ)) (maxQubits : Nat), low.numQubits < 64 →
      low.numQubits ≤ maxQubits → low.measuredQubits ≠ [] →
      (∀ s ∈ low.steps, s.Words ∧ s.Fits low.numQubits false) →
      (∀ s ∈ low.after, s.measured?.isSome = true) → (start low).totalProbability = 1 →
      ∀ shots : Nat,
        ((∀ q, .measure q ∈ low.steps → q < low.numQubits) → ∀ results : Set Counts,
          uniformDraws {draws | ∃ counts ∈ results, runFrom maxQubits draws low shots = .ok counts} =
            uniformDraws {draws | ∃ counts ∈ results, replayShots draws low shots = .ok counts}) ∧
        ((∃ q, .measure q ∈ low.steps ∧ low.numQubits ≤ q) → 0 < shots → ∀ draws : ℕ → ℝ,
          (∃ counts, runFrom maxQubits draws low shots = .ok counts) ∧
            replayShots draws low shots = .error .indexOutOfRange) := by
  refine ⟨fun found hwords => chainProbability_eq found hψ hwords, ?_, ?_⟩
  · intro _ qubits measured _ hmeasured bits
    exact ⟨(shotLaw_sample hψ measured).apply bits, (shotLaw_replay hψ hmeasured).apply bits⟩
  · intro low maxQubits hn hmax hmeasured hsteps hterminal htotal shots
    exact ⟨fun hthere => runFrom_law hn hmax hmeasured hsteps hthere hterminal htotal shots,
      fun hbeyond hshots => samples_beyond hn hmax hmeasured hsteps hbeyond hterminal hshots⟩

end Runs

noncomputable def tossed : LoweredCircuit (Amplitude ℝ) :=
  ⟨1, [.gate GateMatrix.Standard.h [0] [], .measure 0, .measure 0]⟩

theorem weight_tossed : (start tossed).weight 0 = 1 / 2 ∧ (start tossed).weight 1 = 1 / 2 := by
  have hstart : (zero 1 : Statevector (Amplitude ℝ) 1).pair 0 0 = (1, 0) := by
    have hbasis : ∀ j < 2, (basis 1 0 : Statevector (Amplitude ℝ) 1).amplitude j =
        if j = 0 then 1 else 0 := fun j hj => amplitude_basis hj
    rw [zero_eq_basis]
    exact Prod.ext ((hbasis 0 (by decide)).trans (if_pos rfl))
      ((hbasis 1 (by decide)).trans (if_neg (by decide)))
  have hpair : (start tossed).pair 0 0 =
      (Amplitude.ofReal Elementary.invSqrtTwo, Amplitude.ofReal Elementary.invSqrtTwo) := by
    change ((zero 1).applyMatrix GateMatrix.Standard.h [0] []).pair 0 0 = _
    rw [pair_applyMatrix _ _ (by simp) (by decide) (by decide), hstart, List.all_nil, if_pos rfl,
      GateMatrix.turn_h]
    simp
  have hhalf : (Amplitude.ofReal Elementary.invSqrtTwo : Amplitude ℝ).normSq = 1 / 2 := by
    simp [Amplitude.normSq, Amplitude.ofReal, Amplitude.invSqrtTwo_sq]
  exact ⟨(congrArg (·.1.normSq) hpair).trans hhalf, (congrArg (·.2.normSq) hpair).trans hhalf⟩

theorem sampling_sound_tossed :
    tossed.measuredQubits = [0] ∧ (∀ s ∈ tossed.steps, s.Words ∧ s.Fits 1 false) ∧
      (∀ s ∈ tossed.after, s.measured?.isSome = true) ∧ (start tossed).totalProbability = 1 ∧
      (start tossed).chainProbability [(0, true), (0, true)] = 1 / 2 ∧
      (start tossed).chainProbability [(0, true), (0, false)] = 0 ∧
      uniformDraws {draws | (sample (start tossed).cumulative [0] draws).1 = "1"} =
        uniformDraws {draws | (replay (start tossed) ([0, 0].map .measure) [0] draws).1 = "1"} ∧
      ∀ results : Set Counts,
        uniformDraws {draws | ∃ counts ∈ results, runFrom 1 draws tossed 2 = .ok counts} =
          uniformDraws {draws | ∃ counts ∈ results, replayShots draws tossed 2 = .ok counts} := by
  obtain ⟨hzero, hone⟩ := weight_tossed
  have hmeasured : tossed.measuredQubits = [0] := by
    change ascending [0, 0] = [0]
    simp [ascending, List.mergeSort, List.MergeSort.Internal.splitInTwo, List.eraseDups_cons]
  have hsteps : ∀ s ∈ tossed.steps, s.Words ∧ s.Fits 1 false := by
    simp only [tossed, List.forall_mem_cons, LoweredStep.Words, LoweredStep.Fits]
    refine ⟨⟨gateWords_of_nodup (n := 1) (by decide) (by decide) (by decide), ?_⟩,
      ⟨by decide, by decide⟩, ⟨by decide, by decide⟩, by simp⟩
    exact fits_of_lt ⟨rfl, rfl⟩ (by decide) (by decide)
  have hafter : tossed.after = [.measure 0, .measure 0] := rfl
  have hterminal : ∀ s ∈ tossed.after, s.measured?.isSome = true := by
    rw [hafter]
    simp [LoweredStep.measured?]
  have htotal : (start tossed).totalProbability = 1 := by
    change ∑ i ∈ Finset.range 2, (start tossed).weight i = 1
    rw [Finset.sum_range_succ, Finset.sum_range_one, hzero, hone]
    norm_num
  obtain ⟨hchain, hshot, hrun⟩ := sampling_sound (n := 1) htotal
  refine ⟨hmeasured, hsteps, hterminal, htotal, ?_, ?_, ?_, ?_⟩
  · have hfound : (Finset.range (2 ^ 1)).filter (fun i : Nat =>
        ∀ m ∈ [((0 : Nat), true), (0, true)], i.testBit m.1 = m.2) = {1} := by decide
    have hsum := hchain [(0, true), (0, true)] (by decide)
    rw [hfound, Finset.sum_singleton] at hsum
    exact hsum.trans hone
  · have hfound : (Finset.range (2 ^ 1)).filter (fun i : Nat =>
        ∀ m ∈ [((0 : Nat), true), (0, false)], i.testBit m.1 = m.2) = ∅ := by decide
    have hsum := hchain [(0, true), (0, false)] (by decide)
    rw [hfound, Finset.sum_empty] at hsum
    exact hsum
  · obtain ⟨hsample, hreplay⟩ := hshot (by decide) [0, 0] [0] (by decide) (by decide) "1"
    exact hsample.trans hreplay.symm
  · have hthere : ∀ q, .measure q ∈ tossed.steps → q < tossed.numQubits := by
      intro q hq
      obtain rfl : q = 0 := by simpa [tossed] using hq
      exact one_pos
    have hruns :=
      hrun tossed 1 (by decide) (le_refl 1) (by simp [hmeasured]) hsteps hterminal htotal 2
    exact hruns.1 hthere

noncomputable def measuredBeyond : LoweredCircuit (Amplitude ℝ) := ⟨1, [.measure 0, .measure 5]⟩

noncomputable def measuredBeyondThenIdentity : LoweredCircuit (Amplitude ℝ) :=
  ⟨1, [.measure 0, .measure 5, .gate (GateMatrix.identity 1) [0] []]⟩

/-- They are sampled, but cannot be replayed, and with a gate behind them they have to be. -/
theorem measuredBeyond_sampled_only :
    (∀ s ∈ measuredBeyond.after, s.measured?.isSome = true) ∧
      (start measuredBeyond).totalProbability = 1 ∧
      ∀ draws : ℕ → ℝ, DrawSource.InUnit draws →
        runFrom 24 draws measuredBeyond 3 = .ok ⟨[("00", 3)]⟩ ∧
          replayShots draws measuredBeyond 3 = .error .indexOutOfRange ∧
          runFrom 24 draws measuredBeyondThenIdentity 3 = .error (.machine .indexOutOfRange) := by
  have hmeasured : measuredBeyond.measuredQubits = [0, 5] := by
    change ascending [0, 5] = [0, 5]
    rw [ascending, List.mergeSort_of_pairwise (by decide)]
    rfl
  have hsome : measuredBeyond.measuredQubits ≠ [] := by simp [hmeasured]
  have hsteps : ∀ s ∈ measuredBeyond.steps, s.Words ∧ s.Fits 1 false := by
    simp only [measuredBeyond, List.forall_mem_cons, LoweredStep.Words, LoweredStep.Fits]
    exact ⟨⟨by decide, by decide⟩, ⟨by decide, by decide⟩, by simp⟩
  have hterminal : ∀ s ∈ measuredBeyond.after, s.measured?.isSome = true := by
    change ∀ s ∈ [.measure 0, .measure 5], (s : LoweredStep (Amplitude ℝ)).measured?.isSome = true
    simp [LoweredStep.measured?]
  have hreplays := LoweredCircuit.replays_eq_false_iff.mpr hterminal
  have hbeyond : ∃ q, .measure q ∈ measuredBeyond.steps ∧ measuredBeyond.numQubits ≤ q :=
    ⟨5, by simp [measuredBeyond], by decide⟩
  refine ⟨hterminal, totalProbability_zero 1, fun draws hdraws => ⟨?_, ?_, ?_⟩⟩
  · have hsample : ∀ d : ℕ → ℝ, oneShot measuredBeyond d =
        sample (basis 1 0 : Statevector (Amplitude ℝ) 1).cumulative [0, 5] d := by
      intro d
      rw [oneShot, hreplays, if_neg Bool.false_ne_true, hmeasured, ← zero_eq_basis]
      rfl
    have hone : ∀ d : ℕ → ℝ, DrawSource.InUnit d → (oneShot measuredBeyond d).1 = "00" ∧
        DrawSource.InUnit (oneShot measuredBeyond d).2 := by
      intro d hd
      rw [hsample, sample_basis (by decide) _ hd]
      exact ⟨rfl, hd.next⟩
    have hcounts := (runFrom_cases (by decide) hsome (by decide : 1 ≤ 24) draws 3).1
    rw [hcounts (by rw [hreplays]; exact hsteps), repeatShots_eq hone hdraws]
    rfl
  · exact (samples_beyond (by decide) (by decide : 1 ≤ 24) hsome hsteps hbeyond hterminal
      (by decide) draws).2
  · have hwords : ∀ s ∈ measuredBeyondThenIdentity.steps, s.Words := by
      simp only [measuredBeyondThenIdentity, List.forall_mem_cons, LoweredStep.Words]
      exact ⟨by decide, by decide, ⟨by decide, by decide, by decide⟩, by simp⟩
    have hfive : .measure 5 ∈ measuredBeyondThenIdentity.steps := by
      simp [measuredBeyondThenIdentity]
    exact runFrom_of_written_outside (by decide) (by decide : 1 ≤ 24) rfl hwords hfive (by decide)
      draws (by decide)

end CircuitBroker
