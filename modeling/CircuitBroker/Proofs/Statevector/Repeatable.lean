/-
  CircuitBroker/Proofs/Statevector/Repeatable.lean
  ================================================
  **What is found is found again.**

  A measurement divides by what the value it found had as its probability, and takes the
  probability of zero as what is missing of one.  Both are right only while the probabilities sum
  to one, and they do: unitary gates keep their sum and a measurement restores it
  (`Reached.totalProbability`).  So the value found has all of the probability afterwards, and a
  second measurement finds it again and divides by one (`Reached.measure_again`).
-/
import CircuitBroker.Proofs.Statevector.Range
import CircuitBroker.Proofs.Statevector.Unitary

namespace CircuitBroker.Statevector

variable {n : Nat} {ψ : Statevector (Amplitude ℝ) n} {q : Nat} {b : Bool}

/-! ## 1. After a measurement -/

theorem amplitude_collapse_of_ne (ψ : Statevector (Amplitude ℝ) n) {i : Nat} (hi : i < 2 ^ n)
    (hbit : i.testBit q ≠ b) : (ψ.collapse q b).amplitude i = 0 := by
  rw [collapse, amplitude_project _ _ _ _ hi, if_neg hbit]

/-- **The value found has all of the probability.** -/
theorem branchProbability_collapse (hψ : ψ.totalProbability = 1)
    (hpossible : ψ.branchProbability q b ≠ 0) : (ψ.collapse q b).branchProbability q b = 1 := by
  have hsum := mul_sum_collapse hψ q b fun i => i.testBit q = b
  simp only [and_self] at hsum
  rw [← branchProbability_eq hψ, ← branchProbability_eq (totalProbability_collapse hψ q b hpossible)]
    at hsum
  exact mul_left_cancel₀ hpossible (hsum.trans (mul_one _).symm)

theorem probabilityOne_of_branchProbability_eq_one (h : ψ.branchProbability q b = 1) :
    ψ.probabilityOne q = if b then 1 else 0 := by
  cases b with
  | true => exact h
  | false =>
    rw [branchProbability, if_neg Bool.false_ne_true, sub_eq_self] at h
    rw [h, if_neg Bool.false_ne_true]

/-- Collapsing to a value that is certain changes nothing. -/
theorem collapse_eq_self (hcertain : ψ.branchProbability q b = 1)
    (hbits : ∀ i < 2 ^ n, i.testBit q ≠ b → ψ.amplitude i = 0) : ψ.collapse q b = ψ := by
  have hroot : Elementary.sqrt (ψ.branchProbability q b) = 1 := by
    rw [hcertain]
    exact Real.sqrt_one
  refine ext_amplitude fun i hi => ?_
  rw [collapse, amplitude_project _ _ _ _ hi, hroot]
  by_cases hbit : i.testBit q = b
  · have hlt : Magnitude.lt (0 : ℝ) 1 = true := decide_eq_true one_pos
    rw [if_pos hbit, if_pos hlt]
    ext <;> simp [Amplitude.divide]
  · rw [if_neg hbit, hbits i hi hbit]

/-- **A value that is certain is found**, whatever is drawn, and nothing changes. -/
theorem measure_of_certain (hcertain : ψ.branchProbability q b = 1)
    (hbits : ∀ i < 2 ^ n, i.testBit q ≠ b → ψ.amplitude i = 0) {draw : ℝ} (hlow : 0 ≤ draw)
    (hhigh : draw < 1) : ψ.measure q draw = (b, ψ) := by
  have hfound : decide (draw < ψ.probabilityOne q) = b := by
    rw [probabilityOne_of_branchProbability_eq_one hcertain]
    cases b with
    | true => exact decide_eq_true hhigh
    | false => exact decide_eq_false hlow.not_gt
  rw [measure_eq, hfound, collapse_eq_self hcertain hbits]

/-! ## 2. Gates and measurements in any order -/

/-- The states that unitary gates on different qubits and measurements lead to, each of them an
    operation that comes back. -/
inductive Reached : Statevector (Amplitude ℝ) n → Prop
  | zero {ψ : Statevector (Amplitude ℝ) n} (hzero : zero? n = .ok ψ) : Reached ψ
  | gate {ψ φ : Statevector (Amplitude ℝ) n} {m : GateMatrix (Amplitude ℝ)}
      {targets controls : List Nat} (h : Reached ψ) (hm : m.UnitaryOn targets controls n)
      (happly : ψ.applyMatrix? m targets controls = .ok φ) : Reached φ
  | measure {ψ φ : Statevector (Amplitude ℝ) n} {draw : ℝ} {q : Nat} {b : Bool} (h : Reached ψ)
      (hlow : 0 ≤ draw) (hhigh : draw < 1) (hmeasure : ψ.measure? q draw = .ok (b, φ)) : Reached φ

/-- **Probabilities always sum to one.** -/
theorem Reached.totalProbability (h : Reached ψ) : ψ.totalProbability = 1 := by
  induction h with
  | zero hzero =>
    obtain ⟨-, rfl⟩ := zero?_eq_ok_iff.mp hzero
    exact totalProbability_zero n
  | gate h hm happly ih =>
    rw [← eq_of_applyMatrix? happly]
    exact (hm.totalProbability _).trans ih
  | @measure ψ φ draw q b h hlow hhigh hmeasure ih =>
    obtain ⟨-, hfound⟩ := measure?_eq_ok_iff.mp hmeasure
    have hpossible := branchProbability_measure_pos ψ hlow hhigh q
    obtain rfl : (ψ.measure q draw).2 = φ := congrArg Prod.snd hfound
    exact totalProbability_collapse ih q _ hpossible.ne'

/-- There is no state of more qubits than a word has bits. -/
theorem Reached.lt (h : Reached ψ) : n < 64 := by
  induction h with
  | zero hzero => exact (zero?_eq_ok_iff.mp hzero).1
  | gate _ _ _ ih => exact ih
  | measure _ _ _ _ ih => exact ih

/-- **Measuring keeps a state normalised and can be repeated.**  In every state that gates and
    measurements lead to, the probabilities sum to one, and unitary gates and measurements come
    back.  After a measurement in it the amplitudes of the other value are zero, the qubit is
    one with probability one or zero, and measuring it again finds the same value and leaves the
    state as it is. -/
theorem Reached.measure_again (h : Reached ψ) :
    ∑ i ∈ Finset.range (2 ^ n), (ψ.amplitude i).normSq = 1 ∧
    (∀ (m : GateMatrix (Amplitude ℝ)) (targets controls : List Nat),
      m.UnitaryOn targets controls n → ∃ φ, ψ.applyMatrix? m targets controls = .ok φ) ∧
    (∀ q < n, ∀ draw : ℝ, ∃ found, ψ.measure? q draw = .ok found) ∧
    ∀ (q : Nat) (draw : ℝ), 0 ≤ draw → draw < 1 →
      ∀ (b : Bool) (φ : Statevector (Amplitude ℝ) n), ψ.measure? q draw = .ok (b, φ) →
        (∀ i < 2 ^ n, i.testBit q ≠ b → φ.amplitude i = 0) ∧
        φ.probabilityOne? q = .ok (if b then 1 else 0) ∧
        ∀ draw' : ℝ, 0 ≤ draw' → draw' < 1 → φ.measure? q draw' = .ok (b, φ) := by
  refine ⟨h.totalProbability, fun m targets controls hm => ?_, fun q hq draw => ?_,
    fun q draw hlow hhigh b φ hmeasure => ?_⟩
  · exact ⟨_, applyMatrix?_of_nodup ψ h.lt hm.onQubits hm.nodup hm.lt⟩
  · exact ⟨_, measure?_eq_ok_iff.mpr ⟨hq.trans h.lt, rfl⟩⟩
  obtain ⟨hq, hfound⟩ := measure?_eq_ok_iff.mp hmeasure
  have hpossible : 0 < ψ.branchProbability q b := by
    have hpos := branchProbability_measure_pos ψ hlow hhigh q
    rwa [hfound] at hpos
  have hleft : φ = ψ.collapse q b := by
    rw [measure_eq, Prod.mk.injEq] at hfound
    rw [← hfound.2, hfound.1]
  have hbits : ∀ i < 2 ^ n, i.testBit q ≠ b → φ.amplitude i = 0 := by
    rw [hleft]
    exact fun i hi => amplitude_collapse_of_ne ψ hi
  have hcertain : φ.branchProbability q b = 1 := by
    rw [hleft]
    exact branchProbability_collapse h.totalProbability hpossible.ne'
  refine ⟨hbits, ?_, fun draw' hlow' hhigh' => ?_⟩
  · rw [probabilityOne?_of_lt hq, probabilityOne_of_branchProbability_eq_one hcertain]
  · exact measure?_eq_ok_iff.mpr ⟨hq, measure_of_certain hcertain hbits hlow' hhigh'⟩

/-- A pair of qubits that agree, one of them measured and turned again. -/
noncomputable def turnedAgain : Statevector (Amplitude ℝ) 2 :=
  ((((zero 2).applyMatrix GateMatrix.Standard.h [0] []).applyMatrix GateMatrix.Standard.x [1]
    [0]).measure 0 0).2.applyMatrix GateMatrix.Standard.h [0] []

theorem measure_again_turnedAgain :
    turnedAgain.Reached ∧ ∃ b φ, turnedAgain.measure? 0 (1 / 4) = .ok (b, φ) ∧
      φ.measure? 0 (3 / 4) = .ok (b, φ) := by
  have hturn : (GateMatrix.Standard.h : GateMatrix (Amplitude ℝ)).UnitaryOn [0] [] 2 :=
    ⟨by decide, by decide, ⟨rfl, rfl⟩, GateMatrix.orthonormal_h⟩
  have hflip : (GateMatrix.Standard.x : GateMatrix (Amplitude ℝ)).UnitaryOn [1] [0] 2 :=
    ⟨by decide, by decide, ⟨rfl, rfl⟩, GateMatrix.orthonormal_x⟩
  have happly {m : GateMatrix (Amplitude ℝ)} {targets controls : List Nat}
      {ψ : Statevector (Amplitude ℝ) 2} (hψ : ψ.Reached) (hm : m.UnitaryOn targets controls 2) :
      (ψ.applyMatrix m targets controls).Reached :=
    .gate hψ hm (applyMatrix?_of_nodup ψ (by decide) hm.onQubits hm.nodup hm.lt)
  have hreached : turnedAgain.Reached := by
    have hzero : (zero 2 : Statevector (Amplitude ℝ) 2).Reached :=
      .zero (zero?_eq_ok_iff.mpr ⟨by decide, rfl⟩)
    have hfind {ψ : Statevector (Amplitude ℝ) 2} (hψ : ψ.Reached) : (ψ.measure 0 0).2.Reached :=
      .measure hψ le_rfl one_pos
        (measure?_eq_ok_iff.mpr ⟨by decide, (rfl : ψ.measure 0 0 = ((ψ.measure 0 0).1, _))⟩)
    exact happly (hfind (happly (happly hzero hturn) hflip)) hturn
  obtain ⟨-, -, hmeasures, hagain⟩ := hreached.measure_again
  obtain ⟨⟨b, φ⟩, hfound⟩ := hmeasures 0 (by decide) (1 / 4)
  obtain ⟨-, -, hsame⟩ := hagain 0 (1 / 4) (by norm_num) (by norm_num) b φ hfound
  exact ⟨hreached, b, φ, hfound, hsame (3 / 4) (by norm_num) (by norm_num)⟩

end CircuitBroker.Statevector
