/-
  CircuitBroker/Proofs/Statevector/Action.lean
  ============================================
  **What a matrix under controls does to a state, and how two of them combine.**

  The targets of a gate spell a number, the first target its most significant bit.  The row
  of the matrix is the number that an index spells, and column `c` belongs to the index that
  spells `c` instead and is otherwise the same (`Spells`, `amplitude_of_gate`).  A gate that
  is given as a block matrix on controls and targets, and a gate that is the product of two,
  come down to the same equation (`applyMatrix_controlled`, `applyMatrix_mul`).
-/
import CircuitBroker.Proofs.GateMatrix.Product
import CircuitBroker.Proofs.Statevector.Range

namespace CircuitBroker.Statevector

variable {K : Type} {n : Nat} {targets controls : List Nat}

/-! ## 1. Numbers spelled by qubits -/

/-- The bits of an index at some qubits are those of a number, the first qubit's the most
    significant. -/
structure Spells (qubits : List Nat) (index value : Nat) : Prop where
  lt : value < 2 ^ qubits.length
  testBit : ∀ j (h : j < qubits.length),
    value.testBit (qubits.length - 1 - j) = index.testBit qubits[j]

theorem Spells.eq {index value other : Nat} (h : Spells targets index value)
    (h' : Spells targets index other) : value = other := by
  apply Nat.eq_of_testBit_eq
  intro b
  by_cases hb : b < targets.length
  · have hbit := h.testBit (targets.length - 1 - b) (by omega)
    have hbit' := h'.testBit (targets.length - 1 - b) (by omega)
    have hback : targets.length - 1 - (targets.length - 1 - b) = b := by omega
    rw [hback] at hbit hbit'
    rw [hbit, hbit']
  · have hpow : 2 ^ targets.length ≤ 2 ^ b := Nat.pow_le_pow_right (by decide) (by omega)
    rw [Nat.testBit_lt_two_pow (h.lt.trans_le hpow), Nat.testBit_lt_two_pow (h'.lt.trans_le hpow)]

theorem spells_localIndex (targets : List Nat) (index : Nat) :
    Spells targets index (localIndex targets index) := by
  refine ⟨localIndex_lt targets index, ?_⟩
  induction targets with
  | nil => exact fun j h => absurd h (Nat.not_lt_zero j)
  | cons q qs ih =>
    intro j h
    cases j with
    | zero => exact testBit_localIndex_cons q qs index
    | succ j =>
      have hj : j < qs.length := Nat.lt_of_succ_lt_succ h
      have hplace : (q :: qs).length - 1 - (j + 1) = qs.length - 1 - j := by
        rw [List.length_cons]; omega
      rw [hplace, List.getElem_cons_succ, ← ih j hj, localIndex]
      split
      · exact Nat.testBit_two_pow_add_gt (by omega) _
      · rw [Nat.zero_add]

theorem spells_replaceBits (h : targets.Nodup) {value : Nat} (hv : value < 2 ^ targets.length)
    (index : Nat) : Spells targets (replaceBits targets value index) value := by
  have hread := spells_localIndex targets (replaceBits targets value index)
  rwa [localIndex_replaceBits h hv] at hread

/-! ## 2. Products -/

/-- **Two matrices on the same qubits are their product.** -/
theorem applyMatrix_mul [CommRing K] [BEq K] [LawfulBEq K] (ψ : Statevector K n)
    (a : GateMatrix K) {b : GateMatrix K} (hdim : b.dim = 2 ^ targets.length)
    (hnodup : (controls ++ targets).Nodup) (hlt : ∀ q ∈ targets, q < n) :
    (ψ.applyMatrix a targets controls).applyMatrix b targets controls =
      ψ.applyMatrix (b.mul a) targets controls := by
  obtain ⟨-, htargets, hdisjoint⟩ := List.nodup_append'.mp hnodup
  apply ext_amplitude
  intro i hi
  rw [amplitude_applyMatrix (ψ.applyMatrix a targets controls) b hnodup hi hlt,
    amplitude_applyMatrix ψ (b.mul a) hnodup hi hlt]
  by_cases h : controls.all i.testBit
  · rw [if_pos h, if_pos h]
    have hrow := localIndex_lt targets i
    -- the second matrix reads what the first has written in the same orbit
    have hinner : ∀ r ∈ Finset.range (2 ^ targets.length),
        (ψ.applyMatrix a targets controls).amplitude (replaceBits targets r i) =
          ∑ c ∈ Finset.range (2 ^ targets.length),
            a.get r c * ψ.amplitude (replaceBits targets c i) := by
      intro r hr
      rw [amplitude_applyMatrix ψ a hnodup (replaceBits_lt hlt hi) hlt,
        all_testBit_replaceBits hdisjoint, if_pos h,
        localIndex_replaceBits htargets (Finset.mem_range.mp hr)]
      simp only [replaceBits_replaceBits]
    calc ∑ r ∈ Finset.range (2 ^ targets.length), b.get (localIndex targets i) r *
          (ψ.applyMatrix a targets controls).amplitude (replaceBits targets r i)
        = ∑ r ∈ Finset.range (2 ^ targets.length), ∑ c ∈ Finset.range (2 ^ targets.length),
            b.get (localIndex targets i) r *
              (a.get r c * ψ.amplitude (replaceBits targets c i)) := by
          refine Finset.sum_congr rfl fun r hr => ?_
          rw [hinner r hr, Finset.mul_sum]
      _ = ∑ c ∈ Finset.range (2 ^ targets.length), ∑ r ∈ Finset.range (2 ^ targets.length),
            b.get (localIndex targets i) r * a.get r c *
              ψ.amplitude (replaceBits targets c i) := by
          rw [Finset.sum_comm]
          simp only [mul_assoc]
      _ = ∑ c ∈ Finset.range (2 ^ targets.length), (b.mul a).get (localIndex targets i) c *
            ψ.amplitude (replaceBits targets c i) := by
          refine Finset.sum_congr rfl fun c hc => ?_
          rw [GateMatrix.get_mul b a (hdim ▸ hrow) (hdim ▸ Finset.mem_range.mp hc), hdim,
            Finset.sum_mul]
  · rw [if_neg h, if_neg h, amplitude_applyMatrix ψ a hnodup hi hlt, if_neg h]

/-! ## 3. The whole of a gate -/

section Gate

variable [CommRing K]

/-- **A matrix under controls, amplitude by amplitude.**  It reads and writes only what there
    is.  Where some control is zero an amplitude stays; elsewhere it becomes the row that its
    index spells, times the old amplitudes of the indices that spell the columns. -/
theorem amplitude_of_gate (ψ : Statevector K n) {m : GateMatrix K}
    (hm : m.OnQubits targets.length) (hnodup : (controls ++ targets).Nodup)
    (hlt : ∀ q ∈ controls ++ targets, q < n) :
    fits n m targets controls = true ∧
      ∀ i < 2 ^ n,
        (∀ row, Spells targets i row ↔ row = localIndex targets i) ∧
        (∀ c < 2 ^ targets.length,
          replaceBits targets c i < 2 ^ n ∧ Spells targets (replaceBits targets c i) c ∧
            ∀ q ∉ targets, (replaceBits targets c i).testBit q = i.testBit q) ∧
        (ψ.applyMatrix m targets controls).amplitude i =
          if ∃ q ∈ controls, i.testBit q = false then ψ.amplitude i
          else ∑ c ∈ Finset.range (2 ^ targets.length),
            m.get (localIndex targets i) c * ψ.amplitude (replaceBits targets c i) := by
  obtain ⟨-, htargets, -⟩ := List.nodup_append'.mp hnodup
  have hltTargets : ∀ q ∈ targets, q < n := fun q hq => hlt q (List.mem_append_right _ hq)
  refine ⟨fits_of_lt hm htargets hltTargets, fun i hi => ⟨fun row => ?_, fun c hc => ?_, ?_⟩⟩
  · constructor
    · intro hrow
      exact hrow.eq (spells_localIndex targets i)
    · rintro rfl
      exact spells_localIndex targets i
  · refine ⟨replaceBits_lt hltTargets hi, spells_replaceBits htargets hc i, ?_⟩
    intro q hq
    exact testBit_replaceBits_of_notMem hq
  · rw [amplitude_applyMatrix ψ m hnodup hi hltTargets]
    by_cases h : ∃ q ∈ controls, i.testBit q = false
    · obtain ⟨q, hq, hzero⟩ := h
      have hnot : ¬ controls.all i.testBit = true := by
        intro hall
        rw [List.all_eq_true.mp hall q hq] at hzero
        cases hzero
      rw [if_neg hnot, if_pos ⟨q, hq, hzero⟩]
    · have hall : controls.all i.testBit = true := by
        rw [List.all_eq_true]
        intro q hq
        by_contra hbit
        exact h ⟨q, hq, by simpa using hbit⟩
      rw [if_pos hall, if_neg h]

def ascent : Statevector ℤ 3 := ⟨#[1, 2, 3, 4, 5, 6, 7, 8], rfl⟩

def staircase : GateMatrix ℤ := .ofFn 4 fun r c => 4 * r + c + 1

theorem onQubits_staircase : staircase.OnQubits [2, 0].length := ⟨rfl, rfl⟩

theorem amplitude_of_gate_ascent :
    staircase.OnQubits [2, 0].length ∧ ([1] ++ [2, 0]).Nodup ∧ (∀ q ∈ [1] ++ [2, 0], q < 3) ∧
      (ascent.applyMatrix staircase [2, 0] [1]).amplitude 4 = 5 ∧
      (ascent.applyMatrix staircase [2, 0] [1]).amplitude 6 = 9 * 3 + 10 * 4 + 11 * 7 + 12 * 8 := by
  have hnodup : ([1] ++ [2, 0]).Nodup := by decide
  have hlt : ∀ q ∈ [1] ++ [2, 0], q < 3 := by decide
  obtain ⟨-, hamplitudes⟩ := amplitude_of_gate ascent onQubits_staircase hnodup hlt
  refine ⟨onQubits_staircase, hnodup, hlt, ?_, ?_⟩
  · rw [(hamplitudes 4 (by decide)).2.2]
    rfl
  · rw [(hamplitudes 6 (by decide)).2.2]
    rfl

end Gate

end CircuitBroker.Statevector
