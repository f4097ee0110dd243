/-
  CircuitBroker/Proofs/Statevector/Controls.lean
  ==============================================
  **Controls in a list and controls in a matrix.**

  A gate under controls can be given as its matrix with a list of controls, or as the
  block matrix that is the identity until all controls are one.  `applyMatrix_controlled`
  says that the two are the same gate.
-/
import CircuitBroker.Proofs.Statevector.Gate

namespace CircuitBroker

variable {K : Type}

theorem trailingZeros_two_pow {k : Nat} (hk : k < 64) : trailingZeros (2 ^ k) = k := by
  have hfind : (List.range 64).find? (fun j => (2 ^ k).testBit j) = some k := by
    rw [List.find?_range_eq_some]
    refine ⟨Nat.testBit_two_pow_self, List.mem_range.mpr hk, fun j hj => ?_⟩
    rw [Nat.testBit_two_pow_of_ne (Nat.ne_of_gt hj)]
    rfl
  rw [trailingZeros, if_neg (Nat.two_pow_pos k).ne', hfind]
  rfl

namespace GateMatrix

/-- A matrix on so many qubits: its dimension, and as many entries as that asks for. -/
structure OnQubits (m : GateMatrix K) (numQubits : Nat) : Prop where
  dim : m.dim = 2 ^ numQubits
  size : m.entries.size = 2 ^ numQubits * 2 ^ numQubits

theorem onQubits_ofFn {k : Nat} (f : Nat → Nat → K) : (ofFn (2 ^ k) f).OnQubits k :=
  ⟨rfl, by simp [ofFn]⟩

theorem OnQubits.controlled [Zero K] [One K] {m : GateMatrix K} {k : Nat} (h : m.OnQubits k)
    (count : Nat) : (m.controlled count).OnQubits (count + k) := by
  have hdim : m.dim <<< count = 2 ^ (count + k) := by
    rw [h.dim, Nat.shiftLeft_eq, ← pow_add, Nat.add_comm]
  rw [GateMatrix.controlled, hdim]
  exact onQubits_ofFn _

theorem OnQubits.adjoint [Zero K] [Conjugate K] {m : GateMatrix K} {k : Nat} (h : m.OnQubits k) :
    m.adjoint.OnQubits k := by
  rw [GateMatrix.adjoint, h.dim]
  exact onQubits_ofFn _

theorem OnQubits.numQubits_eq {m : GateMatrix K} {k : Nat} (h : m.OnQubits k) (hk : k < 64) :
    m.numQubits = k := by
  rw [GateMatrix.numQubits, h.dim, trailingZeros_two_pow hk]

/-- The entries of a block matrix; `offset` is where the last block begins. -/
theorem get_controlled [Zero K] [One K] {m : GateMatrix K} {k count offset : Nat}
    (h : m.dim = 2 ^ k) (hoffset : offset + 2 ^ k = 2 ^ (count + k)) {i j : Nat}
    (hi : i < 2 ^ (count + k)) (hj : j < 2 ^ (count + k)) :
    (m.controlled count).get i j =
      if offset ≤ i ∧ offset ≤ j then m.get (i - offset) (j - offset)
      else if i = j then 1 else 0 := by
  have hdim : m.dim <<< count = 2 ^ (count + k) := by
    rw [h, Nat.shiftLeft_eq, ← pow_add, Nat.add_comm]
  have hback : 2 ^ (count + k) - m.dim = offset := by omega
  rw [GateMatrix.controlled]
  simp only [hdim, hback]
  exact get_ofFn _ hi hj

/-- **A row of a block matrix**: in the last block the row of the base, above it that of the
    identity. -/
theorem sum_row_controlled [CommRing K] {m : GateMatrix K} {k count top row r : Nat}
    (h : m.dim = 2 ^ k) (htop : top + 1 = 2 ^ count) (hrow : row ≤ top) (hr : r < 2 ^ k)
    (f : Nat → K) :
    ∑ c ∈ Finset.range (2 ^ (count + k)), (m.controlled count).get (row * 2 ^ k + r) c * f c =
      if row = top then ∑ c ∈ Finset.range (2 ^ k), m.get r c * f (top * 2 ^ k + c)
      else f (row * 2 ^ k + r) := by
  have hoffset : top * 2 ^ k + 2 ^ k = 2 ^ (count + k) := by
    rw [pow_add, ← htop]; ring
  have hle : row * 2 ^ k ≤ top * 2 ^ k := Nat.mul_le_mul_right _ hrow
  by_cases hlast : row = top
  · subst hlast
    rw [if_pos rfl, ← hoffset, Finset.sum_range_add]
    have hzero : ∀ c ∈ Finset.range (row * 2 ^ k),
        (m.controlled count).get (row * 2 ^ k + r) c * f c = 0 := by
      intro c hc
      rw [Finset.mem_range] at hc
      rw [get_controlled h hoffset (by omega) (by omega), if_neg (by omega), if_neg (by omega),
        zero_mul]
    rw [Finset.sum_eq_zero hzero, zero_add]
    refine Finset.sum_congr rfl fun c hc => ?_
    rw [Finset.mem_range] at hc
    rw [get_controlled h hoffset (by omega) (by omega), if_pos (by omega), Nat.add_sub_cancel_left,
      Nat.add_sub_cancel_left]
  · have hless : row * 2 ^ k + r < top * 2 ^ k := by
      have hnext : (row + 1) * 2 ^ k ≤ top * 2 ^ k := Nat.mul_le_mul_right _ (by omega)
      linarith
    have hentry : ∀ c ∈ Finset.range (2 ^ (count + k)),
        (m.controlled count).get (row * 2 ^ k + r) c * f c =
          if c = row * 2 ^ k + r then f (row * 2 ^ k + r) else 0 := by
      intro c hc
      rw [get_controlled h hoffset (by omega) (Finset.mem_range.mp hc), if_neg (by omega)]
      by_cases hself : c = row * 2 ^ k + r
      · rw [if_pos hself.symm, if_pos hself, hself, one_mul]
      · rw [if_neg (Ne.symm hself), if_neg hself, zero_mul]
    rw [if_neg hlast, Finset.sum_congr rfl hentry, Finset.sum_ite_eq',
      if_pos (Finset.mem_range.mpr (by omega))]

end GateMatrix

namespace Statevector

variable {n : Nat} {targets controls : List Nat}

/-- **A block matrix is its base under a list of controls.** -/
theorem applyMatrix_controlled [CommRing K] (ψ : Statevector K n) {m : GateMatrix K}
    (hdim : m.dim = 2 ^ targets.length) (hnodup : (controls ++ targets).Nodup)
    (hlt : ∀ q ∈ controls ++ targets, q < n) :
    ψ.applyMatrix (m.controlled controls.length) (controls ++ targets) [] =
      ψ.applyMatrix m targets controls := by
  have hltTargets : ∀ q ∈ targets, q < n := fun q hq => hlt q (List.mem_append_right _ hq)
  -- the last block begins where the controls spell their largest number
  obtain ⟨top, htop⟩ : ∃ top, top + 1 = 2 ^ controls.length :=
    ⟨2 ^ controls.length - 1, Nat.sub_add_cancel Nat.one_le_two_pow⟩
  apply ext_amplitude
  intro i hi
  have hrow : localIndex controls i ≤ top := by
    have hless := localIndex_lt controls i
    omega
  rw [amplitude_applyMatrix ψ _ (by simpa using hnodup) hi hlt,
    amplitude_applyMatrix ψ m hnodup hi hltTargets, List.all_nil, if_pos rfl,
    List.length_append, localIndex_append,
    GateMatrix.sum_row_controlled hdim htop hrow (localIndex_lt targets i)]
  by_cases h : controls.all i.testBit
  · have hone : localIndex controls i = top := by
      have hall := localIndex_of_all h
      omega
    rw [if_pos hone, if_pos h]
    refine Finset.sum_congr rfl fun c hc => ?_
    rw [Finset.mem_range] at hc
    have hdiv : (top * 2 ^ targets.length + c) / 2 ^ targets.length = top := by
      rw [Nat.mul_comm, Nat.mul_add_div (by positivity), Nat.div_eq_of_lt hc, Nat.add_zero]
    have hmod : (top * 2 ^ targets.length + c) % 2 ^ targets.length = c := by
      rw [Nat.mul_comm, Nat.mul_add_mod, Nat.mod_eq_of_lt hc]
    have hdisjoint : List.Disjoint controls targets := (List.nodup_append'.mp hnodup).2.2
    rw [replaceBits_append, hdiv, ← replaceBits_mod targets, hmod, ← hone,
      ← localIndex_replaceBits_of_disjoint hdisjoint c i, replaceBits_localIndex]
  · have hnone : localIndex controls i ≠ top := by
      have hless := localIndex_of_not_all h
      omega
    rw [if_neg hnone, if_neg h, ← localIndex_append, replaceBits_localIndex]

end Statevector

end CircuitBroker
