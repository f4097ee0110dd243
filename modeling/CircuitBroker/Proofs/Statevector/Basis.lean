/-
  CircuitBroker/Proofs/Statevector/Basis.lean
  ===========================================
  **States in which every qubit has a value.**

  `Statevector.basis` is the state of one index.  A matrix whose column at the index has a
  single one sends it to another such state (`applyMatrix_basis`), so flips and exchanges do
  to these states what they do to bits.  Over the reals, measuring a qubit of such a state
  finds its bit, whatever is drawn, and leaves the state as it was; drawing an index from its
  distribution gives the index.
-/
import CircuitBroker.Proofs.Circuit.Execution
import CircuitBroker.Proofs.GateMatrix.Identities
import CircuitBroker.Proofs.Scalar
import CircuitBroker.Proofs.Statevector.Turn

namespace CircuitBroker.Statevector

variable {K : Type} {n i : Nat} {targets controls : List Nat}

/-! ## 1. Gates -/

def basis [Zero K] [One K] (n i : Nat) : Statevector K n where
  amplitudes := Array.ofFn fun j : Fin (1 <<< n) => if j.val = i then 1 else 0
  size_amplitudes := by simp

theorem zero_eq_basis [Zero K] [One K] : (zero n : Statevector K n) = basis n 0 := rfl

theorem amplitude_basis [Zero K] [One K] {j : Nat} (hj : j < 2 ^ n) :
    (basis n i : Statevector K n).amplitude j = if j = i then 1 else 0 := by
  have hsize : j < 1 <<< n := by rwa [Nat.one_shiftLeft]
  simp [amplitude, basis, hsize]

variable [CommRing K]

/-- **A column with a single one sends a state of one index to another.** -/
theorem applyMatrix_basis {m : GateMatrix K} (hnodup : (controls ++ targets).Nodup)
    (hlt : ∀ q ∈ targets, q < n) (hi : i < 2 ^ n) {row : Nat} (hrow : row < 2 ^ targets.length)
    (hcolumn : ∀ r < 2 ^ targets.length,
      m.get r (localIndex targets i) = if r = row then 1 else 0) :
    (basis n i).applyMatrix m targets controls =
      basis n (if controls.all i.testBit then replaceBits targets row i else i) := by
  obtain ⟨-, htargets, hdisjoint⟩ := List.nodup_append'.mp hnodup
  apply ext_amplitude
  intro j hj
  rw [amplitude_applyMatrix _ m hnodup hj hlt, amplitude_basis hj, amplitude_basis hj]
  -- an entry counts if its column is the one that `i` spells and `j` lies in the orbit of `i`
  have hterm : ∀ c ∈ Finset.range (2 ^ targets.length),
      m.get (localIndex targets j) c * (basis n i : Statevector K n).amplitude
          (replaceBits targets c j) =
        if c = localIndex targets i then
          if replaceBits targets 0 j = replaceBits targets 0 i then
            m.get (localIndex targets j) (localIndex targets i)
          else 0
        else 0 := by
    intro c hc
    rw [amplitude_basis (replaceBits_lt hlt hj), mul_ite, mul_one, mul_zero]
    simp only [replaceBits_eq_iff htargets (Finset.mem_range.mp hc)]
    by_cases hself : c = localIndex targets i
    · simp [hself]
    · simp [hself]
  have hrowOf : replaceBits targets row i = j ↔
      replaceBits targets 0 i = replaceBits targets 0 j ∧ row = localIndex targets j :=
    replaceBits_eq_iff htargets hrow
  rw [Finset.sum_congr rfl hterm, Finset.sum_ite_eq',
    if_pos (Finset.mem_range.mpr (localIndex_lt targets i)), hcolumn _ (localIndex_lt targets j)]
  by_cases hagree : replaceBits targets 0 j = replaceBits targets 0 i
  · have hcontrols : controls.all j.testBit = controls.all i.testBit := by
      rw [← all_testBit_replaceBits hdisjoint 0 j, hagree, all_testBit_replaceBits hdisjoint]
    rw [if_pos hagree, hcontrols]
    split
    · simp only [eq_comm (a := j), hrowOf, hagree, true_and, eq_comm (a := row)]
    · rfl
  · have hne : j ≠ i := by
      rintro rfl
      exact hagree rfl
    have hnot : j ≠ replaceBits targets row i := fun he => hagree (hrowOf.mp he.symm).1.symm
    rw [if_neg hagree, if_neg hne, ite_self, if_neg]
    split
    · exact hnot
    · exact hne

/-- The state in which the qubits have these bits. -/
def HasBits (ψ : Statevector K n) (bits : Nat → Bool) : Prop :=
  ∃ i < 2 ^ n, ψ = basis n i ∧ i.testBit = bits

theorem hasBits_zero : (zero n : Statevector K n).HasBits fun _ => false :=
  ⟨0, Nat.two_pow_pos n, zero_eq_basis, funext Nat.zero_testBit⟩

theorem HasBits.unique [Nontrivial K] {ψ : Statevector K n} {bits bits' : Nat → Bool}
    (h : ψ.HasBits bits) (h' : ψ.HasBits bits') : bits = bits' := by
  obtain ⟨i, hi, rfl, rfl⟩ := h
  obtain ⟨j, hj, heq, rfl⟩ := h'
  have hone : (basis n j : Statevector K n).amplitude i = 1 := by
    rw [← heq, amplitude_basis hi, if_pos rfl]
  rw [amplitude_basis hi] at hone
  by_contra hne
  rw [if_neg fun hij => hne (by rw [hij])] at hone
  exact zero_ne_one hone

/-- The bits after a matrix that has, in the column the targets spell, a one in row `row` and
    zeros elsewhere. -/
theorem HasBits.applyMatrix {ψ : Statevector K n} {bits : Nat → Bool} (h : ψ.HasBits bits)
    {m : GateMatrix K} (hnodup : (controls ++ targets).Nodup) (hlt : ∀ q ∈ targets, q < n)
    (row : Nat → Nat) (hrow : ∀ i, row i < 2 ^ targets.length)
    (hcolumn : ∀ i, ∀ r < 2 ^ targets.length,
      m.get r (localIndex targets i) = if r = row i then 1 else 0)
    {bits' : Nat → Bool} (hbits : ∀ i, i.testBit = bits → ∀ q,
      (if controls.all bits then (replaceBits targets (row i) i).testBit q else bits q) =
        bits' q) :
    (ψ.applyMatrix m targets controls).HasBits bits' := by
  obtain ⟨i, hi, rfl, rfl⟩ := h
  refine ⟨_, ?_, applyMatrix_basis hnodup hlt hi (hrow i) (hcolumn i), funext fun q => ?_⟩
  · split
    · exact replaceBits_lt hlt hi
    · exact hi
  · rw [← hbits i rfl q]
    split <;> rfl

section Gates

variable {R : Type} [CommRing R] {ψ : Statevector (Amplitude R) n} {bits : Nat → Bool}
  {a b target : Nat}

open GateMatrix

theorem HasBits.id (h : ψ.HasBits bits) (ht : target < n) :
    (ψ.applyMatrix Standard.id [target] []).HasBits bits := by
  refine h.applyMatrix (by simp) (by simpa using ht) (localIndex [target]) (localIndex_lt _)
    (fun i r hr => get_ofFn _ hr (localIndex_lt _ i)) fun i hi q => ?_
  rw [List.all_nil, if_pos rfl, replaceBits_localIndex, hi]

theorem HasBits.x (h : ψ.HasBits bits) (hnodup : (controls ++ [target]).Nodup) (ht : target < n) :
    (ψ.applyMatrix Standard.x [target] controls).HasBits (Register.flip controls target bits) := by
  have hentry : ∀ r c, (Standard.x : GateMatrix (Amplitude R)).get r c =
      #[(0 : Amplitude R), 1, 1, 0].getD (r * 2 + c) 0 := fun _ _ => rfl
  refine h.applyMatrix hnodup (by simpa using ht) (fun i => if i.testBit target then 0 else 1)
    (fun i => by split <;> simp) (fun i r hr => ?_) fun i hi q => ?_
  · rw [localIndex_singleton, hentry]
    change r < 2 at hr
    interval_cases r <;> cases i.testBit target <;> simp
  · rw [replaceBits_singleton, testBit_setBit, Register.flip, hi]
    by_cases hq : q = target
    · subst hq
      cases controls.all bits <;> cases bits q <;> simp
    · simp [hq]

/-- The two bits that a row of a matrix on two qubits spells. -/
theorem testBit_replaceBits_pair (x y : Bool) (index q : Nat) :
    (replaceBits [a, b] ((if x then 2 else 0) + if y then 1 else 0) index).testBit q =
      if q = a then x else if q = b then y else index.testBit q := by
  have hbits : ∀ x y : Bool, ((if x then 2 else 0) + if y then 1 else 0).testBit 1 = x ∧
      ((if x then 2 else 0) + if y then 1 else 0).testBit 0 = y := by decide
  rw [testBit_replaceBits_cons, testBit_replaceBits_cons]
  simp only [List.length_singleton, List.length_nil, (hbits x y).1, (hbits x y).2]
  rfl

theorem localIndex_pair (index : Nat) :
    localIndex [a, b] index =
      (if index.testBit a then 2 else 0) + if index.testBit b then 1 else 0 := by
  simp [localIndex]

theorem HasBits.swap (h : ψ.HasBits bits) (controls : List Nat)
    (hnodup : (controls ++ [a, b]).Nodup) (hlt : ∀ q ∈ [a, b], q < n) :
    (ψ.applyMatrix Standard.swap [a, b] controls).HasBits
      (Register.exchange controls a b bits) := by
  refine h.applyMatrix hnodup hlt
    (fun i => (if i.testBit b then 2 else 0) + if i.testBit a then 1 else 0)
    (fun i => by split <;> split <;> simp) (fun i r hr => ?_) fun i hi q => ?_
  · rw [localIndex_pair, Standard.swap, get_permutation _ hr (by split <;> split <;> simp)]
    cases i.testBit a <;> cases i.testBit b <;> simp [eq_comm]
  · rw [testBit_replaceBits_pair, hi, Register.exchange]

theorem HasBits.dcx (h : ψ.HasBits bits) (hne : a ≠ b) (hlt : ∀ q ∈ [a, b], q < n) :
    (ψ.applyMatrix Standard.dcx [a, b] []).HasBits
      (Register.flip [b] a (Register.flip [a] b bits)) := by
  refine h.applyMatrix (by simpa using hne) hlt
    (fun i => (if i.testBit b then 2 else 0) +
      if xor (i.testBit a) (i.testBit b) then 1 else 0)
    (fun i => by split <;> split <;> simp) (fun i r hr => ?_) fun i hi q => ?_
  · rw [localIndex_pair, Standard.dcx, get_permutation _ hr (by split <;> split <;> simp)]
    cases i.testBit a <;> cases i.testBit b <;> simp [eq_comm]
  · have hxor : ∀ x y : Bool, y = xor x (xor y x) := by decide
    rw [testBit_replaceBits_pair, hi]
    by_cases ha : q = a
    · simpa [ha, Register.flip, hne] using hxor (bits a) (bits b)
    · by_cases hb : q = b
      · simp [hb, Register.flip, Ne.symm hne, Bool.xor_comm]
      · simp [ha, hb, Register.flip]

end Gates

/-! ## 2. Measurements -/

section Measure

variable {ψ : Statevector (Amplitude ℝ) n} {q : Nat} {draw : ℝ}

theorem probabilities_basis (n i : Nat) : (basis n i : Statevector (Amplitude ℝ) n).probabilities =
    (List.range (2 ^ n)).map fun j => if j = i then 1 else 0 := by
  rw [probabilities, basis]
  apply List.ext_getElem
  · simp [Nat.one_shiftLeft]
  · intro j hj _
    by_cases h : j = i
    · simp [h, Amplitude.normSq]
    · simp [h, Amplitude.normSq]

theorem probabilityOne_basis (hi : i < 2 ^ n) (q : Nat) :
    (basis n i : Statevector (Amplitude ℝ) n).probabilityOne q =
      if i.testBit q then 1 else 0 := by
  have hcount : ((List.range (2 ^ n)).filter (·.testBit q)).count i =
      if i.testBit q then 1 else 0 := by
    split
    · next hbit =>
      refine List.count_eq_one_of_mem (List.nodup_range.filter _) ?_
      exact List.mem_filter.mpr ⟨List.mem_range.mpr hi, hbit⟩
    · next hbit =>
      exact List.count_eq_zero_of_not_mem fun hmem => hbit (List.mem_filter.mp hmem).2
  rw [probabilityOne, probabilities_basis, zipIdx_map_range, List.filter_map, List.map_map,
    ← List.sum_eq_foldl]
  have hsum := List.sum_map_ite_eq ((List.range (2 ^ n)).filter (·.testBit q))
    (fun _ => (1 : ℝ)) (fun _ => 0) i
  rw [hcount] at hsum
  refine Eq.trans ?_ (hsum.trans ?_)
  · rfl
  · split <;> simp

theorem amplitude_project (ψ : Statevector (Amplitude ℝ) n) (q : Nat) (outcome : Bool) (norm : ℝ)
    {j : Nat} (hj : j < 2 ^ n) : (ψ.project q outcome norm).amplitude j =
      if j.testBit q = outcome then
        if Magnitude.lt 0 norm then (ψ.amplitude j).divide norm else ψ.amplitude j
      else 0 := by
  have hsize : j < ψ.amplitudes.size := by rwa [ψ.size_amplitudes, Nat.one_shiftLeft]
  simp [amplitude, project, Array.getD, hsize]

/-- **Measuring a qubit that has a value finds it, and changes nothing.** -/
theorem measure_basis (hi : i < 2 ^ n) (q : Nat) (hpos : 0 ≤ draw) (hlt : draw < 1) :
    (basis n i : Statevector (Amplitude ℝ) n).measure q draw = (i.testBit q, basis n i) := by
  have hfound : Magnitude.lt draw (if i.testBit q then (1 : ℝ) else 0) = i.testBit q := by
    cases i.testBit q <;> simp [Magnitude.lt, hpos, hlt]
  have hnorm : Elementary.sqrt (if i.testBit q then (if i.testBit q then (1 : ℝ) else 0)
      else 1 - if i.testBit q then 1 else 0) = 1 := by
    cases i.testBit q <;> simp [Elementary.sqrt]
  have hdivide : ∀ a : Amplitude ℝ, a.divide 1 = a := fun a => by
    ext <;> simp [Amplitude.divide]
  rw [measure]
  simp only [probabilityOne_basis hi, hfound, hnorm]
  refine Prod.ext rfl (ext_amplitude fun j hj => ?_)
  rw [amplitude_project _ _ _ _ hj, hdivide, ite_self, amplitude_basis hj]
  by_cases hself : j = i
  · rw [hself, if_pos rfl]
  · rw [if_neg hself, ite_self]

theorem runningSums_zeros (acc : ℝ) (count : Nat) (rest : List ℝ) :
    runningSums acc (List.replicate count 0 ++ rest) =
      List.replicate count acc ++ runningSums acc rest := by
  induction count with
  | zero => rfl
  | succ count ih =>
    rw [List.replicate_succ, List.cons_append, runningSums, add_zero, ih, List.replicate_succ,
      List.cons_append]

theorem cumulative_basis (hi : i < 2 ^ n) :
    (basis n i : Statevector (Amplitude ℝ) n).cumulative =
      List.replicate i 0 ++ List.replicate (2 ^ n - i) 1 := by
  obtain ⟨m, hm⟩ : ∃ m, 2 ^ n = i + (m + 1) := ⟨2 ^ n - i - 1, by omega⟩
  have hzeros : ∀ (l : List Nat), (∀ j ∈ l, j ≠ i) →
      l.map (fun j => if j = i then (1 : ℝ) else 0) = List.replicate l.length 0 := by
    intro l hl
    rw [List.eq_replicate_iff]
    refine ⟨List.length_map .., fun x hx => ?_⟩
    obtain ⟨j, hj, rfl⟩ := List.mem_map.mp hx
    exact if_neg (hl j hj)
  have hbefore := hzeros (List.range i) fun j hj => (List.mem_range.mp hj).ne
  have hafter := hzeros ((List.range m).map fun j => i + (j + 1)) fun j hj => by
    obtain ⟨k, -, rfl⟩ := List.mem_map.mp hj
    omega
  rw [List.length_range] at hbefore
  rw [List.length_map, List.length_range] at hafter
  rw [cumulative, probabilities_basis, hm, Nat.add_sub_cancel_left, List.range_add,
    List.range_succ_eq_map, List.map_append, hbefore, runningSums_zeros, List.map_cons,
    List.map_map, List.map_cons, if_pos (Nat.add_zero i), runningSums, zero_add]
  have hrest : ((List.range m).map ((i + ·) ∘ Nat.succ)).map
      (fun j => if j = i then (1 : ℝ) else 0) = List.replicate m 0 ++ [] := by
    rw [List.append_nil]; exact hafter
  rw [hrest, runningSums_zeros, runningSums, List.append_nil, List.replicate_succ]

/-- **Sampling a state of one index gives the index.** -/
theorem sampleIndex_basis (hi : i < 2 ^ n) (hpos : 0 ≤ draw) (hlt : draw < 1) :
    sampleIndex (basis n i : Statevector (Amplitude ℝ) n).cumulative draw = i := by
  obtain ⟨m, hm⟩ : ∃ m, 2 ^ n - i = m + 1 := ⟨2 ^ n - i - 1, by omega⟩
  have hzero : ∀ x ∈ List.replicate i (0 : ℝ), Magnitude.le x draw = true := by
    intro x hx
    rw [List.eq_of_mem_replicate hx]
    simpa [Magnitude.le] using hpos
  have hone : Magnitude.le (1 : ℝ) draw = false := by simpa [Magnitude.le] using hlt
  have htotal : ((List.replicate i (0 : ℝ) ++ List.replicate (m + 1) 1).getLast?).getD 0 = 1 := by
    rw [List.replicate_succ', ← List.append_assoc, List.getLast?_concat]
    rfl
  rw [cumulative_basis hi, hm, sampleIndex]
  simp only [htotal, mul_one]
  rw [List.takeWhile_append_of_pos hzero, List.replicate_succ,
    List.takeWhile_cons_of_neg (by simp [hone]), List.append_nil, List.length_replicate]
  exact Nat.min_eq_left (by simp)

end Measure

end CircuitBroker.Statevector
