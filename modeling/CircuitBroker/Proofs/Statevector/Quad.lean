/-
  CircuitBroker/Proofs/Statevector/Quad.lean
  ==========================================
  **Gates on two qubits, seen from the two qubits.**

  The four amplitudes of the indices that agree outside two qubits form two rows, one for
  each value of the first qubit.  A gate on the second qubit turns the rows, a gate on the
  first turns the columns, and a control on the other qubit keeps one row or column as it
  was.  A run of gates on two qubits is then a calculation with four numbers.
-/
import CircuitBroker.Proofs.Statevector.Turn

namespace CircuitBroker.Statevector

variable {K : Type} {n : Nat}

/-! ## 1. Rows and columns -/

/-- The four amplitudes of the indices that agree with one outside two qubits: first the row
    where the first qubit is zero, then the row where it is one. -/
def quad [Zero K] (ψ : Statevector K n) (a b index : Nat) : (K × K) × (K × K) :=
  (ψ.pair b (setBit index a false), ψ.pair b (setBit index a true))

def transposed (q : (K × K) × (K × K)) : (K × K) × (K × K) :=
  ((q.1.1, q.2.1), (q.1.2, q.2.2))

theorem setBit_comm {a b : Nat} (hne : a ≠ b) (index : Nat) (x y : Bool) :
    setBit (setBit index a x) b y = setBit (setBit index b y) a x := by
  apply Nat.eq_of_testBit_eq
  intro r
  by_cases ha : r = a
  · have hb : r ≠ b := fun he => hne (ha.symm.trans he)
    simp [ha, hne]
  · simp [ha]

theorem quad_swap [Zero K] (ψ : Statevector K n) {a b : Nat} (hne : a ≠ b) (index : Nat) :
    ψ.quad b a index = transposed (ψ.quad a b index) := by
  simp only [quad, pair, transposed, setBit_comm hne.symm]

theorem ext_quad [Zero K] {ψ φ : Statevector K n} {a b : Nat}
    (h : ∀ i < 2 ^ n, ψ.quad a b i = φ.quad a b i) : ψ = φ := by
  apply ext_pair b
  intro i hi
  obtain ⟨hzero, hone⟩ := Prod.ext_iff.mp (h i hi)
  cases hbit : i.testBit a with
  | false =>
    rw [← setBit_self i a, hbit]
    exact hzero
  | true =>
    rw [← setBit_self i a, hbit]
    exact hone

/-! ## 2. Gates -/

variable [CommRing K] {a b : Nat}

theorem quad_applyMatrix_second (ψ : Statevector K n) (m : GateMatrix K) (ha : a < n) (hb : b < n)
    {i : Nat} (hi : i < 2 ^ n) : (ψ.applyMatrix m [b] []).quad a b i =
      (m.turn (ψ.quad a b i).1, m.turn (ψ.quad a b i).2) := by
  have hpair : ∀ x, (ψ.applyMatrix m [b] []).pair b (setBit i a x) =
      m.turn (ψ.pair b (setBit i a x)) := fun x =>
    (pair_applyMatrix ψ m (by simp) hb (setBit_lt x ha hi)).trans (if_pos rfl)
  rw [quad, hpair, hpair]
  rfl

theorem quad_applyMatrix_under_first (ψ : Statevector K n) (m : GateMatrix K) (hne : a ≠ b)
    (ha : a < n) (hb : b < n) {i : Nat} (hi : i < 2 ^ n) :
    (ψ.applyMatrix m [b] [a]).quad a b i = ((ψ.quad a b i).1, m.turn (ψ.quad a b i).2) := by
  have hpair : ∀ x, (ψ.applyMatrix m [b] [a]).pair b (setBit i a x) =
      if x then m.turn (ψ.pair b (setBit i a x)) else ψ.pair b (setBit i a x) := by
    intro x
    rw [pair_applyMatrix ψ m (by simpa using hne) hb (setBit_lt x ha hi)]
    simp
  rw [quad, hpair, hpair]
  rfl

theorem quad_applyMatrix_first (ψ : Statevector K n) (m : GateMatrix K) (hne : a ≠ b)
    (ha : a < n) (hb : b < n) {i : Nat} (hi : i < 2 ^ n) :
    (ψ.applyMatrix m [a] []).quad a b i =
      transposed (m.turn (transposed (ψ.quad a b i)).1, m.turn (transposed (ψ.quad a b i)).2) := by
  rw [quad_swap _ hne.symm, quad_applyMatrix_second ψ m hb ha hi, ← quad_swap ψ hne]

theorem quad_applyMatrix_under_second (ψ : Statevector K n) (m : GateMatrix K) (hne : a ≠ b)
    (ha : a < n) (hb : b < n) {i : Nat} (hi : i < 2 ^ n) :
    (ψ.applyMatrix m [a] [b]).quad a b i =
      transposed ((transposed (ψ.quad a b i)).1, m.turn (transposed (ψ.quad a b i)).2) := by
  rw [quad_swap _ hne.symm, quad_applyMatrix_under_first ψ m hne.symm hb ha hi, ← quad_swap ψ hne]

def rowTimesQuad (m : GateMatrix K) (row : Nat) (q : (K × K) × (K × K)) : K :=
  m.get row 0 * q.1.1 + m.get row 1 * q.1.2 + m.get row 2 * q.2.1 + m.get row 3 * q.2.2

theorem quad_applyMatrix_both (ψ : Statevector K n) (m : GateMatrix K) (hne : a ≠ b)
    (ha : a < n) (hb : b < n) {i : Nat} (hi : i < 2 ^ n) :
    (ψ.applyMatrix m [a, b] []).quad a b i =
      ((rowTimesQuad m 0 (ψ.quad a b i), rowTimesQuad m 1 (ψ.quad a b i)),
        (rowTimesQuad m 2 (ψ.quad a b i), rowTimesQuad m 3 (ψ.quad a b i))) := by
  have hindex : ∀ x y x' y', setBit (setBit (setBit (setBit i a x) b y) b y') a x' =
      setBit (setBit i a x') b y' := by
    intro x y x' y'
    rw [setBit_setBit, ← setBit_comm hne, setBit_setBit]
  have hrow : ∀ x y, localIndex [a, b] (setBit (setBit i a x) b y) =
      (if x then 2 else 0) + if y then 1 else 0 := by
    intro x y
    simp [localIndex, hne]
  have hentry : ∀ x y, (ψ.applyMatrix m [a, b] []).amplitude (setBit (setBit i a x) b y) =
      rowTimesQuad m ((if x then 2 else 0) + if y then 1 else 0) (ψ.quad a b i) := by
    intro x y
    rw [amplitude_applyMatrix ψ m (by simpa using hne) (setBit_lt y hb (setBit_lt x ha hi))
      (by simp [ha, hb]), List.all_nil, if_pos rfl, hrow]
    have hbits : Nat.testBit 1 1 = false ∧ Nat.testBit 2 0 = false ∧ Nat.testBit 2 1 = true ∧
      Nat.testBit 3 0 = true ∧ Nat.testBit 3 1 = true := by decide
    simp [Finset.sum_range_succ, replaceBits, hindex, rowTimesQuad, quad, pair, hbits]
  rw [quad, pair, pair, hentry, hentry, hentry, hentry]
  rfl

end CircuitBroker.Statevector
