/-
  CircuitBroker/Proofs/Statevector/Turn.lean
  ==========================================
  **Gates on one target, seen from the target.**

  A gate with one target mixes the two amplitudes of an index that differ at the target,
  and leaves the pair alone where some control is zero.  So a run of gates with a common
  target is, for every setting of the other qubits, a product of two-by-two matrices
  (`pair_applyGates`), and comparing two such runs is a calculation with pairs.  Gates put
  under further controls act as before where these are one and not at all elsewhere
  (`turns_under`).
-/
import CircuitBroker.Proofs.Simulation.Steps

namespace CircuitBroker

def GateMatrix.turn {K : Type} [Zero K] [Add K] [Mul K] (m : GateMatrix K) (p : K × K) : K × K :=
  (m.get 0 0 * p.1 + m.get 0 1 * p.2, m.get 1 0 * p.1 + m.get 1 1 * p.2)

def GateMatrix.block {K : Type} [Zero K] (m : GateMatrix K) (v : Nat) : GateMatrix K :=
  ⟨2, #[m.get (2 * v) (2 * v), m.get (2 * v) (2 * v + 1), m.get (2 * v + 1) (2 * v),
    m.get (2 * v + 1) (2 * v + 1)]⟩

namespace Statevector

variable {K : Type} {n : Nat}

/-! ## 1. Pairs -/

/-- The amplitudes of the two indices that agree with one outside a qubit: first where the
    qubit is zero, then where it is one. -/
def pair [Zero K] (ψ : Statevector K n) (target index : Nat) : K × K :=
  (ψ.amplitude (setBit index target false), ψ.amplitude (setBit index target true))

theorem setBit_self (index q : Nat) : setBit index q (index.testBit q) = index := by
  apply Nat.eq_of_testBit_eq
  intro r
  by_cases h : r = q
  · simp [h]
  · simp [h]

theorem ext_pair [Zero K] {ψ φ : Statevector K n} (target : Nat)
    (h : ∀ i < 2 ^ n, ψ.pair target i = φ.pair target i) : ψ = φ := by
  apply ext_amplitude
  intro i hi
  obtain ⟨hzero, hone⟩ := Prod.ext_iff.mp (h i hi)
  cases hbit : i.testBit target with
  | false =>
    rw [← setBit_self i target, hbit]
    exact hzero
  | true =>
    rw [← setBit_self i target, hbit]
    exact hone

variable [CommRing K] {controls : List Nat} {target : Nat}

theorem localIndex_singleton (q index : Nat) :
    localIndex [q] index = if index.testBit q then 1 else 0 := by
  simp [localIndex]

theorem replaceBits_singleton (q value index : Nat) :
    replaceBits [q] value index = setBit index q (value.testBit 0) := rfl

theorem setBit_setBit (index q : Nat) (a b : Bool) :
    setBit (setBit index q a) q b = setBit index q b := by
  apply Nat.eq_of_testBit_eq
  intro r
  by_cases h : r = q
  · simp [h]
  · simp [h]

/-- **One gate turns the pairs its controls let through.** -/
theorem pair_applyMatrix (ψ : Statevector K n) (m : GateMatrix K)
    (hnodup : (controls ++ [target]).Nodup) (ht : target < n) {i : Nat} (hi : i < 2 ^ n) :
    (ψ.applyMatrix m [target] controls).pair target i =
      if controls.all i.testBit then m.turn (ψ.pair target i) else ψ.pair target i := by
  have hlt : ∀ q ∈ [target], q < n := by simpa using ht
  have hdisjoint : List.Disjoint controls [target] := (List.nodup_append'.mp hnodup).2.2
  have hall : ∀ b, controls.all (setBit i target b).testBit = controls.all i.testBit := by
    intro b
    cases b with
    | false => exact all_testBit_replaceBits hdisjoint 0 i
    | true => exact all_testBit_replaceBits hdisjoint 1 i
  have hrow : ∀ b, localIndex [target] (setBit i target b) = if b then 1 else 0 := by
    intro b
    rw [localIndex_singleton]
    simp
  simp only [pair, amplitude_applyMatrix ψ m hnodup (setBit_lt _ ht hi) hlt, hall, hrow,
    List.length_singleton, pow_one, Finset.sum_range_succ, Finset.sum_range_zero, zero_add,
    replaceBits_singleton, setBit_setBit]
  by_cases h : controls.all i.testBit
  · simp [h, GateMatrix.turn]
  · simp [h]

section Last

variable {qubits : List Nat} (hdisjoint : List.Disjoint qubits [target])

include hdisjoint

/-- The last qubit is the parity of the number some qubits spell. -/
theorem localIndex_append_setBit (index : Nat) (b : Bool) :
    localIndex (qubits ++ [target]) (setBit index target b) =
      2 * localIndex qubits index + if b then 1 else 0 := by
  have hsame : localIndex qubits (setBit index target b) = localIndex qubits index := by
    cases b with
    | false => exact localIndex_replaceBits_of_disjoint hdisjoint 0 index
    | true => exact localIndex_replaceBits_of_disjoint hdisjoint 1 index
  rw [localIndex_append, hsame, localIndex_singleton]
  simp [Nat.mul_comm]

theorem replaceBits_append_setBit (index : Nat) (a b : Bool) :
    replaceBits (qubits ++ [target]) (2 * localIndex qubits index + if a then 1 else 0)
      (setBit index target b) = setBit index target a := by
  rw [← localIndex_append_setBit hdisjoint]
  apply replaceBits_localIndex_of_agree
  intro r hr
  have hne : r ≠ target := fun he => hr (by simp [he])
  simp [hne]

end Last

/-- A matrix that is zero outside its two-by-two blocks turns each pair by the block that the
    other qubits name. -/
theorem pair_applyMatrix_blocks (ψ : Statevector K n) (m : GateMatrix K) {qubits : List Nat}
    (hm : ∀ r < 2 ^ (qubits.length + 1), ∀ c < 2 ^ (qubits.length + 1), r / 2 ≠ c / 2 →
      m.get r c = 0)
    (hnodup : (qubits ++ [target]).Nodup) (hlt : ∀ q ∈ qubits ++ [target], q < n) {i : Nat}
    (hi : i < 2 ^ n) :
    (ψ.applyMatrix m (qubits ++ [target]) []).pair target i =
      (m.block (localIndex qubits i)).turn (ψ.pair target i) := by
  have ht : target < n := hlt target (by simp)
  have hdisjoint : List.Disjoint qubits [target] := (List.nodup_append'.mp hnodup).2.2
  have hv : localIndex qubits i < 2 ^ qubits.length := localIndex_lt qubits i
  have hpow : 2 ^ (qubits.length + 1) = 2 * 2 ^ qubits.length := by rw [pow_succ]; ring
  have hrow := localIndex_append_setBit hdisjoint i
  have hcolumn := replaceBits_append_setBit hdisjoint i
  generalize localIndex qubits i = v at hv hrow hcolumn
  have hrows : ∀ b, (ψ.applyMatrix m (qubits ++ [target]) []).amplitude (setBit i target b) =
      m.get (2 * v + if b then 1 else 0) (2 * v) * ψ.amplitude (setBit i target false) +
        m.get (2 * v + if b then 1 else 0) (2 * v + 1) * ψ.amplitude (setBit i target true) := by
    intro b
    have hr : (2 * v + if b then 1 else 0) < 2 ^ (qubits.length + 1) := by
      rw [hpow]; split <;> omega
    rw [amplitude_applyMatrix ψ m (by simpa using hnodup) (setBit_lt b ht hi) hlt, List.all_nil,
      if_pos rfl, hrow, List.length_append, List.length_singleton,
      Finset.sum_eq_add (2 * v) (2 * v + 1) (by omega)]
    · rw [← hcolumn false b, ← hcolumn true b]
      simp
    · intro c hc hne
      rw [hm _ hr c (Finset.mem_range.mp hc) (by split <;> omega), zero_mul]
    · intro hc; exact absurd (Finset.mem_range.mpr (by omega)) hc
    · intro hc; exact absurd (Finset.mem_range.mpr (by omega)) hc
  exact Prod.ext (hrows false) (hrows true)

end Statevector

/-! ## 2. Runs of gates -/

namespace Simulator

variable {R : Type} [CommRing R] {n : Nat} {target : Nat}

open Statevector

/-- Gates with one target, each a matrix under some controls. -/
def onTarget (target : Nat) (moves : List (GateMatrix (Amplitude R) × List Nat)) :
    List (LoweredStep (Amplitude R)) :=
  moves.map fun move => .gate move.1 [target] move.2

/-- What gates on one target do to a pair, given the values of the other qubits. -/
def turns (bit : Nat → Bool) (moves : List (GateMatrix (Amplitude R) × List Nat))
    (p : Amplitude R × Amplitude R) : Amplitude R × Amplitude R :=
  moves.foldl (fun p move => if move.2.all bit then move.1.turn p else p) p

/-- **A run of gates on one target turns every pair by its gates, one after the other.** -/
theorem pair_applyGates (ht : target < n) {i : Nat} (hi : i < 2 ^ n)
    (moves : List (GateMatrix (Amplitude R) × List Nat)) :
    (∀ move ∈ moves, (move.2 ++ [target]).Nodup) → ∀ ψ : Statevector (Amplitude R) n,
      (applyGates ψ (onTarget target moves)).pair target i =
        turns i.testBit moves (ψ.pair target i) := by
  induction moves with
  | nil => intro _ ψ; rfl
  | cons move moves ih =>
    intro hnodup ψ
    obtain ⟨hmove, hrest⟩ := List.forall_mem_cons.mp hnodup
    rw [onTarget, List.map_cons, applyGates_gate, ← onTarget, ih hrest,
      pair_applyMatrix ψ move.1 hmove ht hi]
    rfl

theorem sameGates_onTarget (ht : target < n)
    {moves moves' : List (GateMatrix (Amplitude R) × List Nat)}
    (hnodup : ∀ move ∈ moves, (move.2 ++ [target]).Nodup)
    (hnodup' : ∀ move ∈ moves', (move.2 ++ [target]).Nodup)
    (h : ∀ bit p, turns bit moves p = turns bit moves' p) :
    SameGates n (onTarget target moves) (onTarget target moves') := by
  intro ψ
  apply ext_pair target
  intro i hi
  rw [pair_applyGates ht hi moves hnodup ψ, pair_applyGates ht hi moves' hnodup' ψ, h]

def underControls (controls : List Nat) (moves : List (GateMatrix (Amplitude R) × List Nat)) :
    List (GateMatrix (Amplitude R) × List Nat) :=
  moves.map fun move => (move.1, controls ++ move.2)

/-- **Under controls, a run acts where they are all one, and nowhere else.** -/
theorem turns_under (bit : Nat → Bool) (controls : List Nat)
    (moves : List (GateMatrix (Amplitude R) × List Nat)) :
    ∀ p, turns bit (underControls controls moves) p =
      if controls.all bit then turns bit moves p else p := by
  induction moves with
  | nil => intro p; simp [turns, underControls]
  | cons move moves ih =>
    intro p
    have hopen : turns bit (underControls controls (move :: moves)) p =
        turns bit (underControls controls moves)
          (if (controls ++ move.2).all bit then move.1.turn p else p) := rfl
    have hopen' : turns bit (move :: moves) p =
        turns bit moves (if move.2.all bit then move.1.turn p else p) := rfl
    rw [hopen, hopen', ih, List.all_append]
    by_cases h : controls.all bit
    · simp only [h, Bool.true_and, if_true]
    · simp only [h, Bool.false_and, if_false, Bool.false_eq_true]

end Simulator

end CircuitBroker
