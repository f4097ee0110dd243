/-
  CircuitBroker/Proofs/GateMatrix/Unitary.lean
  ============================================
  **Unitary matrices, and what leaves them unitary.**

  `ExactlyUnitary` is `U†U = 1`, entry for entry and with no tolerance.  Products, conjugate
  transposes, tensor products and controlled matrices of such matrices are such matrices again; each
  time the laws of the algebra move `U†` next to `U`.

  A matrix that is written cell by cell is the matrix of the algebra, as far as words reach.  The
  number of controls is not looked at: a build that does not check its arithmetic takes it modulo
  64, and so 64 controls are none (`controlled?_sixtyFour`).
-/
import CircuitBroker.GateMatrix.Standard
import CircuitBroker.Proofs.GateMatrix.Passes

namespace CircuitBroker.GateMatrix

variable {K : Type} [CommRing K] [BEq K] [LawfulBEq K] [Conjugate K] {a b c d : GateMatrix K}
  {j k : Nat}

/-- A matrix on so many qubits that its conjugate transpose undoes. -/
structure ExactlyUnitary (u : GateMatrix K) (k : Nat) : Prop extends OnQubits u k where
  undone : u.adjoint.mul u = identity k

/-! ## 1. What is unitary again -/

namespace ExactlyUnitary

variable [LawfulConjugate K]

theorem mul (ha : a.ExactlyUnitary k) (hb : b.ExactlyUnitary k) : (a.mul b).ExactlyUnitary k := by
  have hwhole := ha.toOnQubits
  have hwhole' := hb.toOnQubits
  refine ⟨hwhole.mul b, ?_⟩
  calc (a.mul b).adjoint.mul (a.mul b)
      = (b.adjoint.mul a.adjoint).mul (a.mul b) := by rw [adjoint_mul hwhole hwhole']
    _ = b.adjoint.mul ((a.adjoint.mul a).mul b) := by
        rw [hwhole'.adjoint.mul_assoc hwhole.adjoint, hwhole.adjoint.mul_assoc hwhole]
    _ = b.adjoint.mul b := by rw [ha.undone, identity_mul hwhole']
    _ = identity k := hb.undone

/-- What undoes a unitary matrix on one side undoes it on the other. -/
theorem adjoint (ha : a.ExactlyUnitary k) : a.adjoint.ExactlyUnitary k := by
  have hwhole := ha.toOnQubits
  refine ⟨hwhole.adjoint, ?_⟩
  rw [adjoint_adjoint hwhole]
  exact mul_eq_identity_comm hwhole.adjoint hwhole ha.undone

theorem kron (ha : a.ExactlyUnitary j) (hb : b.ExactlyUnitary k) :
    (a.kron b).ExactlyUnitary (j + k) := by
  have hwhole := ha.toOnQubits
  have hwhole' := hb.toOnQubits
  refine ⟨hwhole.kron hwhole', ?_⟩
  rw [adjoint_kron hwhole hwhole', kron_mul_kron hwhole.adjoint hwhole hwhole'.adjoint hwhole',
    ha.undone, hb.undone, identity_kron_identity]

theorem controlled (ha : a.ExactlyUnitary k) (count : Nat) :
    (a.controlled count).ExactlyUnitary (count + k) := by
  have hwhole := ha.toOnQubits
  refine ⟨hwhole.controlled count, ?_⟩
  rw [adjoint_controlled hwhole, controlled_mul_controlled hwhole.adjoint hwhole, ha.undone,
    controlled_identity]

end ExactlyUnitary

theorem exactlyUnitary_identity [LawfulConjugate K] (k : Nat) :
    (identity k : GateMatrix K).ExactlyUnitary k := by
  refine ⟨onQubits_identity k, ?_⟩
  rw [adjoint_identity, identity_mul (onQubits_identity k)]

/-! ## 2. Numbers of qubits -/

section Sizes

omit [BEq K] [LawfulBEq K] [Conjugate K]

/-- The number of qubits is read off a machine word, so the dimension has to be one. -/
theorem numQubits_kron (ha : a.OnQubits j) (hb : b.OnQubits k)
    (hword : (a.kron b).dim < wordSize) :
    (a.kron b).numQubits = a.numQubits + b.numQubits := by
  have hboth := ha.kron hb
  have hsmall : j + k < 64 := by
    rwa [hboth.dim, two_pow_lt_wordSize_iff] at hword
  rw [hboth.numQubits_eq hsmall, ha.numQubits_eq (by omega), hb.numQubits_eq (by omega)]

theorem numQubits_controlled (ha : a.OnQubits k) {count : Nat}
    (hword : (a.controlled count).dim < wordSize) :
    (a.controlled count).numQubits = a.numQubits + count := by
  have hblock := ha.controlled count
  have hsmall : count + k < 64 := by
    rwa [hblock.dim, two_pow_lt_wordSize_iff] at hword
  rw [hblock.numQubits_eq hsmall, ha.numQubits_eq (by omega), Nat.add_comm]

end Sizes

/-! ## 3. The whole algebra -/

section Laws

variable [Build]

omit [BEq K] [LawfulBEq K] [Conjugate K] in
/-- **Counting the qubits of a matrix that was written.** -/
theorem numQubits_of_kron? (ha : a.OnQubits j) (hb : b.OnQubits k) {m : GateMatrix K}
    (h : a.kron? b = .ok m) : m.numQubits = a.numQubits + b.numQubits := by
  obtain ⟨hfew, rfl⟩ := (kron?_eq_ok_iff ha hb).mp h
  refine numQubits_kron ha hb ?_
  rw [(ha.kron hb).dim]
  exact two_pow_lt_wordSize_iff.mpr (by omega)

omit [BEq K] [LawfulBEq K] [Conjugate K] in
theorem numQubits_of_controlled? (ha : a.OnQubits k) {count : Nat} {m : GateMatrix K}
    (h : a.controlled? count = .ok m) : m.numQubits = a.numQubits + count % 64 := by
  obtain ⟨⟨-, hfew⟩, rfl⟩ := (controlled?_eq_ok_iff ha).mp h
  refine numQubits_controlled ha ?_
  rw [(ha.controlled _).dim]
  exact two_pow_lt_wordSize_iff.mpr (by omega)

/-- **The operations on gate matrices obey the laws of linear algebra**, over any commutative ring
    with a conjugation.  Products are sums of products, whatever is passed over; the conjugate
    transpose turns them around, tensor products and controls go through them.  So all four
    operations leave unitary matrices unitary, and matrices on qubits matrices on qubits.

    A pass over the cells gives these matrices, of up to 31 qubits, and above gives none.  Numbers
    of qubits add up in all that it gives, but for controls: there are as many as their number
    modulo 64, which is their number exactly if it is below 64. -/
theorem algebra_of_gate_matrices [LawfulConjugate K] (ha : a.OnQubits k) (hb : b.OnQubits k)
    (hc : c.OnQubits j) (hd : d.OnQubits j) :
    ((∀ row < 2 ^ k, ∀ col < 2 ^ k,
        (a.mul b).get row col = ∑ i ∈ Finset.range (2 ^ k), a.get row i * b.get i col) ∧
      ∀ v, (a.mul b).apply v = a.apply (b.apply v)) ∧
    (a.adjoint.adjoint = a ∧ (a.mul b).adjoint = b.adjoint.mul a.adjoint) ∧
    (a.kron c).mul (b.kron d) = (a.mul b).kron (c.mul d) ∧
    (∀ n, (a.controlled n).mul (b.controlled n) = (a.mul b).controlled n ∧
      (a.controlled n).adjoint = a.adjoint.controlled n ∧
      ∀ m, (a.controlled m).controlled n = a.controlled (m + n)) ∧
    (a.ExactlyUnitary k →
      (b.ExactlyUnitary k → (a.mul b).ExactlyUnitary k) ∧
      (c.ExactlyUnitary j → (a.kron c).ExactlyUnitary (k + j)) ∧
      a.adjoint.ExactlyUnitary k ∧ ∀ n, (a.controlled n).ExactlyUnitary (n + k)) ∧
    ((a.mul b).OnQubits k ∧ (a.kron c).OnQubits (k + j) ∧ a.adjoint.OnQubits k ∧
      ∀ n, (a.controlled n).OnQubits (n + k)) ∧
    ((∀ m, a.adjoint? = .ok m ↔ k < 32 ∧ a.adjoint = m) ∧
      (∀ m, a.kron? c = .ok m ↔ k + j < 32 ∧ a.kron c = m) ∧
      ∀ n m, a.controlled? n = .ok m ↔
        ((n < 64 ∨ Build.checks = false) ∧ n % 64 + k < 32) ∧ a.controlled (n % 64) = m) ∧
    (∀ m, a.kron? c = .ok m → m.numQubits = a.numQubits + c.numQubits) ∧
    ∀ n m, a.controlled? n = .ok m →
      m.numQubits = a.numQubits + n % 64 ∧ (m.numQubits = a.numQubits + n ↔ n < 64) := by
  refine ⟨⟨?entries, fun v => apply_mul ha hb v⟩, ⟨adjoint_adjoint ha, adjoint_mul ha hb⟩,
    kron_mul_kron ha hb hc hd, ?controls, ?unitary, ?shapes, ?passes,
    fun m h => numQubits_of_kron? ha hc h, ?count⟩
  case entries =>
    intro row hrow col hcol
    rw [← ha.dim] at hrow hcol ⊢
    exact get_mul a b hrow hcol
  case controls =>
    intro n
    exact ⟨controlled_mul_controlled ha hb n, adjoint_controlled ha n,
      fun m => controlled_controlled ha m n⟩
  case unitary =>
    intro hunitary
    exact ⟨hunitary.mul, hunitary.kron, hunitary.adjoint, hunitary.controlled⟩
  case shapes =>
    exact ⟨ha.mul b, ha.kron hc, ha.adjoint, ha.controlled⟩
  case passes =>
    exact ⟨fun m => adjoint?_eq_ok_iff ha, fun m => kron?_eq_ok_iff ha hc,
      fun n m => controlled?_eq_ok_iff ha⟩
  case count =>
    intro n m h
    have hcount := numQubits_of_controlled? ha h
    exact ⟨hcount, by omega⟩

end Laws

theorem algebra_of_gate_matrices_pauli :
    let y : GateMatrix (Amplitude Int) := Standard.y
    let s : GateMatrix (Amplitude Int) := diagonal [1, Amplitude.i]
    (y.OnQubits 1 ∧ s.OnQubits 1) ∧ (y.ExactlyUnitary 1 ∧ s.ExactlyUnitary 1) ∧
      (y.kron s).mul (s.kron y) = (y.mul s).kron (s.mul y) ∧
      ((y.mul s).kron (s.mul y)).get 0 3 = -Amplitude.i ∧
      (y.mul s).ExactlyUnitary 1 ∧ (y.kron s).ExactlyUnitary (1 + 1) ∧
      (y.controlled 4).ExactlyUnitary (4 + 1) ∧
      y.kron? s = .ok (y.kron s) ∧ (y.kron s).numQubits = y.numQubits + s.numQubits ∧
      y.controlled? 4 = .ok (y.controlled 4) ∧ (y.controlled 4).numQubits = y.numQubits + 4 ∧
      y.numQubits = 1 := by
  intro y s
  have hy : y.ExactlyUnitary 1 := ⟨⟨rfl, rfl⟩, by cbv⟩
  have hs : s.ExactlyUnitary 1 := ⟨⟨rfl, rfl⟩, by cbv⟩
  obtain ⟨-, -, hkron, -, hunitary, -, ⟨-, htensors, hblocks⟩, hboth, hblock⟩ :=
    algebra_of_gate_matrices hy.toOnQubits hs.toOnQubits hs.toOnQubits hy.toOnQubits
  obtain ⟨hproduct, htensor, -, hcontrolled⟩ := hunitary hy
  have hwritten := (htensors _).mpr ⟨by decide, rfl⟩
  have hwritten' := (hblocks 4 _).mpr ⟨⟨.inl (by decide), by decide⟩, rfl⟩
  exact ⟨⟨hy.toOnQubits, hs.toOnQubits⟩, ⟨hy, hs⟩, hkron, by cbv, hproduct hs, htensor hs,
    hcontrolled 4, hwritten, hboth _ hwritten, hwritten', (hblock 4 _ hwritten').1, by decide⟩

/-- **As many controls as a word has bits are none**, or a fault where the arithmetic is
    checked. -/
theorem controlled?_sixtyFour :
    let x : GateMatrix (Amplitude Int) := Standard.x
    x.OnQubits 1 ∧ x.controlled? 64 = .error .overflow ∧
      x.numQubits = 1 ∧ ¬ x.numQubits = x.numQubits + 64 ∧
      letI := wrappingBuild
      x.controlled? 64 = .ok x := by
  intro x
  have hx : x.OnQubits 1 := ⟨rfl, rfl⟩
  refine ⟨hx, rfl, by decide, by decide, ?_⟩
  let _ := wrappingBuild
  exact (controlled?_eq_ok_iff hx).mpr ⟨⟨.inr rfl, by decide⟩, by cbv⟩

end CircuitBroker.GateMatrix
