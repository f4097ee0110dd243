/-
  CircuitBroker/Proofs/Statevector/Unitary.lean
  =============================================
  **Unitary gates keep the probabilities together.**

  A matrix with orthonormal columns keeps the sum of the squares of what it is multiplied with
  (`Orthonormal.sum_normSq`).  A gate multiplies each orbit by its matrix or leaves it alone, and
  the orbits make up the state (`sum_orbits`); so a gate with such a matrix, on qubits that are all
  different, changes probabilities but not their sum (`totalProbability_applyMatrix`).
-/
import CircuitBroker.Proofs.GateMatrix.Library
import CircuitBroker.Proofs.Statevector.Collapse

namespace CircuitBroker

open Conjugate (conj)

/-! ## 1. Orthonormal columns -/

section Columns

variable {ι : Type}

theorem Amplitude.re_sum (s : Finset ι) (f : ι → Amplitude ℝ) :
    (∑ i ∈ s, f i).re = ∑ i ∈ s, (f i).re := by
  let part : Amplitude ℝ →+ ℝ := ⟨⟨Amplitude.re, rfl⟩, fun _ _ => rfl⟩
  exact map_sum part f s

theorem GateMatrix.conj_sum (s : Finset ι) (f : ι → Amplitude ℝ) :
    conj (∑ i ∈ s, f i) = ∑ i ∈ s, conj (f i) :=
  map_sum LawfulConjugate.hom f s

theorem Amplitude.normSq_eq_re (a : Amplitude ℝ) : a.normSq = (Conjugate.conj a * a).re := by
  simp [normSq, Conjugate.conj, conj]

/-- **A unitary matrix keeps the sum of the squares** of whatever it is multiplied with. -/
theorem GateMatrix.Orthonormal.sum_normSq {m : GateMatrix (Amplitude ℝ)} {N : Nat}
    (hm : m.Orthonormal N) (v : Nat → Amplitude ℝ) :
    ∑ r ∈ Finset.range N, (∑ c ∈ Finset.range N, m.get r c * v c).normSq =
      ∑ c ∈ Finset.range N, (v c).normSq := by
  have hsquares : ∑ r ∈ Finset.range N, conj (∑ c ∈ Finset.range N, m.get r c * v c) *
      ∑ d ∈ Finset.range N, m.get r d * v d = ∑ c ∈ Finset.range N, conj (v c) * v c := by
    calc ∑ r ∈ Finset.range N, conj (∑ c ∈ Finset.range N, m.get r c * v c) *
          ∑ d ∈ Finset.range N, m.get r d * v d
        = ∑ r ∈ Finset.range N, ∑ c ∈ Finset.range N, ∑ d ∈ Finset.range N,
            conj (v c) * v d * (conj (m.get r c) * m.get r d) := by
          refine Finset.sum_congr rfl fun r _ => ?_
          rw [conj_sum, Finset.sum_mul_sum]
          refine Finset.sum_congr rfl fun c _ => Finset.sum_congr rfl fun d _ => ?_
          rw [LawfulConjugate.conjugate_mul]
          ring
      _ = ∑ c ∈ Finset.range N, ∑ d ∈ Finset.range N,
            conj (v c) * v d * ∑ r ∈ Finset.range N, conj (m.get r c) * m.get r d := by
          rw [Finset.sum_comm]
          refine Finset.sum_congr rfl fun c _ => ?_
          rw [Finset.sum_comm]
          exact Finset.sum_congr rfl fun d _ => (Finset.mul_sum _ _ _).symm
      _ = ∑ c ∈ Finset.range N, conj (v c) * v c := by
          refine Finset.sum_congr rfl fun c hc => ?_
          have hcolumn : ∀ d ∈ Finset.range N, conj (v c) * v d *
              ∑ r ∈ Finset.range N, conj (m.get r c) * m.get r d =
                if c = d then conj (v c) * v d else 0 := by
            intro d hd
            rw [hm.columns c (Finset.mem_range.mp hc) d (Finset.mem_range.mp hd), mul_ite, mul_one,
              mul_zero]
          rw [Finset.sum_congr rfl hcolumn, Finset.sum_ite_eq, if_pos hc]
  have hparts := congrArg Amplitude.re hsquares
  rw [Amplitude.re_sum, Amplitude.re_sum] at hparts
  simpa only [Amplitude.normSq_eq_re] using hparts

end Columns

namespace Statevector

variable {n : Nat} {targets controls : List Nat}

/-! ## 2. Orbits -/

def bases (n : Nat) (targets : List Nat) : Finset Nat :=
  (Finset.range (2 ^ n)).filter fun base => replaceBits targets 0 base = base

/-- **The orbits make up the state**: every index is that of one row of one orbit. -/
theorem sum_orbits (hnodup : targets.Nodup) (hlt : ∀ q ∈ targets, q < n) (f : Nat → ℝ) :
    ∑ i ∈ Finset.range (2 ^ n), f i = ∑ base ∈ bases n targets,
      ∑ row ∈ Finset.range (2 ^ targets.length), f (replaceBits targets row base) := by
  rw [← Finset.sum_product']
  refine Finset.sum_bij' (fun i _ => (replaceBits targets 0 i, localIndex targets i))
    (fun part _ => replaceBits targets part.2 part.1) ?_ ?_ ?_ ?_ ?_
  · intro i hi
    have hbase : replaceBits targets 0 i < 2 ^ n := replaceBits_lt hlt (Finset.mem_range.mp hi)
    simp only [bases, Finset.mem_product, Finset.mem_filter, Finset.mem_range, hbase,
      replaceBits_replaceBits, localIndex_lt, and_self]
  · rintro ⟨base, row⟩ hpart
    have hbase := (Finset.mem_filter.mp (Finset.mem_product.mp hpart).1).1
    exact Finset.mem_range.mpr (replaceBits_lt hlt (Finset.mem_range.mp hbase))
  · intro i _
    rw [replaceBits_replaceBits, replaceBits_localIndex]
  · rintro ⟨base, row⟩ hpart
    obtain ⟨hbase, hrow⟩ := Finset.mem_product.mp hpart
    rw [replaceBits_replaceBits, (Finset.mem_filter.mp hbase).2,
      localIndex_replaceBits hnodup (Finset.mem_range.mp hrow)]
  · intro i _
    rw [replaceBits_replaceBits, replaceBits_localIndex]

/-! ## 3. Gates -/

/-- **A unitary gate keeps the sum of the probabilities.** -/
theorem totalProbability_applyMatrix {m : GateMatrix (Amplitude ℝ)}
    (hm : m.Orthonormal (2 ^ targets.length)) (hnodup : (controls ++ targets).Nodup)
    (hlt : ∀ q ∈ targets, q < n) (ψ : Statevector (Amplitude ℝ) n) :
    (ψ.applyMatrix m targets controls).totalProbability = ψ.totalProbability := by
  obtain ⟨-, htargets, hdisjoint⟩ := List.nodup_append'.mp hnodup
  rw [totalProbability, totalProbability, sum_orbits htargets hlt, sum_orbits htargets hlt]
  refine Finset.sum_congr rfl fun base hbase => ?_
  have hbase' : base < 2 ^ n := Finset.mem_range.mp (Finset.mem_filter.mp hbase).1
  have hrow : ∀ row ∈ Finset.range (2 ^ targets.length),
      (ψ.applyMatrix m targets controls).weight (replaceBits targets row base) =
        if controls.all base.testBit then (∑ c ∈ Finset.range (2 ^ targets.length),
          m.get row c * ψ.amplitude (replaceBits targets c base)).normSq
        else ψ.weight (replaceBits targets row base) := by
    intro row hrow
    rw [weight, amplitude_applyMatrix ψ m hnodup (replaceBits_lt hlt hbase') hlt,
      all_testBit_replaceBits hdisjoint, localIndex_replaceBits htargets (Finset.mem_range.mp hrow)]
    simp only [replaceBits_replaceBits, weight]
    split <;> rfl
  rw [Finset.sum_congr rfl hrow]
  -- the controls let through a whole orbit or none of it
  by_cases hcontrols : controls.all base.testBit
  · simp only [hcontrols, if_true]
    exact hm.sum_normSq fun c => ψ.amplitude (replaceBits targets c base)
  · simp only [hcontrols, if_false, Bool.false_eq_true]

theorem totalProbability_zero (n : Nat) :
    (zero n : Statevector (Amplitude ℝ) n).totalProbability = 1 := by
  have hweight : ∀ i ∈ Finset.range (2 ^ n),
      (zero n : Statevector (Amplitude ℝ) n).weight i = if i = 0 then 1 else 0 := by
    intro i hi
    rw [weight, zero_eq_basis, amplitude_basis (Finset.mem_range.mp hi)]
    split <;> simp [Amplitude.normSq]
  rw [totalProbability, Finset.sum_congr rfl hweight, Finset.sum_ite_eq',
    if_pos (Finset.mem_range.mpr (Nat.two_pow_pos n))]

end Statevector

/-! ## 4. Steps -/

/-- A unitary matrix on qubits of a circuit that are all different. -/
structure GateMatrix.UnitaryOn (m : GateMatrix (Amplitude ℝ)) (targets controls : List Nat)
    (n : Nat) : Prop where
  nodup : (controls ++ targets).Nodup
  lt : ∀ q ∈ controls ++ targets, q < n
  onQubits : m.OnQubits targets.length
  orthonormal : m.Orthonormal (2 ^ targets.length)

def LoweredStep.IsUnitary (n : Nat) : LoweredStep (Amplitude ℝ) → Prop
  | .gate m targets controls => m.UnitaryOn targets controls n
  | .measure _ => True

section Steps

variable {n : Nat} {targets controls : List Nat} {m : GateMatrix (Amplitude ℝ)}

theorem GateMatrix.UnitaryOn.targets_lt (h : m.UnitaryOn targets controls n) :
    ∀ q ∈ targets, q < n :=
  fun q hq => h.lt q (List.mem_append_right _ hq)

theorem GateMatrix.UnitaryOn.totalProbability (h : m.UnitaryOn targets controls n)
    (ψ : Statevector (Amplitude ℝ) n) :
    (ψ.applyMatrix m targets controls).totalProbability = ψ.totalProbability :=
  Statevector.totalProbability_applyMatrix h.orthonormal h.nodup h.targets_lt ψ

/-- The gates among some steps keep the sum of the probabilities. -/
theorem Simulator.totalProbability_applyGates {steps : List (LoweredStep (Amplitude ℝ))}
    (hsteps : ∀ s ∈ steps, s.IsUnitary n) (ψ : Statevector (Amplitude ℝ) n) :
    (applyGates ψ steps).totalProbability = ψ.totalProbability := by
  induction steps generalizing ψ with
  | nil => rfl
  | cons s steps ih =>
    obtain ⟨hs, hrest⟩ := List.forall_mem_cons.mp hsteps
    cases s with
    | gate m targets controls => exact (ih hrest _).trans (hs.totalProbability ψ)
    | measure q => exact ih hrest ψ

end Steps

end CircuitBroker
