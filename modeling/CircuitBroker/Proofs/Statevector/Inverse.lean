/-
  CircuitBroker/Proofs/Statevector/Inverse.lean
  =============================================
  **Gates undone, and gates under further controls.**

  A matrix with orthonormal columns has orthonormal rows (`Orthonormal.rows`), so it and its
  conjugate transpose undo each other in either order (`UnitaryOn.undone`).  Steps one after
  the other are undone from the last to the first (`SameGates.undone`).  Steps put under
  further controls do what they did where all of these are one, and nothing elsewhere
  (`amplitude_applyGates_under`).
-/
import CircuitBroker.Proofs.Simulation.Steps
import CircuitBroker.Proofs.Statevector.Action
import CircuitBroker.Proofs.Statevector.Unitary

namespace CircuitBroker

open Conjugate (conj)
open Simulator (applyGates applyGates_append SameGates)

variable {n : Nat} {targets controls : List Nat}

/-! ## 1. Matrices undone -/

/-- **Orthonormal columns come with orthonormal rows**, since an inverse on one side is one on
    both. -/
theorem GateMatrix.Orthonormal.rows {m : GateMatrix (Amplitude ℝ)} {N : Nat} (h : m.Orthonormal N)
    {r c : Nat} (hr : r < N) (hc : c < N) :
    ∑ j ∈ Finset.range N, m.get r j * conj (m.get c j) = if r = c then 1 else 0 := by
  have hrows := mul_eq_one_comm.mp (orthonormal_iff.mp h).2
  have hentry := congrFun (congrFun hrows ⟨r, hr⟩) ⟨c, hc⟩
  rw [Matrix.mul_apply, Matrix.one_apply] at hentry
  rw [Finset.sum_range]
  refine hentry.trans ?_
  simp only [Fin.mk.injEq]

/-- **A gate is undone by the inverse of its matrix**, on the same qubits. -/
theorem Statevector.applyMatrix_undone (ψ : Statevector (Amplitude ℝ) n)
    {a b : GateMatrix (Amplitude ℝ)} (hdim : b.dim = 2 ^ targets.length)
    (hinverse : ∀ r < 2 ^ targets.length, ∀ c < 2 ^ targets.length,
      ∑ j ∈ Finset.range (2 ^ targets.length), b.get r j * a.get j c = if r = c then 1 else 0)
    (hnodup : (controls ++ targets).Nodup) (hlt : ∀ q ∈ targets, q < n) :
    (ψ.applyMatrix a targets controls).applyMatrix b targets controls = ψ := by
  rw [applyMatrix_mul ψ a hdim hnodup hlt]
  refine ext_amplitude fun i hi => ?_
  rw [amplitude_applyMatrix ψ (b.mul a) hnodup hi hlt]
  by_cases hcontrols : controls.all i.testBit
  · rw [if_pos hcontrols]
    have hrow := localIndex_lt targets i
    have hproduct : ∀ c ∈ Finset.range (2 ^ targets.length), (b.mul a).get (localIndex targets i) c *
        ψ.amplitude (replaceBits targets c i) =
          if localIndex targets i = c then ψ.amplitude (replaceBits targets c i) else 0 := by
      intro c hc
      have hc' := Finset.mem_range.mp hc
      rw [GateMatrix.get_mul b a (hdim ▸ hrow) (hdim ▸ hc'), hdim, hinverse _ hrow c hc', ite_mul,
        one_mul, zero_mul]
    rw [Finset.sum_congr rfl hproduct, Finset.sum_ite_eq, if_pos (Finset.mem_range.mpr hrow),
      replaceBits_localIndex]
  · rw [if_neg hcontrols]

namespace GateMatrix.UnitaryOn

variable {m : GateMatrix (Amplitude ℝ)} (h : m.UnitaryOn targets controls n)

include h

theorem get_adjoint {r c : Nat} (hr : r < 2 ^ targets.length) (hc : c < 2 ^ targets.length) :
    m.adjoint.get r c = conj (m.get c r) := by
  rw [GateMatrix.adjoint, h.orthonormal.dim, get_ofFn _ hr hc]

/-- **A unitary gate and its conjugate transpose undo each other.** -/
theorem undone : SameGates n [.gate m targets controls, .gate m.adjoint targets controls] [] ∧
    SameGates n [.gate m.adjoint targets controls, .gate m targets controls] [] := by
  constructor
  · intro ψ
    refine ψ.applyMatrix_undone (h.orthonormal.dim : m.adjoint.dim = _) (fun r hr c hc => ?_)
      h.nodup h.targets_lt
    rw [← h.orthonormal.columns r hr c hc]
    refine Finset.sum_congr rfl fun j hj => ?_
    rw [h.get_adjoint hr (Finset.mem_range.mp hj)]
  · intro ψ
    refine ψ.applyMatrix_undone h.orthonormal.dim (fun r hr c hc => ?_) h.nodup h.targets_lt
    rw [← h.orthonormal.rows hr hc]
    refine Finset.sum_congr rfl fun j hj => ?_
    rw [h.get_adjoint (Finset.mem_range.mp hj) hc]

end GateMatrix.UnitaryOn

/-- **Steps are undone from the last to the first**, each by what undoes it. -/
theorem Simulator.SameGates.undone {α : Type} {f g : α → LoweredStep (Amplitude ℝ)} {l : List α}
    (h : ∀ a ∈ l, SameGates n [f a, g a] []) : SameGates n (l.map f ++ l.reverse.map g) [] := by
  induction l with
  | nil => exact .refl []
  | cons a l ih =>
    obtain ⟨ha, hrest⟩ := List.forall_mem_cons.mp h
    -- what stands between the first step and its inverse does nothing
    have hinner : SameGates n ([f a] ++ (l.map f ++ l.reverse.map g) ++ [g a])
        ([f a] ++ [] ++ [g a]) :=
      ((SameGates.refl [f a]).append (ih hrest)).append (.refl [g a])
    refine .trans ?_ (hinner.trans ha)
    simpa using SameGates.refl _

/-! ## 2. Steps under further controls -/

/-- A step under further controls, which come before those it has; a measurement has none. -/
def LoweredStep.under {K : Type} (controls : List Nat) : LoweredStep K → LoweredStep K
  | .gate m targets inner => .gate m targets (controls ++ inner)
  | .measure q => .measure q

/-- **Steps under further controls** do what they did where all of these are one; where one of
    them is zero they do nothing. -/
theorem Simulator.amplitude_applyGates_under {steps : List (LoweredStep (Amplitude ℝ))}
    (hsteps : ∀ s ∈ steps, (s.under controls).Spread n) (ψ : Statevector (Amplitude ℝ) n) :
    ∀ i < 2 ^ n, (applyGates ψ (steps.map (LoweredStep.under controls))).amplitude i =
      if controls.all i.testBit then (applyGates ψ steps).amplitude i else ψ.amplitude i := by
  -- by induction from the last step on: it reads the state that the steps before it have left
  induction steps using List.reverseRecOn with
  | nil => simp
  | append_singleton steps s ih =>
    intro i hi
    replace ih := ih fun t ht => hsteps t (List.mem_append_left _ ht)
    rw [List.map_append, applyGates_append, applyGates_append]
    cases s with
    | measure q => exact ih i hi
    | gate m targets inner =>
      obtain ⟨hnodup, hlt⟩ := hsteps (.gate m targets inner) (List.mem_append_right _ (by simp))
      have htargets : ∀ q ∈ targets, q < n := fun q hq => hlt q (List.mem_append_right _ hq)
      have hinner : (inner ++ targets).Nodup := by
        rw [List.append_assoc] at hnodup
        exact (List.nodup_append'.mp hnodup).2.1
      have hdisjoint : List.Disjoint controls targets := fun q hq hq' =>
        (List.nodup_append'.mp hnodup).2.2 (List.mem_append_left _ hq) hq'
      change ((applyGates ψ (steps.map (LoweredStep.under controls))).applyMatrix m targets
        (controls ++ inner)).amplitude i = if controls.all i.testBit then
          ((applyGates ψ steps).applyMatrix m targets inner).amplitude i else ψ.amplitude i
      rw [Statevector.amplitude_applyMatrix _ m hnodup hi htargets,
        Statevector.amplitude_applyMatrix _ m hinner hi htargets, List.all_append, ih i hi]
      -- the orbit of the index lies on the same side of the controls
      have horbit : ∀ c, (applyGates ψ (steps.map (LoweredStep.under controls))).amplitude
          (Statevector.replaceBits targets c i) = if controls.all i.testBit then
            (applyGates ψ steps).amplitude (Statevector.replaceBits targets c i)
          else ψ.amplitude (Statevector.replaceBits targets c i) := by
        intro c
        rw [ih _ (Statevector.replaceBits_lt htargets hi),
          Statevector.all_testBit_replaceBits hdisjoint]
      by_cases hcontrols : controls.all i.testBit
      · simp only [hcontrols, if_true, Bool.true_and] at horbit ⊢
        simp only [horbit]
      · simp only [hcontrols, Bool.false_and, Bool.false_eq_true, if_false]

end CircuitBroker
