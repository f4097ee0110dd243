/-
  CircuitBroker/Proofs/Native/Functors/Inverse.lean
  =================================================
  **The `Adjoint` functor inverts a call, the `Controlled` functor puts it under controls.**

  The step of an intrinsic call is undone by that of the inverted call, since every intrinsic
  matrix is unitary (`Intrinsic.orthonormal_matrix`).  A defined operation is inverted by its
  steps from the last to the first, each inverted (`steps_not`).  Controls of a call are
  controls of each of its steps (`callSteps_under`).
-/
import CircuitBroker.Proofs.Native.Functors.Calls
import CircuitBroker.Proofs.Statevector.Inverse

namespace CircuitBroker

open Simulator (applyGates applyGates_append SameGates)

/-! ## 1. Intrinsic calls -/

open GateMatrix in
/-- **Every intrinsic operation is unitary**, at whatever angle. -/
theorem Intrinsic.orthonormal_matrix (g : Intrinsic ℝ) :
    g.matrix.Orthonormal (2 ^ g.numTargets) := by
  cases g with
  | i =>
    have hid : (Standard.id : GateMatrix (Amplitude ℝ)) = permutation [0, 1] := rfl
    rw [matrix, hid]
    exact orthonormal_permutation (by decide) (by decide)
  | x => exact orthonormal_x
  | y => exact orthonormal_y
  | z => exact orthonormal_z
  | h => exact orthonormal_h
  | s | t | r1 => exact orthonormal_p _
  | rx a => exact orthonormal_rx a
  | ry a => exact orthonormal_ry a
  | rz a => exact orthonormal_rz a
  | rxx a => exact orthonormal_interaction reflection_x reflection_x a
  | ryy a => exact orthonormal_interaction reflection_y reflection_y a
  | rzz a => exact orthonormal_interaction reflection_z reflection_z a
  | swap => exact orthonormal_permutation (by decide) (by decide)

namespace FunctorCall

variable {G : Type} {n : Nat}

@[simp] theorem inverse_inverse (c : FunctorCall G) : c.inverse.inverse = c := by
  obtain ⟨gate, adjoint, controls, targets⟩ := c
  simp [inverse]

/-- **The step of an intrinsic call is undone by that of the inverted call.** -/
theorem WellFormed.undone {c : FunctorCall (Intrinsic ℝ)}
    (h : c.WellFormed Intrinsic.numTargets n) : SameGates n [c.step, c.inverse.step] [] := by
  have hmatrix := c.gate.onQubits_matrix
  have horthonormal := c.gate.orthonormal_matrix
  rw [← h.length] at hmatrix horthonormal
  have hunitary : c.gate.matrix.UnitaryOn c.targets c.controls n :=
    ⟨h.nodup, h.lt, hmatrix, horthonormal⟩
  obtain ⟨gate, adjoint, controls, targets⟩ := c
  cases adjoint with
  | false => exact hunitary.undone.1
  | true => exact hunitary.undone.2

/-- Under further controls, on qubits that are still different, a call stays well-formed. -/
theorem WellFormed.under {numTargets : G → Nat} {c : FunctorCall G} {controls : List Nat}
    (h : c.WellFormed numTargets n) (hnodup : (controls ++ (c.controls ++ c.targets)).Nodup)
    (hlt : ∀ q ∈ controls, q < n) : (c.under controls).WellFormed numTargets n := by
  refine ⟨?_, fun q hq => ?_, h.length⟩
  · rw [← List.append_assoc] at hnodup
    exact hnodup
  · rw [FunctorCall.under, List.append_assoc] at hq
    rcases List.mem_append.mp hq with hq | hq
    · exact hlt q hq
    · exact h.lt q hq

end FunctorCall

namespace FunctorProgram

/-! ## 2. Calls -/

/-- **The steps of an inverse are the inverted steps, from the last to the first.** -/
theorem steps_not {R : Type} (d : DefinedOperation) (adjoint : Bool) :
    (steps d (!adjoint) : List (FunctorCall (Intrinsic R))) =
      (steps d adjoint).reverse.map FunctorCall.inverse := by
  cases adjoint with
  | false => rfl
  | true => simp [steps, List.map_reverse, Function.comp_def]

variable {c : FunctorCall (Callable ℝ)} {n : Nat}

/-- **What a call does is undone by the inverted call.** -/
theorem callSteps_undone (h : c.WellFormed Callable.numTargets n) :
    SameGates n (callSteps c ++ callSteps c.inverse) [] := by
  obtain ⟨gate | d, adjoint, controls, targets⟩ := c
  · exact FunctorCall.WellFormed.undone (c := ⟨gate, adjoint, controls, targets⟩)
      ⟨h.nodup, h.lt, h.length⟩
  · rw [callSteps_defined, FunctorCall.inverse, callSteps_defined, steps_not, List.map_map]
    refine SameGates.undone fun s hs => ?_
    have hbody := wellFormed_steps d adjoint s hs
    rw [← (show targets.length = d.arity from h.length)] at hbody
    exact (hbody.relocated h.nodup h.lt).undone

/-- **Controls of a call are controls of its steps.** -/
theorem callSteps_under (c : FunctorCall (Callable ℝ)) (controls : List Nat) :
    callSteps (c.under controls) = (callSteps c).map (LoweredStep.under controls) := by
  obtain ⟨gate | d, adjoint, inner, targets⟩ := c
  · rfl
  · rw [FunctorCall.under, callSteps_defined, callSteps_defined, List.map_map]
    exact List.map_congr_left fun s _ =>
      congrArg (LoweredStep.gate _ _) (List.append_assoc controls inner _)

/-- **The functors do what they are called for.**  A call and its inverse can be lowered one after
    the other, and together they leave every state as it is.  Under further controls a call
    can be lowered as well; where all of these are one it does what the call does, and
    elsewhere it does nothing. -/
theorem inverse_undoes_under_guards (h : c.WellFormed Callable.numTargets n) :
    (∃ low, lower ⟨n, [.call c, .call c.inverse]⟩ = .ok low ∧
      ∀ ψ : Statevector (Amplitude ℝ) n, applyGates ψ low.steps = ψ) ∧
    ∀ controls : List Nat, (controls ++ (c.controls ++ c.targets)).Nodup →
      (∀ q ∈ controls, q < n) → ∃ low guarded,
        lower ⟨n, [.call c]⟩ = .ok low ∧ lower ⟨n, [.call (c.under controls)]⟩ = .ok guarded ∧
        ∀ (ψ : Statevector (Amplitude ℝ) n), ∀ i < 2 ^ n,
          (applyGates ψ guarded.steps).amplitude i =
            if ∀ q ∈ controls, i.testBit q = true then (applyGates ψ low.steps).amplitude i
            else ψ.amplitude i := by
  have hlower : ∀ calls : List (FunctorCall (Callable ℝ)),
      (∀ call ∈ calls, call.WellFormed Callable.numTargets n) →
      lower ⟨n, calls.map .call⟩ = .ok ⟨n, calls.flatMap callSteps⟩ := by
    intro calls hcalls
    rw [lower, List.foldlM_map]
    exact LoweredCircuit.foldlM_adds
      (fun call hcall before => lowerCall_eq_ok (hcalls call hcall) before) []
  constructor
  · refine ⟨_, hlower [c, c.inverse] ?_, fun ψ => ?_⟩
    · simpa using ⟨h, h.inverse⟩
    · simpa using callSteps_undone h ψ
  · intro controls hnodup hlt
    have hunder := h.under hnodup hlt
    refine ⟨_, _, hlower [c] (by simpa using h), hlower [c.under controls] (by simpa using hunder),
      fun ψ i hi => ?_⟩
    have hsteps : ∀ s ∈ callSteps c, (s.under controls).Spread n := by
      intro s hs
      have hmem : s.under controls ∈ callSteps (c.under controls) := by
        rw [callSteps_under]
        exact List.mem_map_of_mem hs
      exact (wellFormed_callSteps hunder _ hmem).spread
    rw [List.flatMap_singleton, List.flatMap_singleton, callSteps_under,
      Simulator.amplitude_applyGates_under hsteps ψ i hi]
    simp only [List.all_eq_true]

def invertedToffoli : FunctorCall (Callable ℝ) := ⟨.defined .rccx, true, [4], [2, 0, 3]⟩

theorem inverse_undoes_under_guards_rccx :
    invertedToffoli.WellFormed Callable.numTargets 6 ∧
      ([1, 5] ++ (invertedToffoli.controls ++ invertedToffoli.targets)).Nodup ∧
      (∃ low, lower ⟨6, [.call invertedToffoli, .call invertedToffoli.inverse]⟩ = .ok low ∧
        ∀ ψ : Statevector (Amplitude ℝ) 6, applyGates ψ low.steps = ψ) ∧
      ∃ low guarded, lower ⟨6, [.call invertedToffoli]⟩ = .ok low ∧
        lower ⟨6, [.call (invertedToffoli.under [1, 5])]⟩ = .ok guarded ∧
        ∀ ψ : Statevector (Amplitude ℝ) 6,
          (applyGates ψ guarded.steps).amplitude 0b111011 =
            (applyGates ψ low.steps).amplitude 0b111011 ∧
          (applyGates ψ guarded.steps).amplitude 0b011011 = ψ.amplitude 0b011011 := by
  have hcall : invertedToffoli.WellFormed Callable.numTargets 6 :=
    ⟨by decide, by decide, rfl⟩
  have hnodup : ([1, 5] ++ (invertedToffoli.controls ++ invertedToffoli.targets)).Nodup := by decide
  obtain ⟨hundone, hguards⟩ := inverse_undoes_under_guards hcall
  obtain ⟨low, guarded, hlow, hguarded, hamplitudes⟩ := hguards [1, 5] hnodup (by decide)
  refine ⟨hcall, hnodup, hundone, low, guarded, hlow, hguarded, fun ψ => ⟨?_, ?_⟩⟩
  · rw [hamplitudes ψ 0b111011 (by decide), if_pos (by decide)]
  · rw [hamplitudes ψ 0b011011 (by decide), if_neg (by decide)]

end FunctorProgram

end CircuitBroker
