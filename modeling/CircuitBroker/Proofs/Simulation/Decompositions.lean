/-
  CircuitBroker/Proofs/Simulation/Decompositions.lean
  ===================================================
  **Runs of simple gates that are one gate of the library.**

  Four shapes of run are compared with a single gate: a run on one target under common
  controls, a run on one target whose controls name the blocks of a matrix, and the two kinds
  of run on two qubits that cross over (`sameGates_iswap`, `sameGates_dcx`) or leave a phase
  on a control (`sameGates_cu`).  Nothing is lost: each run does to every state exactly what
  the gate does, global phase included.
-/
import CircuitBroker.Proofs.GateMatrix.Identities
import CircuitBroker.Proofs.Statevector.Quad

namespace CircuitBroker.Simulator

open GateMatrix Statevector
open Amplitude (phase)

variable {n target : Nat} {controls : List Nat}

/-! ## 1. One target -/

/-- A run that amounts to one matrix amounts to that matrix under any controls. -/
theorem sameGates_under {moves : List (GateMatrix (Amplitude ℝ) × List Nat)}
    {m : GateMatrix (Amplitude ℝ)} (hfree : ∀ move ∈ moves, move.2 = [])
    (hturns : ∀ bit p, turns bit moves p = m.turn p) (hnodup : (controls ++ [target]).Nodup)
    (ht : target < n) :
    SameGates n (onTarget target (underControls controls moves)) [.gate m [target] controls] := by
  have hsingle : ∀ move ∈ [(m, controls)], (move.2 ++ [target]).Nodup := by simpa using hnodup
  refine sameGates_onTarget ht ?_ hsingle ?_
  · intro move hmove
    obtain ⟨inner, hinner, rfl⟩ := List.mem_map.mp hmove
    rw [hfree inner hinner, List.append_nil]
    exact hnodup
  · intro bit p
    rw [turns_under, hturns]
    rfl

/-- A run whose controls name the blocks of a matrix. -/
theorem sameGates_blocks (qubits : List Nat)
    {moves : List (GateMatrix (Amplitude ℝ) × List Nat)} {m : GateMatrix (Amplitude ℝ)}
    (hnodup : (qubits ++ [target]).Nodup)
    (hlt : ∀ q ∈ qubits ++ [target], q < n) (hcontrols : ∀ move ∈ moves, move.2.Sublist qubits)
    (hzero : ∀ r < 2 ^ (qubits.length + 1), ∀ c < 2 ^ (qubits.length + 1), r / 2 ≠ c / 2 →
      m.get r c = 0)
    (hturns : ∀ i p, turns (Nat.testBit i) moves p = (m.block (localIndex qubits i)).turn p) :
    SameGates n (onTarget target moves) [.gate m (qubits ++ [target]) []] := by
  have hmoves : ∀ move ∈ moves, (move.2 ++ [target]).Nodup := fun move hmove =>
    hnodup.sublist ((hcontrols move hmove).append_right _)
  intro ψ
  apply ext_pair target
  intro i hi
  rw [pair_applyGates (hlt target (by simp)) hi moves hmoves, applyGates_gate, applyGates_nil,
    pair_applyMatrix_blocks ψ m hzero hnodup hlt hi, hturns]

variable {a b c d : Nat}

theorem sameGates_rzx (theta : ℝ) (hnodup : [a, b].Nodup) (hlt : ∀ q ∈ [a, b], q < n) :
    SameGates n (onTarget b (rzxMoves theta a))
      [.gate (Standard.rzx theta) [a, b] []] := by
  refine sameGates_blocks [a] hnodup hlt (by simp [rzxMoves]) ?_ fun i p => ?_
  · exact fun r hr c hc hne => get_rzx_of_ne theta hr hc hne
  · rw [turns_rzx, localIndex_singleton, turn_block_rzx]

theorem sameGates_rccx (hnodup : [a, b, c].Nodup) (hlt : ∀ q ∈ [a, b, c], q < n) :
    SameGates n (onTarget c (rccxMoves a b))
      [.gate Standard.rccx [a, b, c] []] := by
  refine sameGates_blocks [a, b] hnodup hlt (by simp [rccxMoves]) ?_ fun i p => ?_
  · exact fun r hr c hc hne => get_patched_of_ne (by simp) hr hc hne
  · rw [turns_rccx, ← turn_block_rccx]
    rfl

theorem sameGates_rc3x (hnodup : [a, b, c, d].Nodup) (hlt : ∀ q ∈ [a, b, c, d], q < n) :
    SameGates n (onTarget d (rc3xMoves a b c))
      [.gate Standard.rc3x [a, b, c, d] []] := by
  refine sameGates_blocks [a, b, c] hnodup hlt (by simp [rc3xMoves]) ?_ fun i p => ?_
  · exact fun r hr c hc hne => get_patched_of_ne (by simp) hr hc hne
  · rw [turns_rc3x, ← turn_block_rc3x]
    rfl

/-! ## 2. Two targets -/

theorem sameGates_of_quad {s t : List (LoweredStep (Amplitude ℝ))} (a b : Nat)
    (h : ∀ ψ : Statevector (Amplitude ℝ) n, ∀ i < 2 ^ n,
      (applyGates ψ s).quad a b i = (applyGates ψ t).quad a b i) : SameGates n s t :=
  fun ψ => ext_quad (h ψ)

section Quad

variable (hne : a ≠ b) (ha : a < n) (hb : b < n)

include hne ha hb

theorem sameGates_dcx : SameGates (R := ℝ) n
    [.gate Standard.x [b] [a], .gate Standard.x [a] [b]] [.gate Standard.dcx [a, b] []] := by
  refine sameGates_of_quad a b fun ψ i hi => ?_
  simp only [applyGates_gate, applyGates_nil, quad_applyMatrix_under_second _ _ hne ha hb hi,
    quad_applyMatrix_under_first _ _ hne ha hb hi, quad_applyMatrix_both _ _ hne ha hb hi, turn_x,
    transposed, rowTimesQuad]
  simp (disch := decide) [Standard.dcx, get_permutation]

theorem sameGates_iswap : SameGates (R := ℝ) n
    [.gate Standard.s [a] [], .gate Standard.s [b] [], .gate Standard.h [a] [],
      .gate Standard.x [b] [a], .gate Standard.x [a] [b], .gate Standard.h [b] []]
    [.gate Standard.iswap [a, b] []] := by
  have hentry : ∀ r c, (Standard.iswap : GateMatrix (Amplitude ℝ)).get r c =
      #[(1 : Amplitude ℝ), 0, 0, 0, 0, 0, Amplitude.i, 0, 0, Amplitude.i, 0, 0, 0, 0, 0, 1].getD
        (r * 4 + c) 0 := fun _ _ => rfl
  have hv := Amplitude.invSqrtTwo_sq_add_self
  have hi := Amplitude.i_mul_i
  refine sameGates_of_quad a b fun ψ i hindex => ?_
  simp only [applyGates_gate, applyGates_nil, quad_applyMatrix_second _ _ ha hb hindex,
    quad_applyMatrix_first _ _ hne ha hb hindex,
    quad_applyMatrix_under_second _ _ hne ha hb hindex,
    quad_applyMatrix_under_first _ _ hne ha hb hindex,
    quad_applyMatrix_both _ _ hne ha hb hindex, turn_x, turn_h, Standard.s, turn_p,
    Amplitude.phase_half_pi, transposed, rowTimesQuad, hentry]
  refine Prod.ext (Prod.ext ?_ ?_) (Prod.ext ?_ ?_) <;> simp <;> grind

/-- The phase of a general rotation under a control is a phase of the control. -/
theorem sameGates_cu (theta phi lambda gamma : ℝ) : SameGates n
    (.gate (Standard.p gamma) [a] [] ::
      onTarget b (underControls [a] (rotationMoves theta phi lambda)))
    [.gate (Standard.cu theta phi lambda gamma) [a, b] []] := by
  have hcontrolled : SameGates n
      [.gate ((Standard.u theta phi lambda).scaled (phase gamma)) [b] [a]]
      [.gate (Standard.cu theta phi lambda gamma) [a, b] []] := by
    intro ψ
    have hblock : ψ.applyMatrix (Standard.cu theta phi lambda gamma) ([a] ++ [b]) [] =
        ψ.applyMatrix ((Standard.u theta phi lambda).scaled (phase gamma)) [b] [a] :=
      ψ.applyMatrix_controlled rfl (by simpa using hne) (by simp [ha, hb])
    exact hblock.symm
  have hrun : SameGates n (onTarget b (underControls [a] (rotationMoves theta phi lambda)))
      [.gate (Standard.u theta phi lambda) [b] [a]] :=
    sameGates_under (by simp [rotationMoves]) (fun bit p => turns_u p bit theta phi lambda)
      (by simpa using hne) hb
  have hphase : SameGates n
      [.gate (Standard.p gamma) [a] [], .gate (Standard.u theta phi lambda) [b] [a]]
      [.gate ((Standard.u theta phi lambda).scaled (phase gamma)) [b] [a]] := by
    refine sameGates_of_quad a b fun ψ i hi => ?_
    simp only [applyGates_gate, applyGates_nil, quad_applyMatrix_first _ _ hne ha hb hi,
      quad_applyMatrix_under_first _ _ hne ha hb hi, turn_p, transposed, turn_scaled]
  have hfirst : SameGates n [.gate (Standard.p gamma) [a] []] [.gate (Standard.p gamma) [a] []] :=
    .refl _
  exact (hfirst.append hrun).trans (hphase.trans hcontrolled)

end Quad

end CircuitBroker.Simulator
