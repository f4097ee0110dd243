/-
  CircuitBroker/Proofs/Native/Agreement.lean
  ==========================================
  **Four backends, one unitary.**

  An assembly program keeps a circuit's operations in order and gives controls as a list.
  A moment circuit packs them into time slices and puts some controls into matrices; a
  modifier program moves all measurements to its end.  None of this changes what the gates
  do: lowered, the three send every state to the same state.  The scalars may be any
  commutative ring and the functions of an angle any functions, so nothing depends on what
  the entries of a reference matrix are.

  A functor program also writes many gates as sequences of others.  That these are exact
  does depend on the entries, so there the scalars are the reals.
-/
import CircuitBroker.Proofs.Native.Functors.Translation
import CircuitBroker.Proofs.Native.Modifiers

namespace CircuitBroker.Native

open Simulator (applyGates)

/-! ## 1. Lists of controls, moments, modifiers -/

/-- **The lowered circuits of the three backends send every state to the same state.** -/
theorem lowered_agree {R : Type} [CommRing R] [BEq R] [Elementary R] [Magnitude R] [AngleLabel R]
    {c : Circuit R} (hc : c.Recorded) {a : Assembly R} {m : MomentCircuit R} {p : ModifierProgram R}
    (ha : Assembly.ofCircuit c = .ok a) (hm : MomentCircuit.ofCircuit .cirq c = .ok m)
    (hp : ModifierProgram.ofCircuit c = .ok p) :
    ∃ la lm lp, a.lower = .ok la ∧ m.lower = .ok lm ∧ p.lower = .ok lp ∧
      ∀ ψ : Statevector (Amplitude R) c.numQubits,
        applyGates ψ la.steps = applyGates ψ lm.steps ∧
          applyGates ψ la.steps = applyGates ψ lp.steps := by
  obtain ⟨a', ha', hla⟩ := Assembly.lower_ofCircuit hc
  obtain rfl : a = a' := by simpa [ha] using ha'
  obtain ⟨lm, hlm, himplements⟩ := MomentCircuit.lower_implements hc hm
  have htranslates := ModifierProgram.translates_ofCircuit hc hp
  refine ⟨_, lm, _, hla, hlm, htranslates.lower_eq, fun ψ => ⟨?_, ?_⟩⟩
  · exact (himplements.sameGates hc ψ).symm
  · rw [Simulator.applyGates_append, Simulator.applyGates_map_measure]
    exact (htranslates.sameGates ψ).symm

def exchanges : Circuit ℝ where
  numQubits := 3
  operations := [⟨.h, [[0]], []⟩, ⟨.swap, [[1], [2]], []⟩, ⟨.measure, [[1]], []⟩,
    ⟨.mcxgc, [[0, 2], [1]], [.count 2]⟩, ⟨.cswap, [[1], [0], [2]], []⟩]

theorem recorded_exchanges : exchanges.Recorded := by
  refine Circuit.recorded_iff.mpr ⟨by decide, ?_⟩
  simp only [exchanges, List.forall_mem_cons]
  refine ⟨⟨by decide, by decide, rfl, rfl, by simp⟩, ⟨by decide, by decide, rfl, rfl, by simp⟩,
    ⟨by decide, by decide, rfl, rfl, by simp⟩,
    ⟨by decide, by decide, rfl, rfl, by simp [Param.Fits, Operation.controls]⟩,
    ⟨by decide, by decide, rfl, rfl, by simp⟩, by simp⟩

theorem lowered_agree_exchanges :
    letI : AngleLabel ℝ := ⟨fun _ => ""⟩
    exchanges.Recorded ∧ ∃ a m p la lm lp,
      Assembly.ofCircuit exchanges = .ok a ∧ MomentCircuit.ofCircuit .cirq exchanges = .ok m ∧
        ModifierProgram.ofCircuit exchanges = .ok p ∧
        a.lower = .ok la ∧ m.lower = .ok lm ∧ p.lower = .ok lp ∧
        ∀ ψ : Statevector (Amplitude ℝ) 3,
          applyGates ψ la.steps = applyGates ψ lm.steps ∧
            applyGates ψ la.steps = applyGates ψ lp.steps := by
  let _ : AngleLabel ℝ := ⟨fun _ => ""⟩
  obtain ⟨a, ha⟩ : ∃ a, Assembly.ofCircuit exchanges = .ok a := ⟨_, rfl⟩
  obtain ⟨m, hm⟩ : ∃ m, MomentCircuit.ofCircuit .cirq exchanges = .ok m := ⟨_, rfl⟩
  obtain ⟨p, hp⟩ : ∃ p, ModifierProgram.ofCircuit exchanges = .ok p := ⟨_, rfl⟩
  obtain ⟨la, lm, lp, hla, hlm, hlp, hagree⟩ := lowered_agree recorded_exchanges ha hm hp
  exact ⟨recorded_exchanges, a, m, p, la, lm, lp, ha, hm, hp, hla, hlm, hlp, hagree⟩

/-! ## 2. Calls -/

/-- **The calls of a functor program send every state where the gates they stand for do,
    global phase included.** -/
theorem calls_lowered_agree {c : Circuit ℝ} (hc : c.Recorded) {q : FunctorProgram ℝ}
    (hq : FunctorProgram.ofCircuit c = .ok q) :
    ∃ a la lq, Assembly.ofCircuit c = .ok a ∧ a.lower = .ok la ∧ q.lower = .ok lq ∧
      ∀ ψ : Statevector (Amplitude ℝ) c.numQubits,
        applyGates ψ lq.steps = applyGates ψ la.steps := by
  obtain ⟨a, ha, hla⟩ := Assembly.lower_ofCircuit hc
  obtain ⟨lq, hlq, himplements⟩ := FunctorProgram.lower_implements hc hq
  exact ⟨a, _, lq, ha, hla, hlq, himplements.sameGates hc⟩

noncomputable def sequences : Circuit ℝ where
  numQubits := 4
  operations := [⟨.iswap, [[2], [0]], []⟩, ⟨.c3sx, [[3], [0], [1], [2]], []⟩,
    ⟨.cu, [[1], [0]], [.angle 1, .angle 0, .angle Real.pi, .angle (-1)]⟩, ⟨.rccx, [[0], [3], [2]], []⟩,
    ⟨.measureAll, [], []⟩]

theorem recorded_sequences : sequences.Recorded := by
  refine Circuit.recorded_iff.mpr ⟨by decide, ?_⟩
  simp only [sequences, List.forall_mem_cons]
  refine ⟨⟨by decide, by decide, rfl, rfl, by simp⟩, ⟨by decide, by decide, rfl, rfl, by simp⟩,
    ⟨by decide, by decide, rfl, rfl, by simp [Param.Fits, Magnitude.isFinite]⟩,
    ⟨by decide, by decide, rfl, rfl, by simp⟩, ⟨by decide, by decide, rfl, rfl, by simp⟩, by simp⟩

theorem calls_lowered_agree_sequences :
    sequences.Recorded ∧ ∃ q a la lq, FunctorProgram.ofCircuit sequences = .ok q ∧
      Assembly.ofCircuit sequences = .ok a ∧ a.lower = .ok la ∧ q.lower = .ok lq ∧
      ∀ ψ : Statevector (Amplitude ℝ) 4, applyGates ψ lq.steps = applyGates ψ la.steps := by
  obtain ⟨q, hq⟩ : ∃ q, FunctorProgram.ofCircuit sequences = .ok q := ⟨_, rfl⟩
  obtain ⟨a, la, lq, ha, hla, hlq, hagree⟩ := calls_lowered_agree recorded_sequences hq
  exact ⟨recorded_sequences, q, a, la, lq, hq, ha, hla, hlq, hagree⟩

end CircuitBroker.Native
