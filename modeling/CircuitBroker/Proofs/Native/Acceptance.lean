/-
  CircuitBroker/Proofs/Native/Acceptance.lean
  ===========================================
  **Circuits that send bits to bits have every form.**

  An assembly program can be written for every recorded circuit.  The other forms are refused
  only to operations that ask for ancillas, and no flip or exchange that sends bits to bits does
  so here; over the reals the libraries pass.
-/
import CircuitBroker.Native
import CircuitBroker.Proofs.Circuit.Execution
import CircuitBroker.Proofs.Native.Functors.Forms

namespace CircuitBroker

/-- **Every recorded circuit has an assembly program that implements it.** -/
theorem Assembly.exists_implements {c : Circuit ℝ} (hc : c.Recorded) :
    ∃ (a : Assembly ℝ) (low : _), ofCircuit c = .ok a ∧ a.lower = .ok low ∧ low.Implements c := by
  obtain ⟨a, ha, hlow⟩ := lower_ofCircuit hc
  refine ⟨a, _, ha, hlow, rfl, c.operations, c.operations.map (stepsOf c.numQubits), .refl _, ?_,
    List.flatMap_def⟩
  rw [List.forall₂_map_right_iff, List.forall₂_same]
  exact fun op hop => Operation.implementedBy_stepsOf ((Circuit.recorded_iff.mp hc).2 op hop)

theorem Operation.refusal?_of_isClassical {op : Operation ℝ} (backend : Backend)
    (h : op.isClassical = true) : op.refusal? backend = none := by
  refine refusal?_eq_none_iff.mpr ?_
  rintro (hkind | ⟨hkind | hkind, hmode⟩)
  · simp [isClassical, hkind] at h
  · exact hmode (by simpa [isClassical, hkind] using h)
  · exact hmode (by simpa [isClassical, hkind] using h)

section Circuits

variable {c : Circuit ℝ} (hc : c.Recorded)
  (hclassical : ∀ op ∈ c.operations, op.isClassical = true)

include hclassical

theorem Circuit.findSome?_refusal?_of_isClassical (backend : Backend) :
    c.operations.findSome? (·.refusal? backend) = none :=
  List.findSome?_eq_none_iff.mpr fun op hop =>
    Operation.refusal?_of_isClassical backend (hclassical op hop)

include hc

theorem FunctorProgram.exists_ofCircuit : ∃ p, ofCircuit c = .ok p :=
  (ofCircuit_settled hc).ok_iff.mpr (Circuit.findSome?_refusal?_of_isClassical hclassical .qsharp)

theorem MomentCircuit.exists_ofCircuit [AngleLabel ℝ] (backend : Backend) :
    ∃ m, ofCircuit backend c = .ok m :=
  (ofCircuit_settled libraryPasses hc).ok_iff.mpr
    (Circuit.findSome?_refusal?_of_isClassical hclassical backend)

theorem ModifierProgram.exists_ofCircuit : ∃ p, ofCircuit c = .ok p :=
  (ofCircuit_settled libraryPasses hc).ok_iff.mpr
    (Circuit.findSome?_refusal?_of_isClassical hclassical .braket)

end Circuits

end CircuitBroker
