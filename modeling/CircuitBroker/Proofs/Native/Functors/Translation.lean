/-
  CircuitBroker/Proofs/Native/Functors/Translation.lean
  =====================================================
  **Functor programs implement the circuits they are made of.**

  The calls of each form do to every state what the matrix does that they are written for
  (`Writes.sameGates`): an inverted call, a rotation and a defined operation are runs on one
  target, or on two qubits, computed elsewhere.  Since every operation is written in one of the
  forms, the statements of a program implement its circuit (`lower_implements`).
-/
import CircuitBroker.Proofs.Native.Functors.Forms
import CircuitBroker.Proofs.Simulation.Decompositions

namespace CircuitBroker.FunctorProgram

open GateMatrix Simulator

variable {n : Nat} {calls : List (FunctorCall (Callable ℝ))}

/-! ## 1. Forms -/

section Run

variable {target : Nat} (controls : List Nat) (hnodup : (controls ++ [target]).Nodup)
  (hlt : ∀ q ∈ controls ++ [target], q < n)

include hnodup hlt

/-- A call that expands to a run on its one target. -/
theorem sameGates_single (moves : List (GateMatrix (Amplitude ℝ) × List Nat))
    {gate : Callable ℝ} {adjoint : Bool} {m : GateMatrix (Amplitude ℝ)}
    (hsteps : callSteps ⟨gate, adjoint, controls, [target]⟩ =
      onTarget target (underControls controls moves))
    (hfree : ∀ move ∈ moves, move.2 = []) (hturns : ∀ bit p, turns bit moves p = m.turn p) :
    SameGates n (callSteps ⟨gate, adjoint, controls, [target]⟩) [.gate m [target] controls] := by
  rw [hsteps]
  exact sameGates_under hfree hturns hnodup (hlt target (by simp))

theorem sameGates_rotation (theta phi lambda : ℝ) :
    SameGates n ((rotationCalls theta phi lambda target controls).flatMap callSteps)
      [.gate (Standard.u theta phi lambda) [target] controls] := by
  have hsteps : (rotationCalls theta phi lambda target controls).flatMap callSteps =
      onTarget target (underControls controls (rotationMoves theta phi lambda)) := rfl
  rw [hsteps]
  exact sameGates_under (by simp [rotationMoves]) (fun bit p => turns_u p bit theta phi lambda)
    hnodup (hlt target (by simp))

end Run

/-- A call of a defined operation does what the gate does that the operation stands for. -/
theorem sameGates_defined (d : DefinedOperation) {qubits : List Nat}
    (hlen : qubits.length = d.arity) (hnodup : qubits.Nodup) (hlt : ∀ q ∈ qubits, q < n) :
    SameGates (R := ℝ) n (callSteps (.on (.defined d) qubits))
      [.gate d.gate.lowered.1 qubits []] := by
  obtain ⟨q₁, q₂, q₃, q₄, q₅, rfl⟩ := Operation.exists_eq_take 0 hlen (by cases d <;> decide)
  cases d with
  | sx =>
    exact sameGates_single [] hnodup hlt sxMoves rfl (by simp [sxMoves])
      fun bit p => turns_sx p bit
  | iswap =>
    obtain ⟨h₁, h₂⟩ : q₁ < n ∧ q₂ < n := by simpa [DefinedOperation.arity] using hlt
    have hne : q₁ ≠ q₂ := by simpa [DefinedOperation.arity] using hnodup
    exact sameGates_iswap hne h₁ h₂
  | dcx =>
    obtain ⟨h₁, h₂⟩ : q₁ < n ∧ q₂ < n := by simpa [DefinedOperation.arity] using hlt
    have hne : q₁ ≠ q₂ := by simpa [DefinedOperation.arity] using hnodup
    exact sameGates_dcx hne h₁ h₂
  | rccx => exact sameGates_rccx hnodup hlt
  | rc3x => exact sameGates_rc3x hnodup hlt

/-- **The calls of a form do what the matrix does under its controls.** -/
theorem Writes.sameGates {action : GateMatrix (Amplitude ℝ) × Nat} {qubits : List Nat}
    (h : Writes action qubits calls) (hnodup : qubits.Nodup) (hlt : ∀ q ∈ qubits, q < n) :
    SameGates n (calls.flatMap callSteps) [.onQubits action qubits] := by
  cases h with
  | @intrinsic gate k _ _ haction hlen =>
    have hstep : [(FunctorProgram.intrinsic gate (qubits.drop k)).under (qubits.take k)].flatMap
        callSteps = [.gate gate.matrix (qubits.drop k) (qubits.take k ++ [])] := rfl
    rw [hstep, haction, List.append_nil]
    exact .refl _
  | sdg q =>
    rw [List.flatMap_singleton]
    exact sameGates_single [] hnodup hlt [(Standard.s.adjoint, [])] rfl (by simp)
      fun bit p => turns_adjoint_s p bit
  | tdg q =>
    rw [List.flatMap_singleton]
    exact sameGates_single [] hnodup hlt [(Standard.t.adjoint, [])] rfl (by simp)
      fun bit p => turns_adjoint_t p bit
  | sxdg q =>
    rw [List.flatMap_singleton]
    exact sameGates_single [] hnodup hlt sxdgMoves rfl (by simp [sxdgMoves])
      fun bit p => turns_sxdg p bit
  | sx controls target =>
    rw [List.flatMap_singleton, LoweredStep.onQubits, List.drop_left, List.take_left]
    exact sameGates_single controls hnodup hlt sxMoves rfl (by simp [sxMoves])
      fun bit p => turns_sx p bit
  | rotation theta phi lambda controls target =>
    rw [LoweredStep.onQubits, List.drop_left, List.take_left]
    exact sameGates_rotation controls hnodup hlt theta phi lambda
  | cu theta phi lambda gamma a b =>
    obtain ⟨ha, hb⟩ : a < n ∧ b < n := by simpa using hlt
    exact sameGates_cu (by simpa using hnodup) ha hb theta phi lambda gamma
  | rzx theta a b => exact sameGates_rzx theta hnodup hlt
  | defined d hlen =>
    rw [List.flatMap_singleton]
    exact sameGates_defined d hlen hnodup hlt

/-! ## 2. Programs -/

/-- **The statements of an operation implement it.** -/
theorem ofOperation_implements {op : Operation ℝ} (h : op.WellFormed n)
    {part : List (FunctorStatement ℝ)} (hop : ofOperation n op = .ok part) :
    op.ImplementedBy n (part.flatMap statementSteps) := by
  have hcovers := (ofOperation_covers h hop).2
  refine ⟨hcovers, ?_⟩
  cases hgate : op.gate.isMeasurement with
  | true =>
    rw [hcovers.measurement hgate, Operation.stepsOf_of_measurement hgate]
    exact .refl _
  | false =>
    obtain ⟨g, haction, -⟩ := Operation.exists_action h hgate
    rw [ofOperation_of_gate hgate] at hop
    obtain ⟨calls, hcalls, rfl⟩ := map_eq_ok.mp hop
    rw [Assembly.stepsOf_action h haction, List.flatMap_map]
    exact ((writes_callsOf h haction).2 calls hcalls).sameGates h.nodup_operands h.operands_lt

/-- **The lowered program of a recorded circuit implements it.** -/
theorem lower_implements {c : Circuit ℝ} (hc : c.Recorded) {p : FunctorProgram ℝ}
    (h : ofCircuit c = .ok p) : ∃ low, p.lower = .ok low ∧ low.Implements c := by
  obtain ⟨-, parts, hstatements, hparts⟩ := exists_parts hc h
  refine ⟨_, lower_ofCircuit hc h, rfl, c.operations, parts.map (·.flatMap statementSteps),
    .refl _, ?_, ?_⟩
  · rw [List.forall₂_map_right_iff]
    exact hparts.imp fun _ _ h => ofOperation_implements h.1 h.2
  · change p.statements.flatMap statementSteps = _
    rw [hstatements, ← List.flatMap_id, List.flatMap_assoc, List.flatMap_def]
    rfl

end CircuitBroker.FunctorProgram
