/-
  CircuitBroker/Proofs/Native/Functors/Calls.lean
  ===============================================
  **Calls can be lowered, and to which steps.**

  An intrinsic call is one step.  A call of a defined operation is the steps of its body, or
  of the inverted body, moved to the qubits of the call and put under its controls.  A
  well-formed call, on different qubits and with as many targets as its gate has, is always
  lowered to these steps (`lowerCall_eq_ok`), and they can be run.
-/
import CircuitBroker.Native.Functors
import CircuitBroker.Proofs.Simulation.Steps

namespace CircuitBroker

variable {R : Type}

/-! ## 1. Well-formed calls -/

namespace Intrinsic

def numTargets : Intrinsic R → Nat
  | rxx _ | ryy _ | rzz _ | swap => 2
  | _ => 1

theorem numTargets_le (g : Intrinsic R) : g.numTargets ≤ 2 := by
  cases g <;> simp [numTargets]

variable [Zero R] [One R] [Add R] [Sub R] [Neg R] [Mul R] [Elementary R]

open GateMatrix in
theorem onQubits_matrix (g : Intrinsic R) : g.matrix.OnQubits g.numTargets := by
  cases g <;> constructor <;>
    simp [matrix, numTargets, Standard.id, Standard.x, Standard.y, Standard.z, Standard.h,
      Standard.s, Standard.t, Standard.p, Standard.rx, Standard.ry, Standard.rz, Standard.swap,
      Standard.rxx, Standard.ryy, Standard.rzz, Standard.interaction, Standard.square, identity,
      one, diagonal, permutation, scaled, add, kron, ofFn]

end Intrinsic

def Callable.numTargets : Callable R → Nat
  | intrinsic g => g.numTargets
  | defined d => d.arity

namespace FunctorCall

variable {G : Type}

/-- A call on different qubits of so many, with as many targets as its gate has. -/
@[mk_iff] structure WellFormed (numTargets : G → Nat) (n : Nat) (c : FunctorCall G) : Prop where
  nodup : (c.controls ++ c.targets).Nodup
  lt : ∀ q ∈ c.controls ++ c.targets, q < n
  length : c.targets.length = numTargets c.gate

def relocated (qubits : List Nat) (c : FunctorCall G) : FunctorCall G :=
  { c with controls := c.controls.map (qubits.getD · 0), targets := c.targets.map (qubits.getD · 0) }

variable {numTargets : G → Nat} {n : Nat}

theorem WellFormed.inverse {c : FunctorCall G} (h : c.WellFormed numTargets n) :
    c.inverse.WellFormed numTargets n := ⟨h.nodup, h.lt, h.length⟩

/-- Moved to the different qubits of a caller, and under its controls, a well-formed call
    stays well-formed. -/
theorem WellFormed.relocated {s : FunctorCall G} {qubits controls : List Nat}
    (h : s.WellFormed numTargets qubits.length) (hnodup : (controls ++ qubits).Nodup)
    (hlt : ∀ q ∈ controls ++ qubits, q < n) :
    ((s.relocated qubits).under controls).WellFormed numTargets n := by
  obtain ⟨hcontrols, hqubits, hdisjoint⟩ := List.nodup_append'.mp hnodup
  have hread : ∀ p ∈ s.controls ++ s.targets, ∃ hp : p < qubits.length,
      qubits.getD p 0 = qubits[p] := fun p hp => ⟨h.lt p hp, by simp [h.lt p hp]⟩
  have hall : (controls ++ s.controls.map (qubits.getD · 0)) ++ s.targets.map (qubits.getD · 0) =
      controls ++ (s.controls ++ s.targets).map (qubits.getD · 0) := by simp
  have hmem : ∀ q ∈ (s.controls ++ s.targets).map (qubits.getD · 0), q ∈ qubits := by
    intro q hq
    obtain ⟨p, hp, rfl⟩ := List.mem_map.mp hq
    obtain ⟨hlen, heq⟩ := hread p hp
    rw [heq]
    exact List.getElem_mem hlen
  refine ⟨?_, ?_, by simp [FunctorCall.relocated, under, h.length]⟩
  · change ((controls ++ s.controls.map (qubits.getD · 0)) ++ s.targets.map _).Nodup
    rw [hall, List.nodup_append']
    refine ⟨hcontrols, h.nodup.map_on fun p hp p' hp' he => ?_,
      fun q hq hq' => hdisjoint hq (hmem q hq')⟩
    obtain ⟨hlen, heq⟩ := hread p hp
    obtain ⟨hlen', heq'⟩ := hread p' hp'
    rw [heq, heq'] at he
    exact (hqubits.getElem_inj_iff).mp he
  · change ∀ q ∈ (controls ++ s.controls.map (qubits.getD · 0)) ++ s.targets.map _, q < n
    rw [hall]
    intro q hq
    rcases List.mem_append.mp hq with hq | hq
    · exact hlt q (List.mem_append_left _ hq)
    · exact hlt q (List.mem_append_right _ (hmem q hq))

def step [Zero R] [One R] [Add R] [Sub R] [Neg R] [Mul R] [Elementary R]
    (c : FunctorCall (Intrinsic R)) : LoweredStep (Amplitude R) :=
  .gate (if c.adjoint then c.gate.matrix.adjoint else c.gate.matrix) c.targets c.controls

theorem WellFormed.step [Zero R] [One R] [Add R] [Sub R] [Neg R] [Mul R] [Elementary R]
    {c : FunctorCall (Intrinsic R)} (h : c.WellFormed Intrinsic.numTargets n) :
    c.step.WellFormed n := by
  have hfew := c.gate.numTargets_le
  have hmatrix := c.gate.onQubits_matrix
  rw [← h.length] at hmatrix hfew
  refine ⟨h.nodup, h.lt, ?_, by omega⟩
  split
  · exact hmatrix.adjoint
  · exact hmatrix

end FunctorCall

def FunctorStatement.WellFormed (n : Nat) : FunctorStatement R → Prop
  | .call c => c.WellFormed Callable.numTargets n
  | .measure _ => True

/-! ## 2. Defined operations -/

/-- Every step of a body is on different parameters of the operation. -/
theorem DefinedOperation.wellFormed_body (d : DefinedOperation) :
    ∀ s ∈ (d.body : List (FunctorCall (Intrinsic R))),
      s.WellFormed Intrinsic.numTargets d.arity := by
  cases d <;>
    simp [body, FunctorCall.wellFormed_iff, FunctorCall.on, FunctorCall.under,
      FunctorCall.inverse, Intrinsic.numTargets, arity]

namespace FunctorProgram

theorem wellFormed_steps (d : DefinedOperation) (adjoint : Bool) :
    ∀ s ∈ (steps d adjoint : List (FunctorCall (Intrinsic R))),
      s.WellFormed Intrinsic.numTargets d.arity := by
  intro s hs
  rw [steps] at hs
  split at hs
  · obtain ⟨t, ht, rfl⟩ := List.mem_map.mp hs
    exact (d.wellFormed_body t (List.mem_reverse.mp ht)).inverse
  · exact d.wellFormed_body s hs

theorem relocate_eq_ok {qubits : List Nat} {s : FunctorCall (Intrinsic R)}
    (h : ∀ p ∈ s.controls ++ s.targets, p < qubits.length) :
    relocate qubits s = .ok (s.relocated qubits) := by
  have hall : ∀ f : Nat → Except (Failure R) Nat,
      (∀ p < qubits.length, f p = .ok (qubits.getD p 0)) → ∀ l : List Nat,
        (∀ p ∈ l, p < qubits.length) → l.mapM f = .ok (l.map (qubits.getD · 0)) := by
    intro f hf l hl
    rw [mapM_eq_ok_iff, List.forall₂_map_right_iff, List.forall₂_same]
    exact fun p hp => hf p (hl p hp)
  rw [relocate]
  refine bind_eq_ok.mpr ⟨_, hall _ (fun p hp => by simp [hp]) _ fun p hp =>
    h p (List.mem_append_right _ hp), ?_⟩
  exact bind_eq_ok.mpr ⟨_, hall _ (fun p hp => by simp [hp]) _ fun p hp =>
    h p (List.mem_append_left _ hp), rfl⟩

/-! ## 3. Steps of calls and statements -/

variable [Zero R] [One R] [Add R] [Sub R] [Neg R] [Mul R] [Elementary R]

def callSteps (c : FunctorCall (Callable R)) : List (LoweredStep (Amplitude R)) :=
  match c.gate with
  | .intrinsic gate => [(c.mapGate fun _ => gate).step]
  | .defined d =>
    (steps d c.adjoint).map fun s => ((s.relocated c.targets).under c.controls).step

theorem callSteps_defined (d : DefinedOperation) (adjoint : Bool) (controls targets : List Nat) :
    callSteps (⟨.defined d, adjoint, controls, targets⟩ : FunctorCall (Callable R)) =
      (steps d adjoint).map fun s => ((s.relocated targets).under controls).step := rfl

variable {c : FunctorCall (Callable R)} {n : Nat}

theorem wellFormed_callSteps (h : c.WellFormed Callable.numTargets n) :
    ∀ s ∈ callSteps c, s.WellFormed n := by
  obtain ⟨gate | d, adjoint, controls, targets⟩ := c
  · rw [callSteps, List.forall_mem_singleton]
    exact FunctorCall.WellFormed.step ⟨h.nodup, h.lt, h.length⟩
  · rw [callSteps_defined, List.forall_mem_map]
    intro s hs
    have hbody := wellFormed_steps d adjoint s hs
    rw [← (show targets.length = d.arity from h.length)] at hbody
    exact (hbody.relocated h.nodup h.lt).step

theorem measured?_callSteps (c : FunctorCall (Callable R)) :
    ∀ s ∈ callSteps c, s.measured? = none := by
  obtain ⟨gate | d, adjoint, controls, targets⟩ := c
  · rw [callSteps, List.forall_mem_singleton]
    rfl
  · rw [callSteps_defined, List.forall_mem_map]
    exact fun s _ => rfl

/-- **A well-formed call is lowered to its steps.** -/
theorem lowerCall_eq_ok (h : c.WellFormed Callable.numTargets n)
    (before : List (LoweredStep (Amplitude R))) :
    lowerCall ⟨n, before⟩ c = .ok ⟨n, before ++ callSteps c⟩ := by
  have hwf := wellFormed_callSteps h
  obtain ⟨gate | d, adjoint, controls, targets⟩ := c
  · exact LoweredCircuit.controlled_eq_ok (hwf _ List.mem_cons_self)
  · rw [callSteps_defined, List.forall_mem_map] at hwf
    rw [callSteps_defined, List.map_eq_flatMap]
    refine LoweredCircuit.foldlM_adds (fun s hs before => ?_) before
    have hbody := wellFormed_steps d adjoint s hs
    rw [← (show targets.length = d.arity from h.length)] at hbody
    refine bind_eq_ok.mpr ⟨_, relocate_eq_ok hbody.lt, ?_⟩
    exact LoweredCircuit.controlled_eq_ok (hwf s hs)

def statementSteps : FunctorStatement R → List (LoweredStep (Amplitude R))
  | .call c => callSteps c
  | .measure q => [.measure q]

theorem lowerStatement_eq_ok {s : FunctorStatement R} (h : s.WellFormed n)
    (before : List (LoweredStep (Amplitude R))) :
    lowerStatement ⟨n, before⟩ s = .ok ⟨n, before ++ statementSteps s⟩ := by
  cases s with
  | call c => exact lowerCall_eq_ok h before
  | measure q => rfl

theorem flatMap_measure (qubits : List Nat) :
    (qubits.map FunctorStatement.measure).flatMap (statementSteps (R := R)) =
      qubits.map .measure := by
  rw [List.flatMap_map, List.map_eq_flatMap]
  rfl

end FunctorProgram

end CircuitBroker
