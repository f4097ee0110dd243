/-
  CircuitBroker/Proofs/Native/Implementation.lean
  ===============================================
  **What it means that steps implement a circuit.**

  The steps of an assembly program say what each operation does.  Steps of any other origin
  implement an operation if their gates send every state where those do, and if they measure
  what those measure.  A lowered circuit implements a circuit if it falls into parts that
  implement the operations one by one; operations on different qubits may have changed
  places.

  `LoweredCircuit.Implements.sameGates` is what this is for: two lowered circuits that
  implement one circuit send every state to the same state.
-/
import CircuitBroker.Proofs.Native.Assembly

namespace CircuitBroker

variable {R : Type}

/-! ## 1. Operations -/

namespace Operation

def touched (numQubits : Nat) (op : Operation R) : List Nat :=
  if op.gate = .measureAll then List.range numQubits else op.operands

def Apart (numQubits : Nat) (op op' : Operation R) : Prop :=
  List.Disjoint (op.touched numQubits) (op'.touched numQubits)

theorem touched_of_gate {op : Operation R} {n : Nat} (hgate : op.gate.isMeasurement = false) :
    op.touched n = op.operands := by
  rw [touched, if_neg (by intro he; rw [he] at hgate; cases hgate)]

theorem touched_of_measure {op : Operation R} {n : Nat} (hkind : op.gate = .measure) :
    op.touched n = op.qubits := by
  rw [touched, if_neg (by rw [hkind]; simp), operands_of_fixed (k := 1) (by rw [hkind]; rfl)]

theorem touched_of_measureAll {op : Operation R} {n : Nat} (hkind : op.gate = .measureAll) :
    op.touched n = List.range n := by
  rw [touched, if_pos hkind]

/-- Steps that can be run, and that measure exactly if the operation does: the qubits it
    touches, in order. -/
structure CoveredBy {K : Type} (op : Operation R) (numQubits : Nat) (steps : List (LoweredStep K)) :
    Prop where
  wellFormed : ∀ s ∈ steps, s.WellFormed numQubits
  measurement : op.gate.isMeasurement = true → steps = (op.touched numQubits).map .measure
  gates : op.gate.isMeasurement = false → ∀ s ∈ steps, s.measured? = none

/-- Steps that do what an operation does: the same measurements, or gates that send every
    state to the same state. -/
structure ImplementedBy [CommRing R] [Elementary R] (op : Operation R) (numQubits : Nat)
    (steps : List (LoweredStep (Amplitude R))) : Prop extends op.CoveredBy numQubits steps where
  sameGates : Simulator.SameGates numQubits steps (Assembly.stepsOf numQubits op)

section Steps

variable [Zero R] [One R] [Add R] [Sub R] [Neg R] [Mul R] [Elementary R] [Magnitude R]
  {op : Operation R} {n : Nat}

/-- A matrix under controls that realises, on these qubits, what an operation does. -/
structure RealizedBy (op : Operation R) (numQubits : Nat) (a : GateMatrix (Amplitude R) × Nat)
    (qubits : List Nat) : Prop where
  wellFormed : op.WellFormed numQubits
  qubits_eq : qubits = op.operands
  realizes : ∃ action, op.action? = some action ∧ GateMatrix.Realizes a action

theorem RealizedBy.coveredBy {a : GateMatrix (Amplitude R) × Nat} {qubits : List Nat}
    (h : op.RealizedBy n a qubits) : op.CoveredBy n [.onQubits a qubits] := by
  obtain ⟨hwf, rfl, action, haction, hrealizes⟩ := h
  obtain ⟨hstep, hle, hfew⟩ := hwf.onQubits_action haction
  have hgate := isMeasurement_of_action haction
  exact {
    wellFormed := List.forall_mem_singleton.mpr (hrealizes.wellFormed hstep hle hfew)
    measurement := fun hm => absurd hm (by rw [hgate]; simp)
    gates := fun _ => List.forall_mem_singleton.mpr rfl }

omit [Magnitude R] in
theorem stepsOf_of_measurement (hmeasure : op.gate.isMeasurement = true) :
    Assembly.stepsOf n op = (op.touched n).map .measure := by
  rcases op.gate.measurement_cases with hgate | hkind | hkind
  · rw [hgate] at hmeasure; cases hmeasure
  · rw [Assembly.stepsOf_measure hkind, touched_of_measure hkind]
  · rw [Assembly.stepsOf_measureAll hkind, touched_of_measureAll hkind]

theorem coveredBy_stepsOf (h : op.WellFormed n) : op.CoveredBy n (Assembly.stepsOf n op) where
  wellFormed := Assembly.wellFormed_stepsOf h
  measurement := stepsOf_of_measurement
  gates := by
    intro hgate
    obtain ⟨g, haction, -⟩ := exists_action h hgate
    rw [Assembly.stepsOf_action h haction]
    exact List.forall_mem_singleton.mpr rfl

end Steps

variable [CommRing R] [Elementary R] [Magnitude R] {op : Operation R} {n : Nat}

theorem RealizedBy.implementedBy {a : GateMatrix (Amplitude R) × Nat} {qubits : List Nat}
    (h : op.RealizedBy n a qubits) : op.ImplementedBy n [.onQubits a qubits] := by
  refine ⟨h.coveredBy, ?_⟩
  obtain ⟨hwf, rfl, action, haction, hrealizes⟩ := h
  obtain ⟨hstep, hle, -⟩ := hwf.onQubits_action haction
  rw [Assembly.stepsOf_action hwf haction]
  exact hrealizes.sameGates hstep hle

theorem implementedBy_stepsOf (h : op.WellFormed n) :
    op.ImplementedBy n (Assembly.stepsOf n op) :=
  ⟨coveredBy_stepsOf h, .refl _⟩

theorem touched_of_mem_stepsOf (h : op.WellFormed n) :
    ∀ s ∈ Assembly.stepsOf n op, ∀ q ∈ s.qubits, q ∈ op.touched n := by
  rcases op.gate.measurement_cases with hgate | hkind | hkind
  · obtain ⟨g, haction, -⟩ := exists_action h hgate
    rw [Assembly.stepsOf_action h haction, List.forall_mem_singleton, touched_of_gate hgate]
    intro q hq
    rwa [LoweredStep.onQubits, LoweredStep.qubits, List.take_append_drop] at hq
  · rw [Assembly.stepsOf_measure hkind, touched_of_measure hkind, List.forall_mem_map]
    exact fun q hq r hr => List.mem_singleton.mp hr ▸ hq
  · rw [Assembly.stepsOf_measureAll hkind, touched_of_measureAll hkind, List.forall_mem_map]
    exact fun q hq r hr => List.mem_singleton.mp hr ▸ hq

end Operation

/-! ## 2. Circuits -/

/-- A lowered circuit that falls into parts, one for each operation of a circuit, in some
    order. -/
def LoweredCircuit.Covers {K : Type} (low : LoweredCircuit K) (c : Circuit R) : Prop :=
  low.numQubits = c.numQubits ∧
    ∃ ops parts, c.operations.Perm ops ∧
      List.Forall₂ (fun op part => op.CoveredBy c.numQubits part) ops parts ∧
      low.steps = parts.flatten

theorem LoweredCircuit.Covers.wellFormed {K : Type} {low : LoweredCircuit K} {c : Circuit R}
    (h : low.Covers c) : ∀ s ∈ low.steps, s.WellFormed low.numQubits := by
  obtain ⟨hn, ops, parts, -, hparts, hsteps⟩ := h
  rw [hn, hsteps]
  intro s hs
  obtain ⟨part, hpart, hs⟩ := List.mem_flatten.mp hs
  exact forall_mem_of_forall₂ (fun _ _ h => h.wellFormed) hparts part hpart s hs

/-- An assembly program keeps the operations of a circuit in order. -/
theorem Assembly.lower_covers [Zero R] [One R] [Add R] [Sub R] [Neg R] [Mul R] [Elementary R]
    [Magnitude R] {c : Circuit R} (hc : c.Recorded) {a : Assembly R} (h : ofCircuit c = .ok a) :
    ∃ low, a.lower = .ok low ∧ low.Covers c := by
  obtain ⟨a', ha', hlow⟩ := lower_ofCircuit hc
  obtain rfl : a = a' := by simpa [h] using ha'
  refine ⟨_, hlow, rfl, c.operations, c.operations.map (stepsOf c.numQubits), .refl _, ?_, rfl⟩
  exact List.forall₂_map_right_iff.mpr (List.forall₂_same.mpr fun op hop =>
    Operation.coveredBy_stepsOf ((Circuit.recorded_iff.mp hc).2 op hop))

variable [CommRing R] [Elementary R]

/-- A lowered circuit that falls into parts, one for each operation of a circuit, where
    operations on different qubits may have changed places. -/
def LoweredCircuit.Implements (low : LoweredCircuit (Amplitude R)) (c : Circuit R) : Prop :=
  low.numQubits = c.numQubits ∧
    ∃ ops parts, Reordered (Operation.Apart c.numQubits) c.operations ops ∧
      List.Forall₂ (fun op part => op.ImplementedBy c.numQubits part) ops parts ∧
      low.steps = parts.flatten

theorem LoweredCircuit.Implements.covers {low : LoweredCircuit (Amplitude R)} {c : Circuit R}
    (h : low.Implements c) : low.Covers c := by
  obtain ⟨hn, ops, parts, hreordered, hparts, hsteps⟩ := h
  exact ⟨hn, ops, parts, hreordered.perm, hparts.imp fun _ _ h => h.toCoveredBy, hsteps⟩

/-- **The gates of a circuit's implementation do what the gates of its assembly program
    do.** -/
theorem LoweredCircuit.Implements.sameGates [Magnitude R] {low : LoweredCircuit (Amplitude R)}
    {c : Circuit R} (hc : c.Recorded) (h : low.Implements c) :
    Simulator.SameGates c.numQubits low.steps
      (c.operations.flatMap (Assembly.stepsOf c.numQubits)) := by
  obtain ⟨-, ops, parts, hreordered, hparts, hsteps⟩ := h
  have hwf := (Circuit.recorded_iff.mp hc).2
  have hpieces : Simulator.SameGates c.numQubits (ops.flatMap (Assembly.stepsOf c.numQubits))
      (parts.flatMap id) :=
    .flatMap (hparts.imp fun _ _ h => h.sameGates.symm)
  rw [List.flatMap_id, ← hsteps] at hpieces
  have horder : Reordered LoweredStep.Apart
      (c.operations.flatMap (Assembly.stepsOf c.numQubits))
      (ops.flatMap (Assembly.stepsOf c.numQubits)) :=
    hreordered.flatMap fun a ha b hb hapart s hs t ht q hsq htq =>
      hapart (Operation.touched_of_mem_stepsOf (hwf a ha) s hs q hsq)
        (Operation.touched_of_mem_stepsOf (hwf b hb) t ht q htq)
  refine hpieces.symm.trans (.symm (.of_reordered (fun s hs => ?_) horder))
  obtain ⟨op, hop, hs⟩ := List.mem_flatMap.mp hs
  exact (Assembly.wellFormed_stepsOf (hwf op hop) s hs).spread

end CircuitBroker
