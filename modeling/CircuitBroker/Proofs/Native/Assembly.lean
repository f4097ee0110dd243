/-
  CircuitBroker/Proofs/Native/Assembly.lean
  =========================================
  **Assembly programs: every recorded circuit has one, and it can be run.**

  An operation becomes one instruction on its operands, or measurements.  What it does to
  the operands is its `Operation.action?`, a reference matrix under some controls.  The steps
  it is lowered to are `Assembly.stepsOf`; those of a circuit are the steps of its operations
  in order (`lower_ofCircuit`).  Every other backend is compared with these steps.
-/
import CircuitBroker.Native.Assembly
import CircuitBroker.Proofs.Circuit.Recorded
import CircuitBroker.Proofs.Simulation.Steps

namespace CircuitBroker

variable {R : Type}

/-! ## 1. Gates -/

namespace AssemblyGate

def numTargets : AssemblyGate R → Nat
  | swap | iswap | dcx | rxx _ | ryy _ | rzz _ | rzx _ | cu .. | cswap => 2
  | rccx => 3
  | rc3x => 4
  | _ => 1

theorem numTargets_le (g : AssemblyGate R) : g.numTargets ≤ 4 := by
  cases g <;> simp [numTargets]

variable [Zero R] [One R] [Add R] [Sub R] [Neg R] [Mul R] [Elementary R]

open GateMatrix in
/-- Every reference matrix has the size its gate needs. -/
theorem onQubits_lowered (g : AssemblyGate R) : g.lowered.1.OnQubits g.numTargets := by
  cases g <;> constructor <;>
    simp [lowered, numTargets, Standard.id, Standard.x, Standard.y, Standard.z, Standard.h,
      Standard.s, Standard.sdg, Standard.t, Standard.tdg, Standard.p, Standard.sx, Standard.sxdg,
      Standard.rx, Standard.ry, Standard.rz, Standard.u, Standard.u2, Standard.r, Standard.swap,
      Standard.iswap, Standard.dcx, Standard.rxx, Standard.ryy, Standard.rzz, Standard.rzx,
      Standard.interaction, Standard.cu, Standard.rccx, Standard.rc3x, Standard.patched,
      Standard.square, identity, one, diagonal, permutation, adjoint, scaled, add, kron,
      GateMatrix.controlled, ofFn]

end AssemblyGate

/-! ## 2. Operations -/

namespace Operation

variable [Zero R] [One R] [Add R] [Sub R] [Neg R] [Mul R] [Elementary R]

open GateMatrix in
/-- What an operation does to its operands: a reference matrix on the last of them, under so
    many controls before them.  Measurements have none. -/
def action? (op : Operation R) : Option (GateMatrix (Amplitude R) × Nat) :=
  match op.gate.signature.qubits, op.gate, op.angles with
  | .fixed _, kind, angles => (Assembly.fixedGate? kind angles).map AssemblyGate.lowered
  | .controlled _, .mcp, angles => angles.head?.map fun a => (Standard.p a, op.controls.length)
  | .controlled _, _, _ => some (Standard.x, op.controls.length)

variable {op : Operation R} {action : GateMatrix (Amplitude R) × Nat} {n : Nat}

theorem action?_of_fixed {k : Nat} (hlayout : op.gate.signature.qubits = .fixed k) :
    op.action? = (Assembly.fixedGate? op.gate op.angles).map AssemblyGate.lowered := by
  simp only [action?, hlayout]

theorem exists_fixedGate {kind : Gate} {k : Nat} (hlayout : kind.signature.qubits = .fixed k)
    (hgate : kind.isMeasurement = false) {angles : List R}
    (hangles : ∃ a b c d e, angles = [a, b, c, d, e].take (kind.signature.params.count .angle)) :
    ∃ g, Assembly.fixedGate? kind angles = some g ∧ g.lowered.2 + g.numTargets = k := by
  obtain ⟨a, b, c, d, e, rfl⟩ := hangles
  cases kind <;> cases hlayout <;> first | exact ⟨_, rfl, rfl⟩ | cases hgate

theorem isMeasurement_of_action (haction : op.action? = some action) :
    op.gate.isMeasurement = false := by
  rcases op.gate.measurement_cases with hgate | hkind | hkind
  · exact hgate
  · rw [action?_of_fixed (k := 1) (by rw [hkind]; rfl), hkind] at haction
    cases haction
  · rw [action?_of_fixed (k := 0) (by rw [hkind]; rfl), hkind] at haction
    cases haction

/-- Beside the phase, every kind with any number of controls flips its target. -/
theorem action?_of_flip {ancillas : Bool} (hlayout : op.gate.signature.qubits = .controlled ancillas)
    (hphase : op.gate ≠ .mcp) :
    op.action? = some (GateMatrix.Standard.x, op.controls.length) := by
  cases hkind : op.gate
  case mcp => exact absurd hkind hphase
  case mcx | mct | mcxgc | mcxrec | mcxvchain => simp only [action?, hkind]; rfl
  all_goals rw [hkind] at hlayout; cases hlayout

omit [Zero R] [One R] [Add R] [Sub R] [Neg R] [Mul R] [Elementary R] in
theorem exists_mcx {ancillas : Bool} (hlayout : op.gate.signature.qubits = .controlled ancillas)
    (hphase : op.gate ≠ .mcp) :
    ∃ decomposition, Assembly.ofOperation n op = .ok [Assembly.mcx op decomposition] := by
  cases hkind : op.gate
  case mcp => exact absurd hkind hphase
  case mcx | mct | mcxgc | mcxrec | mcxvchain =>
    simp only [Assembly.ofOperation, hkind]
    exact ⟨_, rfl⟩
  all_goals rw [hkind] at hlayout; cases hlayout

/-- An operation that takes any number of controls acts on one target under all of them. -/
theorem action?_of_controlled [Magnitude R] (h : op.WellFormed n) {ancillas : Bool}
    (hlayout : op.gate.signature.qubits = .controlled ancillas) :
    ∃ g : AssemblyGate R, op.action? = some g.lowered ∧ g.lowered.2 = op.controls.length ∧
      g.numTargets = 1 ∧
      ∃ unused, Assembly.ofOperation n op = .ok [.gate g op.operands unused] := by
  have hoperands := operands_of_controlled hlayout
  by_cases hphase : op.gate = .mcp
  · obtain ⟨target, rest, hgroups, -, htarget⟩ := h.controlled hlayout
    obtain ⟨a, b, c, d, e, hangles⟩ := h.exists_angles
    have htake : (op.groups.take 2).flatten = op.operands := by
      rw [hgroups, hoperands, htarget]; simp
    rw [hphase] at hangles
    refine ⟨.mcphase a op.controls.length, ?_, rfl, rfl, [], ?_⟩
    · simp only [action?, hphase, hangles]; rfl
    · simp only [Assembly.ofOperation, hphase, hangles, htake]; rfl
  · obtain ⟨decomposition, hop⟩ := exists_mcx (n := n) hlayout hphase
    refine ⟨.mcx op.controls.length decomposition, action?_of_flip hlayout hphase, rfl, rfl,
      op.ancillas, ?_⟩
    rw [hop, Assembly.mcx, hoperands]

/-- **Every operation that is no measurement becomes one gate on its operands.** -/
theorem exists_action [Magnitude R] (h : op.WellFormed n)
    (hgate : op.gate.isMeasurement = false) :
    ∃ g : AssemblyGate R, op.action? = some g.lowered ∧
      op.operands.length = g.lowered.2 + g.numTargets ∧
      ∃ unused, Assembly.ofOperation n op = .ok [.gate g op.operands unused] := by
  cases hlayout : op.gate.signature.qubits with
  | fixed k =>
    obtain ⟨g, hg, hsize⟩ := exists_fixedGate hlayout hgate h.exists_angles
    refine ⟨g, by rw [action?_of_fixed hlayout, hg]; rfl, ?_, [], ?_⟩
    · rw [operands_of_fixed hlayout, (h.fixed hlayout).2, hsize]
    · rw [operands_of_fixed hlayout]
      obtain ⟨gate, groups, params⟩ := op
      cases gate <;> cases hlayout <;>
        first | (simp only [Assembly.ofOperation]; rw [hg]) | cases hgate
  | controlled ancillas =>
    obtain ⟨g, haction, hcontrols, htargets, hop⟩ := action?_of_controlled h hlayout
    obtain ⟨target, rest, -, -, htarget⟩ := h.controlled hlayout
    refine ⟨g, haction, ?_, hop⟩
    rw [operands_of_controlled hlayout, htarget, hcontrols, htargets, List.length_append]
    rfl

/-- What an operation does can be run on its operands; it takes at most four targets. -/
theorem WellFormed.onQubits_action [Magnitude R] (h : op.WellFormed n)
    (haction : op.action? = some action) :
    (LoweredStep.onQubits action op.operands).WellFormed n ∧ action.2 ≤ op.operands.length ∧
      op.operands.length - action.2 ≤ 4 := by
  obtain ⟨g, hg, hlen, -⟩ := exists_action h (isMeasurement_of_action haction)
  obtain rfl : action = g.lowered := by simpa [haction] using hg
  have hfew := g.numTargets_le
  have htargets : (op.operands.drop g.lowered.2).length = g.numTargets := by
    rw [List.length_drop, hlen, Nat.add_sub_cancel_left]
  refine ⟨?_, by omega, by omega⟩
  exact {
    nodup := by rw [List.take_append_drop]; exact h.nodup_operands
    lt := by rw [List.take_append_drop]; exact h.operands_lt
    onQubits := by rw [htargets]; exact g.onQubits_lowered
    few := by omega }

end Operation

namespace Assembly

/-! ## 3. Steps -/

section Steps

variable [Zero R] [One R] [Add R] [Sub R] [Neg R] [Mul R] [Elementary R]

def instructionSteps : AssemblyInstruction R → List (LoweredStep (Amplitude R))
  | .gate g qubits _ => [.onQubits g.lowered qubits]
  | .barrier _ => []
  | .measure q => [.measure q]

/-- The steps an operation is lowered to; none if it has no instructions. -/
def stepsOf (numQubits : Nat) (op : Operation R) : List (LoweredStep (Amplitude R)) :=
  match ofOperation numQubits op with
  | .ok instructions => instructions.flatMap instructionSteps
  | .error _ => []

theorem lowerInstruction_eq_ok {instruction : AssemblyInstruction R} {n : Nat}
    (h : ∀ s ∈ instructionSteps instruction, s.WellFormed n)
    (steps : List (LoweredStep (Amplitude R))) :
    lowerInstruction ⟨n, steps⟩ instruction = .ok ⟨n, steps ++ instructionSteps instruction⟩ := by
  cases instruction with
  | gate g qubits ancillas => exact LoweredCircuit.controlled_eq_ok (h _ List.mem_cons_self)
  | barrier qubits => simp [lowerInstruction, instructionSteps]
  | measure q => rfl

variable {op : Operation R} {n : Nat}

theorem stepsOf_eq {instructions : List (AssemblyInstruction R)}
    (h : ofOperation n op = .ok instructions) :
    stepsOf n op = instructions.flatMap instructionSteps := by
  rw [stepsOf, h]

private theorem flatMap_measure (qubits : List Nat) :
    (qubits.map AssemblyInstruction.measure).flatMap (instructionSteps (R := R)) =
      qubits.map .measure := by
  induction qubits with
  | nil => rfl
  | cons q qs ih => rw [List.map_cons, List.flatMap_cons, ih]; rfl

theorem stepsOf_measure (hkind : op.gate = .measure) :
    stepsOf n op = op.qubits.map .measure := by
  have hop : ofOperation n op = .ok (op.qubits.map .measure) := by
    simp only [ofOperation, hkind]
  rw [stepsOf_eq hop, flatMap_measure]

theorem stepsOf_measureAll (hkind : op.gate = .measureAll) :
    stepsOf n op = (List.range n).map .measure := by
  have hop : ofOperation n op =
      .ok (.barrier (List.range n) :: (List.range n).map .measure) := by
    simp only [ofOperation, hkind]
  rw [stepsOf_eq hop, List.flatMap_cons, flatMap_measure]
  rfl

variable [Magnitude R]

theorem exists_ofOperation (h : op.WellFormed n) :
    ∃ instructions, ofOperation n op = .ok instructions := by
  rcases op.gate.measurement_cases with hgate | hkind | hkind
  · obtain ⟨g, -, -, unused, hop⟩ := Operation.exists_action h hgate
    exact ⟨_, hop⟩
  · exact ⟨op.qubits.map .measure, by simp only [ofOperation, hkind]⟩
  · exact ⟨.barrier (List.range n) :: (List.range n).map .measure, by
      simp only [ofOperation, hkind]⟩

theorem stepsOf_action (h : op.WellFormed n) {action : GateMatrix (Amplitude R) × Nat}
    (haction : op.action? = some action) : stepsOf n op = [.onQubits action op.operands] := by
  obtain ⟨g, hg, -, unused, hop⟩ :=
    Operation.exists_action h (Operation.isMeasurement_of_action haction)
  obtain rfl : action = g.lowered := by simpa [haction] using hg
  exact stepsOf_eq hop

theorem wellFormed_stepsOf (h : op.WellFormed n) : ∀ s ∈ stepsOf n op, s.WellFormed n := by
  rcases op.gate.measurement_cases with hgate | hkind | hkind
  · obtain ⟨g, haction, -⟩ := Operation.exists_action h hgate
    rw [stepsOf_action h haction, List.forall_mem_singleton]
    exact (h.onQubits_action haction).1
  · rw [stepsOf_measure hkind, List.forall_mem_map]
    exact h.lt
  · rw [stepsOf_measureAll hkind, List.forall_mem_map]
    exact fun q hq => List.mem_range.mp hq

omit [Magnitude R] in
theorem sameGates_filter {R : Type} [CommRing R] [Elementary R] (ops : List (Operation R)) :
    Simulator.SameGates n ((ops.filter fun op => !op.gate.isMeasurement).flatMap (stepsOf n))
      (ops.flatMap (stepsOf n)) := by
  induction ops with
  | nil => exact .refl _
  | cons op ops ih =>
    rw [List.flatMap_cons]
    rcases op.gate.measurement_cases with hgate | hkind | hkind
    · rw [List.filter_cons_of_pos (by simp [hgate]), List.flatMap_cons]
      exact (Simulator.SameGates.refl _).append ih
    · rw [List.filter_cons_of_neg (by rw [hkind]; decide), stepsOf_measure hkind]
      intro ψ
      rw [Simulator.applyGates_append, Simulator.applyGates_map_measure, ih ψ]
    · rw [List.filter_cons_of_neg (by rw [hkind]; decide), stepsOf_measureAll hkind]
      intro ψ
      rw [Simulator.applyGates_append, Simulator.applyGates_map_measure, ih ψ]

/-- **The lowered program of a recorded circuit is the steps of its operations, in order.** -/
theorem lower_ofCircuit {c : Circuit R} (hc : c.Recorded) :
    ∃ a : Assembly R, ofCircuit c = .ok a ∧
      a.lower = .ok ⟨c.numQubits, c.operations.flatMap (stepsOf c.numQubits)⟩ := by
  have hops := (Circuit.recorded_iff.mp hc).2
  obtain ⟨parts, hparts⟩ := exists_mapM_ok fun op hop => exists_ofOperation (hops op hop)
  have hsteps : parts.flatten.flatMap instructionSteps =
      c.operations.flatMap (stepsOf c.numQubits) :=
    flatMap_flatten_eq ((mapM_eq_ok_iff.mp hparts).imp fun _ _ h => (stepsOf_eq h).symm)
  refine ⟨⟨c.numQubits, parts.flatten⟩, ?_, ?_⟩
  · rw [ofCircuit, hparts]; rfl
  · rw [lower, ← hsteps]
    refine LoweredCircuit.foldlM_adds (fun instruction hmem steps => ?_) []
    refine lowerInstruction_eq_ok (fun s hs => ?_) steps
    have hs' : s ∈ c.operations.flatMap (stepsOf c.numQubits) :=
      hsteps ▸ List.mem_flatMap.mpr ⟨instruction, hmem, hs⟩
    obtain ⟨op, hop, hs'⟩ := List.mem_flatMap.mp hs'
    exact wellFormed_stepsOf (hops op hop) s hs'

end Steps

end Assembly

end CircuitBroker
