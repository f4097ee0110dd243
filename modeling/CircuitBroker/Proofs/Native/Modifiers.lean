/-
  CircuitBroker/Proofs/Native/Modifiers.lean
  ==========================================
  **Modifier programs: the gates of a circuit, then its measurements.**

  A translator that accepts an operation adds one gate on its operands, which realises the
  operation's assembly gate, or puts the qubits it measures into the measured set.  What a
  translated program holds is `ModifierProgram.Translates`; its lowered form is the gates in
  their order, with the measurements of all measured qubits behind them (`Translates.lower_eq`).
-/
import CircuitBroker.Native.Modifiers
import CircuitBroker.Proofs.Circuit.Measured
import CircuitBroker.Proofs.Native.Moments.Translation

namespace CircuitBroker

open GateMatrix

/-! ## 1. Gates -/

section Gates

variable {R : Type} [Zero R] [One R] [Add R] [Sub R] [Neg R] [Mul R] [BEq R] [Elementary R]
  [Magnitude R]

theorem ModifierGate.library?_realizes {kind : Gate} {angles : List R}
    (hangles : ∃ a b c d e, angles = [a, b, c, d, e].take (kind.signature.params.count .angle))
    {g : AssemblyGate R} (hg : Assembly.fixedGate? kind angles = some g) {custom : CustomGate R}
    (h : library? kind angles = .ok (some custom)) : Realizes (custom.matrix, 0) g.lowered := by
  obtain ⟨a, b, c, d, e, rfl⟩ := hangles
  cases kind <;> first
    | cases h
    | (cases hg
       obtain ⟨_, hnew, hsome⟩ := map_eq_ok.mp h
       cases hsome
       rw [CustomGate.matrix_of_new hnew]
       first | exact .inl rfl | exact .inr ⟨by simp [AssemblyGate.lowered], rfl⟩)

namespace ModifierProgram

variable {out out' : ModifierProgram R} {op : Operation R} {n : Nat}

/-- Some gate on qubits that realises a matrix under controls, which can be counted. -/
def PushesGate (out out' : ModifierProgram R) (qubits : List Nat)
    (action : GateMatrix (Amplitude R) × Nat) : Prop :=
  ∃ gate, out' = out.push gate qubits ∧ gate.lowered? = .ok gate.lowered ∧
    Realizes gate.lowered action

omit [BEq R] [Magnitude R] in
theorem lowered?_ctrl {base : ModifierGate R} (hbase : base.lowered? = .ok base.lowered)
    (hfree : base.lowered.2 = 0) (n : Nat) :
    (ModifierGate.ctrl n base).lowered? = .ok (ModifierGate.ctrl n base).lowered := by
  rw [ModifierGate.lowered?, hbase]
  simp [ModifierGate.lowered, hfree, bind, Except.bind, pure, Except.pure]

theorem pushOperation_fixed {k : Nat} (hlayout : op.gate.signature.qubits = .fixed k)
    (hangles : ∃ a b c d e, op.angles = [a, b, c, d, e].take (op.gate.signature.params.count .angle))
    {g : AssemblyGate R} (hg : Assembly.fixedGate? op.gate op.angles = some g)
    (hpush : pushOperation out op = .ok out') : PushesGate out out' op.qubits g.lowered := by
  have hlibrary := fun custom (h : ModifierGate.library? op.gate op.angles = .ok (some custom)) =>
    ModifierGate.library?_realizes hangles hg h
  obtain ⟨a, b, c, d, e, hangles⟩ := hangles
  obtain ⟨kind, groups, params⟩ := op
  dsimp only at hlayout hg hangles hlibrary
  rw [hangles] at hg hlibrary
  cases kind <;> first
    | (cases hlayout; done)
    | (cases hg; done)
    | (cases hg
       simp only [pushOperation, hangles] at hpush
       first
        | exact ⟨_, (Except.ok.inj hpush).symm, rfl, .inl rfl⟩
        | (obtain ⟨found, hfound, hout⟩ := bind_eq_ok.mp hpush
           cases found with
           | none => cases hout
           | some custom => exact ⟨_, (Except.ok.inj hout).symm, rfl, hlibrary custom hfound⟩))

theorem pushOperation_controlled {ancillas : Bool}
    (hlayout : op.gate.signature.qubits = .controlled ancillas)
    {action : GateMatrix (Amplitude R) × Nat} (haction : op.action? = some action)
    (hpush : pushOperation out op = .ok out') : PushesGate out out' op.operands action := by
  rw [Operation.operands_of_controlled hlayout]
  have hx : op.gate ≠ .mcp →
      out.push (.ctrl op.controls.length .x) (op.controls ++ op.target?.toList) = out' →
      PushesGate out out' (op.controls ++ op.target?.toList) action := by
    intro hphase hout
    obtain rfl : (Standard.x, op.controls.length) = action := by
      simpa [Operation.action?_of_flip hlayout hphase] using haction
    exact ⟨_, hout.symm, lowered?_ctrl rfl rfl _, .inl (by simp [ModifierGate.lowered])⟩
  cases hkind : op.gate
  case mcx | mct =>
    simp only [pushOperation, hkind] at hpush
    split at hpush
    · cases hpush
    · exact hx (by rw [hkind]; decide) (Except.ok.inj hpush)
  case mcxgc | mcxrec =>
    simp only [pushOperation, hkind] at hpush
    exact hx (by rw [hkind]; decide) (Except.ok.inj hpush)
  case mcxvchain =>
    simp only [pushOperation, hkind] at hpush
    cases hpush
  case mcp =>
    simp only [pushOperation, hkind] at hpush
    cases hangles : op.angles with
    | nil => rw [hangles] at hpush; cases hpush
    | cons a angles =>
      simp only [Operation.action?, hkind, hangles] at haction
      rw [hangles] at hpush
      cases haction
      exact ⟨_, (Except.ok.inj hpush).symm, lowered?_ctrl rfl rfl _,
        .inl (by simp [ModifierGate.lowered])⟩
  all_goals rw [hkind] at hlayout; cases hlayout

/-- **An accepted operation becomes one gate that does what the operation does.** -/
theorem pushOperation_action (h : op.WellFormed n) {action : GateMatrix (Amplitude R) × Nat}
    (haction : op.action? = some action) (hpush : pushOperation out op = .ok out') :
    PushesGate out out' op.operands action := by
  cases hlayout : op.gate.signature.qubits with
  | fixed k =>
    rw [Operation.action?_of_fixed hlayout, Option.map_eq_some_iff] at haction
    obtain ⟨g, hg, rfl⟩ := haction
    rw [Operation.operands_of_fixed hlayout]
    exact pushOperation_fixed hlayout h.exists_angles hg hpush
  | controlled ancillas => exact pushOperation_controlled hlayout haction hpush

end ModifierProgram

end Gates

namespace ModifierProgram

/-! ## 2. Measured qubits -/

section Measured

variable {q r : Nat} {qubits : List Nat}

@[simp] theorem mem_insertQubit : r ∈ insertQubit q qubits ↔ r = q ∨ r ∈ qubits := by
  induction qubits with
  | nil => simp [insertQubit]
  | cons p ps ih =>
    rw [insertQubit]
    split
    · simp
    · split
      · next heq => subst heq; simp
      · simp [ih, or_left_comm]

theorem pairwise_insertQubit (h : qubits.Pairwise (· < ·)) :
    (insertQubit q qubits).Pairwise (· < ·) := by
  induction qubits with
  | nil => simp [insertQubit]
  | cons p ps ih =>
    obtain ⟨hp, hps⟩ := List.pairwise_cons.mp h
    rw [insertQubit]
    split
    · next hlt =>
      refine List.pairwise_cons.mpr ⟨fun r hr => ?_, h⟩
      rcases List.mem_cons.mp hr with rfl | hr
      · exact hlt
      · exact hlt.trans (hp r hr)
    · split
      · exact h
      · next hge hne =>
        refine List.pairwise_cons.mpr ⟨fun r hr => ?_, ih hps⟩
        rcases mem_insertQubit.mp hr with rfl | hr
        · omega
        · exact hp r hr

variable {R : Type}

theorem foldl_measure (qubits : List Nat) : ∀ p : ModifierProgram R,
    (qubits.foldl measure p).numQubits = p.numQubits ∧
      (qubits.foldl measure p).gates = p.gates ∧
      (∀ r, r ∈ (qubits.foldl measure p).measured ↔ r ∈ qubits ∨ r ∈ p.measured) ∧
      (p.measured.Pairwise (· < ·) → (qubits.foldl measure p).measured.Pairwise (· < ·)) := by
  induction qubits with
  | nil => intro p; simp
  | cons q qs ih =>
    intro p
    obtain ⟨hn, hgates, hmem, hsorted⟩ := ih (p.measure q)
    refine ⟨hn, hgates, fun r => ?_, fun h => hsorted (pairwise_insertQubit h)⟩
    rw [List.foldl_cons, hmem r, measure, mem_insertQubit, List.mem_cons]
    tauto

end Measured

/-! ## 3. Circuits -/

section Circuit

variable {R : Type} [Zero R] [One R] [Add R] [Sub R] [Neg R] [Mul R] [BEq R] [Elementary R]
  [Magnitude R] {p : ModifierProgram R} {n : Nat} {ops : List (Operation R)}

def gateStep (placed : ModifierGate R × List Nat) : LoweredStep (Amplitude R) :=
  .onQubits placed.1.lowered placed.2

/-- A program for some operations: a gate for each that is none, and the qubits of those
    that measure, ascending. -/
structure Translates (p : ModifierProgram R) (n : Nat) (ops : List (Operation R)) : Prop where
  numQubits : p.numQubits = n
  gates : List.Forall₂ (fun op placed => op.RealizedBy n placed.1.lowered placed.2)
    (ops.filter fun op => !op.gate.isMeasurement) p.gates
  counted : ∀ placed ∈ p.gates, placed.1.lowered? = .ok placed.1.lowered
  mem_measured : ∀ q, q ∈ p.measured ↔
    ∃ op ∈ ops, op.gate.isMeasurement = true ∧ q ∈ op.touched n
  sorted : p.measured.Pairwise (· < ·)

omit [BEq R] in
theorem Translates.measure (h : p.Translates n ops) {op : Operation R}
    (hop : op.gate.isMeasurement = true) :
    ((op.touched n).foldl ModifierProgram.measure p).Translates n (ops ++ [op]) := by
  obtain ⟨hn, hgates, hmem, hsorted⟩ := foldl_measure (op.touched n) p
  refine ⟨hn.trans h.numQubits, ?_, hgates ▸ h.counted, fun q => ?_, hsorted h.sorted⟩
  · rw [hgates, List.filter_append]
    simpa [hop] using h.gates
  · rw [hmem q, h.mem_measured q]
    simp [or_and_right, exists_or, hop, or_comm]

/-- **An accepted operation adds what it does: a gate, or measured qubits.** -/
theorem pushOperation_translates {out out' : ModifierProgram R} {op : Operation R}
    (h : op.WellFormed n) (hout : out.Translates n ops)
    (hpush : pushOperation out op = .ok out') : out'.Translates n (ops ++ [op]) := by
  rcases op.gate.measurement_cases with hgate | hkind | hkind
  · obtain ⟨g, haction, -⟩ := Operation.exists_action h hgate
    obtain ⟨gate, rfl, hcounted, hrealizes⟩ := pushOperation_action h haction hpush
    refine ⟨hout.numQubits, ?_, ?_, fun q => ?_, hout.sorted⟩
    · rw [List.filter_append]
      have hself : [op].filter (fun op => !op.gate.isMeasurement) = [op] := by simp [hgate]
      rw [hself]
      exact List.rel_append hout.gates (.cons ⟨h, rfl, g.lowered, haction, hrealizes⟩ .nil)
    · exact List.forall_mem_append.mpr ⟨hout.counted, List.forall_mem_singleton.mpr hcounted⟩
    · rw [push, hout.mem_measured q]
      simp [or_and_right, exists_or, hgate]
  · simp only [pushOperation, hkind] at hpush
    rw [← Except.ok.inj hpush, ← Operation.touched_of_measure hkind]
    exact hout.measure (by rw [hkind]; rfl)
  · simp only [pushOperation, hkind, hout.numQubits] at hpush
    rw [← Except.ok.inj hpush, ← Operation.touched_of_measureAll hkind]
    exact hout.measure (by rw [hkind]; rfl)

theorem translates_ofCircuit {c : Circuit R} (hc : c.Recorded) (h : ofCircuit c = .ok p) :
    p.Translates c.numQubits c.operations := by
  have hwf := (Circuit.recorded_iff.mp hc).2
  refine foldlM_prefix (I := fun done out => out.Translates c.numQubits done)
    ⟨rfl, .nil, nofun, by simp [empty], .nil⟩ (fun op hop done out out' hout hpush => ?_) h
  exact pushOperation_translates (hwf op hop) hout hpush

omit [BEq R] in
theorem Translates.wellFormed_gateStep (h : p.Translates n ops) :
    ∀ placed ∈ p.gates, (gateStep placed).WellFormed n :=
  forall_mem_of_forall₂ (fun _ _ h => h.coveredBy.wellFormed _ List.mem_cons_self) h.gates

omit [BEq R] in
/-- **The lowered program is its gates, then a measurement of each measured qubit.** -/
theorem Translates.lower_eq (h : p.Translates n ops) :
    p.lower = .ok ⟨n, p.gates.map gateStep ++ p.measuredQubits.map .measure⟩ := by
  have hgates := LoweredCircuit.foldlM_adds (R := R) (l := p.gates)
    (f := fun out (placed : ModifierGate R × List Nat) => do
      let lowered ← placed.1.lowered?.mapError Failure.machine
      LoweredCircuit.controlled out lowered.1 (placed.2.take lowered.2) (placed.2.drop lowered.2))
    (g := fun placed => [gateStep placed])
    (fun placed hplaced steps => by
      rw [h.counted placed hplaced]
      exact LoweredCircuit.controlled_eq_ok (h.wellFormed_gateStep placed hplaced)) []
  rw [List.nil_append, ← List.map_eq_flatMap] at hgates
  rw [lower, h.numQubits]
  refine bind_eq_ok.mpr ⟨_, hgates, ?_⟩
  rw [LoweredCircuit.foldl_measure]
  rfl

omit [BEq R] in
/-- A program measures what its circuit reports, whether or not the circuit measures it. -/
theorem Translates.measuredQubits_eq {c : Circuit R} (h : p.Translates c.numQubits c.operations)
    (hc : c.Recorded) : p.measuredQubits = c.reportedQubits := by
  have hmeasured : p.measured = c.measuredQubits :=
    h.sorted.eq_of_mem_iff (Circuit.pairwise_measuredQubits hc) fun q =>
      (h.mem_measured q).trans (Circuit.mem_measuredQubits hc).symm
  rw [measuredQubits, hmeasured, h.numQubits]
  split
  · next hnone => exact (Circuit.reportedQubits_of_unmeasured hc (List.isEmpty_iff.mp hnone)).symm
  · next hsome =>
    exact (Circuit.reportedQubits_of_measured hc (mt List.isEmpty_iff.mpr hsome)).symm

omit [BEq R] [Magnitude R] in
/-- Measurements of ascending qubits behind some gates are reported as they stand. -/
theorem measuredQubits_gateSteps {gates : List (ModifierGate R × List Nat)} {qubits : List Nat}
    (h : qubits.Pairwise (· < ·)) :
    (⟨n, gates.map gateStep ++ qubits.map .measure⟩ : LoweredCircuit (Amplitude R)).measuredQubits =
      qubits := by
  have hgates : ∀ s ∈ gates.map gateStep, s.measured? = none :=
    List.forall_mem_map.mpr fun _ _ => rfl
  refine (pairwise_ascending _).eq_of_mem_iff h fun q => ?_
  rw [mem_ascending, List.filterMap_append, List.filterMap_eq_nil_iff.mpr hgates]
  simp [List.filterMap_map, LoweredStep.measured?]

/-- The gates of a program do what the operations do, measurements passed over. -/
theorem Translates.sameGates {R : Type} [CommRing R] [Elementary R] [Magnitude R]
    {p : ModifierProgram R} {ops : List (Operation R)} (h : p.Translates n ops) :
    Simulator.SameGates n (p.gates.map gateStep) (ops.flatMap (Assembly.stepsOf n)) := by
  have hpieces : Simulator.SameGates n
      ((ops.filter fun op => !op.gate.isMeasurement).flatMap (Assembly.stepsOf n))
      (p.gates.flatMap fun placed => [gateStep placed]) :=
    .flatMap (h.gates.imp fun _ _ h => h.implementedBy.sameGates.symm)
  rw [← List.map_eq_flatMap] at hpieces
  exact hpieces.symm.trans (Assembly.sameGates_filter ops)

end Circuit

end ModifierProgram

end CircuitBroker
