/-
  CircuitBroker/Proofs/Native/Moments/Translation.lean
  ====================================================
  **Moment circuits: what is appended for an operation.**

  A translator that accepts an operation appends one gate on its operands, and that gate
  realises the gate an assembly program has for the operation: the same matrix under the
  same controls, or the block matrix of the two.
-/
import CircuitBroker.Native.Moments.Translation
import CircuitBroker.Proofs.GateMatrix.Sizes
import CircuitBroker.Proofs.Native.Implementation
import CircuitBroker.Proofs.Native.Moments.Schedule

namespace CircuitBroker

variable {R : Type} [Zero R] [One R] [Add R] [Sub R] [Neg R] [Mul R] [BEq R] [Elementary R]
  [Magnitude R]

open GateMatrix

/-! ## 1. Matrix gates -/

omit [Elementary R] in
theorem CustomGate.matrix_of_new {name : String} {arity : Nat} {m : GateMatrix (Amplitude R)}
    {labels : List String} {g : CustomGate R} (h : new name arity m labels = .ok g) :
    g.matrix = m := by
  obtain ⟨-, -, -, rfl⟩ := new_eq_ok_iff.mp h
  rfl

variable [AngleLabel R]

theorem MomentGate.library?_realizes {kind : Gate} {angles : List R}
    (hangles : ∃ a b c d e, angles = [a, b, c, d, e].take (kind.signature.params.count .angle))
    {g : AssemblyGate R} (hg : Assembly.fixedGate? kind angles = some g) {custom : CustomGate R}
    (h : library? kind angles = .ok (some custom)) : Realizes (custom.matrix, 0) g.lowered := by
  obtain ⟨a, b, c, d, e, rfl⟩ := hangles
  cases kind <;> first
    | cases h
    | (cases hg; done)
    | (cases hg
       obtain ⟨_, hnew, hsome⟩ := map_eq_ok.mp h
       cases hsome
       rw [CustomGate.matrix_of_new hnew]
       first | exact .inl rfl | exact .inr ⟨by simp [AssemblyGate.lowered], rfl⟩)

namespace MomentCircuit

theorem library?_of_libraryGate {backend : Backend} {kind : Gate} {angles : List R}
    {custom : CustomGate R} (h : libraryGate backend kind angles = .ok custom) :
    MomentGate.library? kind angles = .ok (some custom) := by
  obtain ⟨found, hfound, hmatch⟩ := bind_eq_ok.mp h
  cases found with
  | none => cases hmatch
  | some g => cases hmatch; exact hfound

/-! ## 2. Operations -/

section Append

variable {backend : Backend} {out out' : MomentCircuit R} {op : Operation R} {n : Nat}

/-- Some gate on qubits that realises a matrix under controls. -/
def AppendsGate (out out' : MomentCircuit R) (qubits : List Nat)
    (action : GateMatrix (Amplitude R) × Nat) : Prop :=
  ∃ gate a, out' = out.append gate qubits ∧ gate.lowered? = some a ∧ Realizes a action

theorem appendOperation_fixed {k : Nat} (hlayout : op.gate.signature.qubits = .fixed k)
    (hangles : ∃ a b c d e, op.angles = [a, b, c, d, e].take (op.gate.signature.params.count .angle))
    {g : AssemblyGate R} (hg : Assembly.fixedGate? op.gate op.angles = some g)
    (happ : appendOperation backend out op = .ok out') :
    AppendsGate out out' op.qubits g.lowered := by
  have hlibrary := fun custom (h : libraryGate backend op.gate op.angles = .ok custom) =>
    MomentGate.library?_realizes hangles hg (library?_of_libraryGate h)
  obtain ⟨a, b, c, d, e, hangles⟩ := hangles
  obtain ⟨kind, groups, params⟩ := op
  dsimp only at hlayout hg hangles hlibrary
  rw [hangles] at hg hlibrary
  cases kind <;> first
    | (cases hlayout; done)
    | (cases hg; done)
    | (cases hg
       simp only [appendOperation, hangles] at happ
       first
        | exact ⟨_, _, (Except.ok.inj happ).symm, rfl, .inl rfl⟩
        | (obtain ⟨custom, hcustom, hout⟩ := bind_eq_ok.mp happ
           exact ⟨.matrix custom, _, (Except.ok.inj hout).symm, rfl, hlibrary custom hcustom⟩))

theorem appendOperation_controlled {ancillas : Bool}
    (hlayout : op.gate.signature.qubits = .controlled ancillas)
    {action : GateMatrix (Amplitude R) × Nat} (haction : op.action? = some action)
    (happ : appendOperation backend out op = .ok out') :
    AppendsGate out out' op.operands action := by
  rw [Operation.operands_of_controlled hlayout]
  have hx : op.gate ≠ .mcp →
      out.append (.controlledX op.controls.length) (op.controls ++ op.target?.toList) = out' →
      AppendsGate out out' (op.controls ++ op.target?.toList) action := by
    intro hphase hout
    obtain rfl : (Standard.x, op.controls.length) = action := by
      simpa [Operation.action?_of_flip hlayout hphase] using haction
    exact ⟨_, _, hout.symm, rfl, .inl rfl⟩
  cases hkind : op.gate
  case mcx | mct =>
    simp only [appendOperation, hkind] at happ
    split at happ
    · cases happ
    · exact hx (by rw [hkind]; decide) (Except.ok.inj happ)
  case mcxgc | mcxrec =>
    simp only [appendOperation, hkind] at happ
    exact hx (by rw [hkind]; decide) (Except.ok.inj happ)
  case mcxvchain =>
    simp only [appendOperation, hkind] at happ
    cases happ
  case mcp =>
    simp only [appendOperation, hkind] at happ
    obtain ⟨custom, hcustom, hout⟩ := bind_eq_ok.mp happ
    obtain ⟨base, hnew, hsome⟩ := map_eq_ok.mp (library?_of_libraryGate hcustom)
    cases hsome
    cases hangles : op.angles with
    | nil =>
      simp only [Operation.action?, hkind, hangles] at haction
      cases haction
    | cons a angles =>
      simp only [Operation.action?, hkind, hangles] at haction
      rw [hangles] at hnew
      cases haction
      exact ⟨_, _, (Except.ok.inj hout).symm, rfl, .inl (by rw [CustomGate.matrix_of_new hnew]; rfl)⟩
  all_goals rw [hkind] at hlayout; cases hlayout

/-- **An accepted operation becomes one gate that does what the operation does.** -/
theorem appendOperation_action (h : op.WellFormed n) {action : GateMatrix (Amplitude R) × Nat}
    (haction : op.action? = some action) (happ : appendOperation backend out op = .ok out') :
    AppendsGate out out' op.operands action := by
  cases hlayout : op.gate.signature.qubits with
  | fixed k =>
    rw [Operation.action?_of_fixed hlayout, Option.map_eq_some_iff] at haction
    obtain ⟨g, hg, rfl⟩ := haction
    rw [Operation.operands_of_fixed hlayout]
    exact appendOperation_fixed hlayout h.exists_angles hg happ
  | controlled ancillas => exact appendOperation_controlled hlayout haction happ

end Append

end MomentCircuit

/-! ## 3. Placed gates -/

omit [Add R] [Sub R] [Mul R] [BEq R] [Magnitude R] [AngleLabel R] in
theorem MomentGate.lowered?_eq_none_iff {g : MomentGate R} :
    g.lowered? = none ↔ g.isMeasurement = true := by
  cases g <;> simp [lowered?, isMeasurement]

namespace PlacedGate

section Steps

variable {R : Type} [Zero R] [One R] [Add R] [Sub R] [Neg R] [Mul R] [Elementary R]
  {p : PlacedGate R} {n : Nat} {op : Operation R}

def steps (p : PlacedGate R) : List (LoweredStep (Amplitude R)) :=
  match p.gate.lowered? with
  | some action => [.onQubits action p.qubits]
  | none => p.qubits.map .measure

omit [Add R] [Sub R] [Mul R] in
theorem steps_of_gate {a : GateMatrix (Amplitude R) × Nat} (h : p.gate.lowered? = some a) :
    p.steps = [.onQubits a p.qubits] := by
  simp only [steps, h]

omit [Add R] [Sub R] [Mul R] in
theorem steps_of_measurement (h : p.gate.lowered? = none) : p.steps = p.qubits.map .measure := by
  simp only [steps, h]

variable [Magnitude R]

/-- A placed gate that stands for an operation: on the qubits this touches it realises what the
    operation does, or measures them. -/
structure Renders (p : PlacedGate R) (n : Nat) (op : Operation R) : Prop where
  qubits : p.qubits = op.touched n
  gate : (∃ a, p.gate.lowered? = some a ∧ op.RealizedBy n a p.qubits) ∨
    p.gate.lowered? = none ∧ op.WellFormed n ∧ op.gate.isMeasurement = true

theorem Renders.coveredBy (h : p.Renders n op) : op.CoveredBy n p.steps := by
  rcases h.gate with ⟨a, ha, hrealized⟩ | ⟨hnone, hwf, hmeasure⟩
  · rw [steps_of_gate ha]
    exact hrealized.coveredBy
  · rw [steps_of_measurement hnone, h.qubits, ← Operation.stepsOf_of_measurement hmeasure]
    exact Operation.coveredBy_stepsOf hwf

end Steps

theorem Renders.implementedBy {R : Type} [CommRing R] [Elementary R] [Magnitude R]
    {p : PlacedGate R} {n : Nat} {op : Operation R} (h : p.Renders n op) :
    op.ImplementedBy n p.steps := by
  refine ⟨h.coveredBy, ?_⟩
  rcases h.gate with ⟨a, ha, hrealized⟩ | ⟨hnone, -, hmeasure⟩
  · rw [steps_of_gate ha]
    exact hrealized.implementedBy.sameGates
  · rw [steps_of_measurement hnone, h.qubits, ← Operation.stepsOf_of_measurement hmeasure]
    exact .refl _

end PlacedGate

/-! ## 4. Circuits -/

namespace MomentCircuit

section Circuit

variable {backend : Backend} {n : Nat}

omit [Add R] [Sub R] [Mul R] [BEq R] [Magnitude R] [AngleLabel R] in
theorem lowerGate_eq_ok {p : PlacedGate R} (h : ∀ s ∈ p.steps, s.WellFormed n)
    (steps : List (LoweredStep (Amplitude R))) :
    lowerGate ⟨n, steps⟩ p = .ok ⟨n, steps ++ p.steps⟩ := by
  cases haction : p.gate.lowered? with
  | none => simp only [lowerGate, PlacedGate.steps, haction, LoweredCircuit.foldl_measure]
  | some action =>
    rw [PlacedGate.steps_of_gate haction, List.forall_mem_singleton] at h
    rw [PlacedGate.steps_of_gate haction]
    simp only [lowerGate, haction]
    exact LoweredCircuit.controlled_eq_ok h

/-- **An accepted operation becomes one gate that renders it.** -/
theorem appendOperation_renders {out out' : MomentCircuit R} {op : Operation R}
    (hn : out.numQubits = n) (h : op.WellFormed n)
    (happ : appendOperation backend out op = .ok out') :
    ∃ p : PlacedGate R, out' = out.append p.gate p.qubits ∧ p.Renders n op ∧
      out'.numQubits = n := by
  rcases op.gate.measurement_cases with hgate | hkind | hkind
  · obtain ⟨g, haction, -⟩ := Operation.exists_action h hgate
    obtain ⟨gate, a, rfl, hlowered, hrealizes⟩ := appendOperation_action h haction happ
    refine ⟨⟨gate, op.operands⟩, rfl, ⟨(Operation.touched_of_gate hgate).symm, ?_⟩, hn⟩
    exact .inl ⟨a, hlowered, h, rfl, g.lowered, haction, hrealizes⟩
  · have hlayout : op.gate.signature.qubits = .fixed 1 := by rw [hkind]; rfl
    obtain ⟨q, hq⟩ := List.length_eq_one_iff.mp (h.fixed hlayout).2
    simp only [appendOperation, hkind, hq] at happ
    refine ⟨⟨.measure ("q(" ++ toString q ++ ")"), [q]⟩, (Except.ok.inj happ).symm, ⟨?_, ?_⟩, ?_⟩
    · rw [Operation.touched_of_measure hkind, hq]
    · exact .inr ⟨rfl, h, by rw [hkind]; rfl⟩
    · rw [← Except.ok.inj happ]; exact hn
  · simp only [appendOperation, hkind, hn] at happ
    refine ⟨⟨.measure "result", List.range n⟩, (Except.ok.inj happ).symm, ⟨?_, ?_⟩, ?_⟩
    · exact (Operation.touched_of_measureAll hkind).symm
    · exact .inr ⟨rfl, h, by rw [hkind]; rfl⟩
    · rw [← Except.ok.inj happ]; exact hn

/-- **The gates of a translated circuit render its operations**, which operations on different
    qubits may have changed places. -/
theorem exists_renders {c : Circuit R} (hc : c.Recorded) {m : MomentCircuit R}
    (h : ofCircuit backend c = .ok m) : m.numQubits = c.numQubits ∧
      ∃ ops, Reordered (Operation.Apart c.numQubits) c.operations ops ∧
        List.Forall₂ (fun op p => p.Renders c.numQubits op) ops m.allGates := by
  have hwf := (Circuit.recorded_iff.mp hc).2
  obtain ⟨placed, hm, hplaced⟩ := foldlM_forall₂ (I := fun out => out.numQubits = c.numQubits)
    (g := fun out (p : PlacedGate R) => out.append p.gate p.qubits)
    (P := fun op p => p.Renders c.numQubits op)
    (fun op hop out out' hn happ => appendOperation_renders hn (hwf op hop) happ) rfl h
  change m = (empty c.numQubits).appendAll placed at hm
  have hreordered : Reordered PlacedGate.Apart placed m.allGates := by
    rw [hm]
    exact ((empty c.numQubits).allGates_appendAll placed).symm List.Disjoint.symm
  refine ⟨by rw [hm]; exact numQubits_appendAll placed _, ?_⟩
  exact hreordered.forall₂ (fun {p q op op'} hp hq hapart => by
    rw [Operation.Apart, ← hp.qubits, ← hq.qubits]; exact hapart) hplaced

omit [Add R] [Sub R] [Mul R] [BEq R] [Magnitude R] [AngleLabel R] in
/-- A circuit whose gates can be run is lowered to their steps. -/
theorem lower_eq_ok {m : MomentCircuit R}
    (h : ∀ p ∈ m.allGates, ∀ s ∈ p.steps, s.WellFormed m.numQubits) :
    m.lower = .ok ⟨m.numQubits, m.allGates.flatMap PlacedGate.steps⟩ :=
  LoweredCircuit.foldlM_adds (fun p hp => lowerGate_eq_ok (h p hp)) []

theorem lower_ofCircuit {c : Circuit R} (hc : c.Recorded) {m : MomentCircuit R}
    (h : ofCircuit backend c = .ok m) :
    m.lower = .ok ⟨c.numQubits, m.allGates.flatMap PlacedGate.steps⟩ := by
  obtain ⟨hn, ops, -, hmatch⟩ := exists_renders hc h
  rw [← hn] at hmatch ⊢
  exact lower_eq_ok (forall_mem_of_forall₂ (fun _ _ h => h.coveredBy.wellFormed) hmatch)

/-- **The lowered moments of a recorded circuit cover it.** -/
theorem lower_covers {c : Circuit R} (hc : c.Recorded) {m : MomentCircuit R}
    (h : ofCircuit backend c = .ok m) : ∃ low, m.lower = .ok low ∧ low.Covers c := by
  obtain ⟨-, ops, hreordered, hmatch⟩ := exists_renders hc h
  refine ⟨_, lower_ofCircuit hc h, rfl, ops, m.allGates.map PlacedGate.steps, hreordered.perm, ?_,
    List.flatMap_def⟩
  rw [List.forall₂_map_right_iff]
  exact hmatch.imp fun _ _ h => h.coveredBy

/-- **The lowered moments of a recorded circuit implement it.** -/
theorem lower_implements {R : Type} [CommRing R] [BEq R] [Elementary R] [Magnitude R]
    [AngleLabel R] {c : Circuit R} (hc : c.Recorded) {m : MomentCircuit R}
    (h : ofCircuit backend c = .ok m) : ∃ low, m.lower = .ok low ∧ low.Implements c := by
  obtain ⟨-, ops, hreordered, hmatch⟩ := exists_renders hc h
  refine ⟨_, lower_ofCircuit hc h, rfl, ops, m.allGates.map PlacedGate.steps, hreordered, ?_,
    List.flatMap_def⟩
  rw [List.forall₂_map_right_iff]
  exact hmatch.imp fun _ _ h => h.implementedBy

end Circuit

end MomentCircuit

end CircuitBroker
