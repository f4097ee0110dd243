/-
  CircuitBroker/Proofs/Native/Functors/Forms.lean
  ===============================================
  **What a functor program writes for an operation.**

  Most operations are one intrinsic call on their last qubits, under the qubits before them.
  The others are an inverted call, a rotation, a short sequence, or a call of a defined operation.
  `Writes` lists these forms.  `writes_callsOf` goes through the kinds once: an operation that
  asks for no ancillas is written in one of the forms.  What else there is to say of the calls is
  said of the forms; that they can be made is `Writes.wellFormed`.
-/
import CircuitBroker.Proofs.Native.Functors.Calls
import CircuitBroker.Proofs.Native.Support

namespace CircuitBroker

variable {R : Type} [Zero R] [One R] [Add R] [Sub R] [Neg R] [Mul R] [Elementary R]

open GateMatrix

def DefinedOperation.gate {R : Type} : DefinedOperation → AssemblyGate R
  | sx => .sx
  | iswap => .iswap
  | dcx => .dcx
  | rccx => .rccx
  | rc3x => .rc3x

namespace FunctorProgram

/-! ## 1. Forms -/

/-- The calls that are written for a matrix under so many controls on qubits. -/
inductive Writes : GateMatrix (Amplitude R) × Nat → List Nat → List (FunctorCall (Callable R)) → Prop
  | intrinsic {gate : Intrinsic R} (k : Nat) {action : GateMatrix (Amplitude R) × Nat}
      {qubits : List Nat} (haction : action = (gate.matrix, k))
      (hlen : qubits.length = k + gate.numTargets) :
      Writes action qubits [(intrinsic gate (qubits.drop k)).under (qubits.take k)]
  | sdg (q : Nat) : Writes (Standard.sdg, 0) [q] [(intrinsic .s [q]).inverse]
  | tdg (q : Nat) : Writes (Standard.tdg, 0) [q] [(intrinsic .t [q]).inverse]
  | sxdg (q : Nat) : Writes (Standard.sxdg, 0) [q] [(FunctorCall.on (.defined .sx) [q]).inverse]
  | sx (controls : List Nat) (target : Nat) :
      Writes (Standard.sx, controls.length) (controls ++ [target])
        [⟨.defined .sx, false, controls, [target]⟩]
  | rotation (theta phi lambda : R) (controls : List Nat) (target : Nat) :
      Writes (Standard.u theta phi lambda, controls.length) (controls ++ [target])
        (rotationCalls theta phi lambda target controls)
  | cu (theta phi lambda gamma : R) (control target : Nat) :
      Writes (Standard.cu theta phi lambda gamma, 0) [control, target]
        (intrinsic (.r1 gamma) [control] :: rotationCalls theta phi lambda target [control])
  | rzx (theta : R) (a b : Nat) :
      Writes (Standard.rzx theta, 0) [a, b]
        [intrinsic .h [b], (intrinsic .x [b]).under [a], intrinsic (.rz theta) [b],
          (intrinsic .x [b]).under [a], intrinsic .h [b]]
  | defined (d : DefinedOperation) {qubits : List Nat} (hlen : qubits.length = d.arity) :
      Writes (d.gate.lowered.1, 0) qubits [.on (.defined d) qubits]

section Forms

variable {n : Nat} {action : GateMatrix (Amplitude R) × Nat} {qubits : List Nat}
  {calls : List (FunctorCall (Callable R))}

/-- **The calls of a form can be made**, if the qubits are different ones. -/
theorem Writes.wellFormed (h : Writes action qubits calls) (hnodup : qubits.Nodup)
    (hlt : ∀ q ∈ qubits, q < n) : ∀ c ∈ calls, c.WellFormed Callable.numTargets n := by
  have hrotation : ∀ (theta phi lambda : R) (controls : List Nat) (target : Nat),
      (controls ++ [target]).Nodup → (∀ q ∈ controls ++ [target], q < n) →
      ∀ c ∈ rotationCalls theta phi lambda target controls,
        c.WellFormed Callable.numTargets n := by
    intro theta phi lambda controls target hnodup hlt
    rw [← List.append_nil controls] at hnodup hlt
    simp only [rotationCalls, List.forall_mem_map, List.forall_mem_cons]
    exact ⟨⟨hnodup, hlt, rfl⟩, ⟨hnodup, hlt, rfl⟩, ⟨hnodup, hlt, rfl⟩, by simp⟩
  cases h with
  | @intrinsic gate k _ _ _ hlen =>
    have hall : (qubits.take k ++ []) ++ qubits.drop k = qubits := by
      rw [List.append_nil, List.take_append_drop]
    refine List.forall_mem_singleton.mpr ⟨?_, ?_, ?_⟩
    · change ((qubits.take k ++ []) ++ qubits.drop k).Nodup
      rw [hall]; exact hnodup
    · change ∀ q ∈ (qubits.take k ++ []) ++ qubits.drop k, q < n
      rw [hall]; exact hlt
    · change (qubits.drop k).length = gate.numTargets
      rw [List.length_drop, hlen, Nat.add_sub_cancel_left]
  | sdg q => exact List.forall_mem_singleton.mpr ⟨hnodup, hlt, rfl⟩
  | tdg q => exact List.forall_mem_singleton.mpr ⟨hnodup, hlt, rfl⟩
  | sxdg q => exact List.forall_mem_singleton.mpr ⟨hnodup, hlt, rfl⟩
  | sx controls target => exact List.forall_mem_singleton.mpr ⟨hnodup, hlt, rfl⟩
  | rotation theta phi lambda controls target => exact hrotation _ _ _ controls target hnodup hlt
  | cu theta phi lambda gamma control target =>
    refine List.forall_mem_cons.mpr ⟨⟨List.nodup_singleton control, ?_, rfl⟩, ?_⟩
    · exact List.forall_mem_singleton.mpr (hlt control (by simp))
    · exact hrotation _ _ _ [control] target hnodup hlt
  | rzx theta a b =>
    have hplain : ∀ g : Intrinsic R, g.numTargets = 1 →
        (FunctorProgram.intrinsic g [b]).WellFormed Callable.numTargets n := fun g hg =>
      ⟨List.nodup_singleton b, List.forall_mem_singleton.mpr (hlt b (by simp)), hg.symm⟩
    have hcnot : ((FunctorProgram.intrinsic (R := R) .x [b]).under [a]).WellFormed
        Callable.numTargets n := ⟨hnodup, hlt, rfl⟩
    simp only [List.forall_mem_cons]
    exact ⟨hplain _ rfl, hcnot, hplain _ rfl, hcnot, hplain _ rfl, by simp⟩
  | defined d hlen => exact List.forall_mem_singleton.mpr ⟨hnodup, hlt, hlen⟩

end Forms

/-! ## 2. Operations -/

section Operations

variable [Magnitude R] {op : Operation R} {n : Nat} {action : GateMatrix (Amplitude R) × Nat}

theorem exists_writes_fixed (h : op.WellFormed n) {k : Nat}
    (hlayout : op.gate.signature.qubits = .fixed k) {g : AssemblyGate R}
    (hg : Assembly.fixedGate? op.gate op.angles = some g) :
    ∃ calls, callsOf op = .ok calls ∧ Writes g.lowered op.qubits calls := by
  obtain ⟨a₁, a₂, a₃, a₄, a₅, hangles⟩ := h.exists_angles
  obtain ⟨q₁, q₂, q₃, q₄, q₅, hqubits⟩ := Operation.exists_eq_take 0 (h.fixed hlayout).2
    (by revert hlayout; cases op.gate <;> intro hlayout <;> cases hlayout <;> decide)
  rw [hqubits]
  rw [hangles] at hg
  obtain ⟨kind, groups, params⟩ := op
  dsimp only at hlayout hg hangles hqubits
  cases kind
  all_goals first
    | (cases hlayout; done)
    | (cases hg; done)
    | (cases hlayout
       cases hg
       simp only [callsOf, hqubits, hangles])
  -- kinds that are not one intrinsic call
  case sdg => exact ⟨_, rfl, .sdg q₁⟩
  case td => exact ⟨_, rfl, .tdg q₁⟩
  case sx => exact ⟨_, rfl, .sx [] q₁⟩
  case sxd => exact ⟨_, rfl, .sxdg q₁⟩
  case csx => exact ⟨_, rfl, .sx [q₁] q₂⟩
  case c3sx => exact ⟨_, rfl, .sx [q₁, q₂, q₃] q₄⟩
  case u2 | r | u | u3 => exact ⟨_, rfl, .rotation _ _ _ [] q₁⟩
  case cu3 => exact ⟨_, rfl, .rotation _ _ _ [q₁] q₂⟩
  case cu => exact ⟨_, rfl, .cu _ _ _ _ q₁ q₂⟩
  case rzx => exact ⟨_, rfl, .rzx _ q₁ q₂⟩
  case iswap => exact ⟨_, rfl, .defined .iswap rfl⟩
  case dcx => exact ⟨_, rfl, .defined .dcx rfl⟩
  case rccx => exact ⟨_, rfl, .defined .rccx rfl⟩
  case rc3x => exact ⟨_, rfl, .defined .rc3x rfl⟩
  -- all others
  all_goals first
    | exact ⟨_, rfl, .intrinsic 0 rfl rfl⟩
    | exact ⟨_, rfl, .intrinsic 1 rfl rfl⟩
    | exact ⟨_, rfl, .intrinsic 2 rfl rfl⟩
    | exact ⟨_, rfl, .intrinsic 3 rfl rfl⟩
    | exact ⟨_, rfl, .intrinsic 4 rfl rfl⟩

/-- An operation under any number of controls is refused, or one call on its target. -/
theorem writes_controlled (h : op.WellFormed n) {ancillas : Bool}
    (hlayout : op.gate.signature.qubits = .controlled ancillas) (haction : op.action? = some action) :
    Settled (op.refusal? .qsharp) (callsOf op) ∧
      ∀ calls, callsOf op = .ok calls → Writes action op.operands calls := by
  obtain ⟨target, rest, -, -, htarget⟩ := h.controlled hlayout
  have hoperands := Operation.operands_of_controlled hlayout
  rw [htarget, Option.toList_some] at hoperands
  have hcall : ∀ gate : Intrinsic R, gate.numTargets = 1 →
      action = (gate.matrix, op.controls.length) →
      Settled none (.ok [(intrinsic gate [target]).under op.controls] :
        Except (Failure R) (List (FunctorCall (Callable R)))) ∧
      ∀ calls, (.ok [(intrinsic gate [target]).under op.controls] : Except (Failure R) _) =
        .ok calls → Writes action op.operands calls := by
    intro gate hgate haction
    refine ⟨⟨_, rfl⟩, fun calls hcalls => ?_⟩
    obtain rfl := Except.ok.inj hcalls
    have hlen : op.operands.length = op.controls.length + gate.numTargets := by
      rw [hoperands, hgate, List.length_append, List.length_singleton]
    have hform := Writes.intrinsic op.controls.length haction hlen
    rwa [hoperands, List.drop_left, List.take_left, ← hoperands] at hform
  have hflip : op.gate ≠ .mcp → action = (Intrinsic.x.matrix, op.controls.length) := by
    intro hphase
    rw [Operation.action?_of_flip hlayout hphase] at haction
    exact (Option.some.inj haction).symm
  cases hkind : op.gate
  case mcx | mct =>
    cases huses : op.mode.usesAncillas <;>
      simp only [Operation.refusal?, Operation.ancillaMode?, callsOf, hkind, huses, htarget]
    · exact hcall .x rfl (hflip (by rw [hkind]; decide))
    · exact ⟨rfl, fun calls hcalls => by cases hcalls⟩
  case mcxgc | mcxrec =>
    simp only [Operation.refusal?, Operation.ancillaMode?, callsOf, hkind, htarget]
    exact hcall .x rfl (hflip (by rw [hkind]; decide))
  case mcxvchain =>
    simp only [Operation.refusal?, Operation.ancillaMode?, callsOf, hkind]
    exact ⟨rfl, fun calls hcalls => by cases hcalls⟩
  case mcp =>
    obtain ⟨a, b, c, d, e, hangles⟩ := h.exists_angles
    rw [hkind] at hangles
    simp only [Operation.refusal?, Operation.ancillaMode?, callsOf, hkind, hangles, htarget]
    refine hcall (.r1 a) rfl ?_
    simp only [Operation.action?, hkind, hangles] at haction
    exact (Option.some.inj haction).symm
  all_goals rw [hkind] at hlayout; cases hlayout

/-- **An operation that is no measurement is written in one of the forms, unless it asks for
    ancillas.** -/
theorem writes_callsOf (h : op.WellFormed n) (haction : op.action? = some action) :
    Settled (op.refusal? .qsharp) (callsOf op) ∧
      ∀ calls, callsOf op = .ok calls → Writes action op.operands calls := by
  cases hlayout : op.gate.signature.qubits with
  | fixed k =>
    rw [Operation.action?_of_fixed hlayout, Option.map_eq_some_iff] at haction
    obtain ⟨g, hg, rfl⟩ := haction
    obtain ⟨calls, hcalls, hwrites⟩ := exists_writes_fixed h hlayout hg
    rw [Operation.operands_of_fixed hlayout, Operation.refusal?_of_fixed _ hlayout, hcalls]
    exact ⟨⟨calls, rfl⟩, fun _ hsame => Except.ok.inj hsame ▸ hwrites⟩
  | controlled ancillas => exact writes_controlled h hlayout haction

omit [Zero R] [One R] [Add R] [Neg R] [Mul R] [Magnitude R] in
theorem ofOperation_of_gate (hgate : op.gate.isMeasurement = false) :
    ofOperation n op = (callsOf op).map (List.map .call) := by
  cases hkind : op.gate <;>
    first
    | (simp only [ofOperation, hkind]; done)
    | (rw [hkind] at hgate; cases hgate)

theorem ofOperation_settled (h : op.WellFormed n) :
    Settled (op.refusal? .qsharp) (ofOperation n op) := by
  rcases op.gate.measurement_cases with hgate | hkind | hkind
  · obtain ⟨g, haction, -⟩ := Operation.exists_action h hgate
    rw [ofOperation_of_gate hgate]
    exact (writes_callsOf h haction).1.map _
  · rw [Operation.refusal?_of_fixed (k := 1) _ (by rw [hkind]; rfl)]
    simp only [ofOperation, hkind]
    exact ⟨_, rfl⟩
  · rw [Operation.refusal?_of_fixed (k := 0) _ (by rw [hkind]; rfl)]
    simp only [ofOperation, hkind]
    exact ⟨_, rfl⟩

/-- The statements of an operation can be lowered, and cover it. -/
theorem ofOperation_covers (h : op.WellFormed n) {part : List (FunctorStatement R)}
    (hop : ofOperation n op = .ok part) :
    (∀ s ∈ part, s.WellFormed n) ∧ op.CoveredBy n (part.flatMap statementSteps) := by
  have hself := Operation.coveredBy_stepsOf h
  rcases op.gate.measurement_cases with hgate | hkind | hkind
  · obtain ⟨g, haction, -⟩ := Operation.exists_action h hgate
    rw [ofOperation_of_gate hgate] at hop
    obtain ⟨calls, hcalls, rfl⟩ := map_eq_ok.mp hop
    have hwf := ((writes_callsOf h haction).2 calls hcalls).wellFormed h.nodup_operands h.operands_lt
    refine ⟨List.forall_mem_map.mpr hwf, ?_⟩
    rw [List.flatMap_map]
    exact {
      wellFormed := fun s hs => by
        obtain ⟨call, hcall, hs⟩ := List.mem_flatMap.mp hs
        exact wellFormed_callSteps (hwf call hcall) s hs
      measurement := fun hm => absurd hm (by rw [hgate]; simp)
      gates := fun _ s hs => by
        obtain ⟨call, -, hs⟩ := List.mem_flatMap.mp hs
        exact measured?_callSteps call s hs }
  · simp only [ofOperation, hkind] at hop
    cases hop
    rw [Assembly.stepsOf_measure hkind] at hself
    refine ⟨List.forall_mem_map.mpr fun q _ => trivial, ?_⟩
    rwa [flatMap_measure]
  · simp only [ofOperation, hkind] at hop
    cases hop
    rw [Assembly.stepsOf_measureAll hkind] at hself
    refine ⟨List.forall_mem_map.mpr fun q _ => trivial, ?_⟩
    rwa [flatMap_measure]

end Operations

/-! ## 3. Programs -/

section Programs

variable [Magnitude R] {c : Circuit R} (hc : c.Recorded)

include hc

theorem ofCircuit_settled :
    Settled (c.operations.findSome? (·.refusal? .qsharp)) (ofCircuit c) :=
  (mapM_settled fun op hop => ofOperation_settled ((Circuit.recorded_iff.mp hc).2 op hop)).map _

variable {p : FunctorProgram R} (h : ofCircuit c = .ok p)

include h

omit [Zero R] [One R] [Add R] [Neg R] [Mul R] in
/-- The statements of a translated program fall into parts, each made of one operation. -/
theorem exists_parts : p.numQubits = c.numQubits ∧ ∃ parts, p.statements = parts.flatten ∧
    List.Forall₂ (fun op part => op.WellFormed c.numQubits ∧
      ofOperation c.numQubits op = .ok part) c.operations parts := by
  obtain ⟨parts, hparts, hp⟩ := bind_eq_ok.mp h
  rw [← Except.ok.inj hp]
  exact ⟨rfl, parts, rfl, (List.forall₂_and_left _ _).mpr
    ⟨(Circuit.recorded_iff.mp hc).2, mapM_eq_ok_iff.mp hparts⟩⟩

theorem lower_ofCircuit :
    p.lower = .ok ⟨c.numQubits, p.statements.flatMap statementSteps⟩ := by
  obtain ⟨hn, parts, hstatements, hparts⟩ := exists_parts hc h
  have hwf : ∀ part ∈ parts, ∀ s ∈ part, s.WellFormed c.numQubits :=
    forall_mem_of_forall₂ (fun _ _ h => (ofOperation_covers h.1 h.2).1) hparts
  have hwf : ∀ s ∈ p.statements, s.WellFormed c.numQubits := by
    rw [hstatements]
    intro s hs
    obtain ⟨part, hpart, hs⟩ := List.mem_flatten.mp hs
    exact hwf part hpart s hs
  rw [lower, hn]
  exact LoweredCircuit.foldlM_adds (fun s hs => lowerStatement_eq_ok (hwf s hs)) []

/-- **The lowered program of a recorded circuit covers it.** -/
theorem lower_covers : ∃ low, p.lower = .ok low ∧ low.Covers c := by
  obtain ⟨-, parts, hstatements, hparts⟩ := exists_parts hc h
  refine ⟨_, lower_ofCircuit hc h, rfl, c.operations, parts.map (·.flatMap statementSteps),
    .refl _, ?_, ?_⟩
  · rw [List.forall₂_map_right_iff]
    exact hparts.imp fun _ _ h => (ofOperation_covers h.1 h.2).2
  · change p.statements.flatMap statementSteps = _
    rw [hstatements, ← List.flatMap_id, List.flatMap_assoc, List.flatMap_def]
    rfl

end Programs

end FunctorProgram

end CircuitBroker
