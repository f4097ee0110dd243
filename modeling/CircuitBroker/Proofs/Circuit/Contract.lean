/-
  CircuitBroker/Proofs/Circuit/Contract.lean
  ==========================================
  **A circuit holds nothing but operations that meet the contract of their gate.**

  `Operation.MeetsContract` spells out what a gate's signature asks of an operation; the
  checks of `validate` come to the same (`validate_eq_ok_iff_meetsContract`).  An operation that
  is offered to a circuit is either written at the end of its log or leaves it alone, so a log
  is what the accepted operations make of it, in their order (`foldl_offer`).  Reading a
  document offers its operations in turn and stops at the first that is refused
  (`ofJson_eq_ok_iff`, `ofJson_eq_refused_iff`): documents are no way round the contract.
-/
import CircuitBroker.Circuit.Document
import CircuitBroker.Proofs.Circuit.Recorded

namespace CircuitBroker

variable {R : Type}

/-! ## 1. The contract of a gate -/

/-- Groups of qubits as a layout has them: so many single qubits, or some controls, one target
    and, where the layout has room for them, ancillas. -/
def QubitLayout.Describes : QubitLayout → List (List Nat) → Prop
  | .fixed count, groups => groups.length = count ∧ ∀ g ∈ groups, g.length = 1
  | .controlled ancillas, groups => ∃ controls target rest,
      groups = controls :: [target] :: rest ∧ controls ≠ [] ∧
        rest.length ≤ if ancillas then 1 else 0

/-- A parameter of a kind, in an operation with so many controls. -/
def ParamKind.Describes [Magnitude R] (controls : Nat) : ParamKind → Param R → Prop
  | .angle, p => ∃ a, p = .angle a ∧ Magnitude.isFinite a = true
  | .count, p => p = .count controls
  | .flag, p => ∃ b, p = .flag b
  | .mode, p => ∃ m, p = .mode m

theorem QubitLayout.describes_iff (layout : QubitLayout) (groups : List (List Nat)) :
    layout.Describes groups ↔ Operation.layoutAllows layout (groups.map List.length) = true := by
  cases layout with
  | fixed count => simp [Describes, Operation.layoutAllows]
  | controlled ancillas =>
    have hsizes : ∀ rest : List (List Nat), rest.length ≤ (if ancillas then 1 else 0) ↔
        rest.length + 1 + 1 ≤ if ancillas then 3 else 2 := by
      intro rest
      split <;> omega
    -- the check looks at the sizes of the first two groups and at how many there are
    rcases groups with _ | ⟨controls, _ | ⟨second, rest⟩⟩
    · simp [Describes, Operation.layoutAllows]
    · simp [Describes, Operation.layoutAllows]
    · constructor
      · rintro ⟨controls', target, rest', hgroups, hcontrols, hrest⟩
        cases hgroups
        simpa [Operation.layoutAllows, hcontrols] using (hsizes rest).mp hrest
      · intro h
        simp only [Operation.layoutAllows, List.map_cons, List.length_cons, List.length_map,
          Bool.and_eq_true, List.headD_cons, List.getElem?_cons_succ, List.getElem?_cons_zero,
          Option.getD_some, bne_iff_ne, beq_iff_eq, decide_eq_true_eq, ne_eq,
          List.length_eq_zero_iff] at h
        obtain ⟨⟨⟨-, hrest⟩, hcontrols⟩, hsecond⟩ := h
        obtain ⟨target, rfl⟩ := List.length_eq_one_iff.mp hsecond
        exact ⟨controls, target, rest, rfl, hcontrols, (hsizes rest).mpr hrest⟩

theorem ParamKind.describes_iff [Magnitude R] {controls : Nat} (kind : ParamKind) (p : Param R) :
    kind.Describes controls p ↔ p.kind = kind ∧ p.Fits controls := by
  cases kind <;> cases p <;> simp [Describes, Param.kind, Param.Fits]

namespace Operation

variable [Magnitude R]

/-- What a circuit of so many qubits asks of an operation. -/
structure MeetsContract (op : Operation R) (numQubits : Nat) : Prop where
  lt : ∀ q ∈ op.qubits, q < numQubits
  nodup : op.qubits.Nodup
  groups : op.gate.signature.qubits.Describes op.groups
  params : List.Forall₂ (ParamKind.Describes op.controls.length) op.gate.signature.params op.params

theorem describes_params_iff (controls : Nat) (kinds : List ParamKind) : ∀ params : List (Param R),
    List.Forall₂ (ParamKind.Describes controls) kinds params ↔
      params.map Param.kind = kinds ∧ ∀ p ∈ params, p.Fits controls := by
  induction kinds with
  | nil => intro params; simp +contextual [List.forall₂_nil_left_iff]
  | cons kind kinds ih =>
    intro params
    cases params with
    | nil => simp
    | cons p params =>
      rw [List.forall₂_cons, ih, ParamKind.describes_iff, List.map_cons, List.cons_eq_cons,
        List.forall_mem_cons]
      tauto

theorem meetsContract_iff (op : Operation R) (n : Nat) : op.MeetsContract n ↔ op.WellFormed n := by
  have hgroups := op.gate.signature.qubits.describes_iff op.groups
  have hparams := describes_params_iff op.controls.length op.gate.signature.params op.params
  constructor
  · intro h
    obtain ⟨hkinds, hfits⟩ := hparams.mp h.params
    exact ⟨h.lt, h.nodup, hgroups.mp h.groups, hkinds, hfits⟩
  · intro h
    exact ⟨h.lt, h.nodup, hgroups.mpr h.layout, hparams.mpr ⟨h.kinds, h.fits⟩⟩

/-- **Validation accepts exactly the operations that meet the contract of their gate.** -/
theorem validate_eq_ok_iff_meetsContract (op : Operation R) (n : Nat) :
    op.validate n = .ok () ↔ op.MeetsContract n :=
  (validate_eq_ok_iff op n).trans (meetsContract_iff op n).symm

def accepted (numQubits : Nat) (op : Operation R) : Bool :=
  match op.validate numQubits with
  | .ok () => true
  | .error _ => false

theorem accepted_iff {op : Operation R} {n : Nat} :
    op.accepted n = true ↔ op.MeetsContract n := by
  rw [← validate_eq_ok_iff_meetsContract, accepted]
  split <;> simp_all

end Operation

/-! ## 2. Offering operations -/

namespace Circuit

variable [Magnitude R]

/-- The circuit that is there after an operation has been pushed, accepted or not. -/
def offer (c : Circuit R) (op : Operation R) : Circuit R := ((record op).run.run c).2

/-- A refused operation leaves the circuit exactly as it was. -/
theorem offer_of_error {c : Circuit R} {op : Operation R} {fault : CircuitFault R}
    (h : c.push op = .error fault) : c.offer op = c := by
  rw [push_eq] at h
  rw [offer, run_record]
  cases hvalid : op.validate c.numQubits with
  | ok u => rw [hvalid] at h; cases h
  | error fault' => rfl

theorem offer_eq (c : Circuit R) (op : Operation R) :
    c.offer op =
      { c with operations := c.operations ++ if op.accepted c.numQubits then [op] else [] } := by
  rw [offer, run_record, Operation.accepted]
  cases op.validate c.numQubits <;> simp

/-- **A log grows by the accepted operations, in their order.** -/
theorem foldl_offer (ops : List (Operation R)) : ∀ c : Circuit R,
    ops.foldl offer c =
      { c with operations := c.operations ++ ops.filter (Operation.accepted c.numQubits) } := by
  induction ops with
  | nil => intro c; simp
  | cons op ops ih =>
    intro c
    rw [List.foldl_cons, ih, offer_eq, List.filter_cons]
    split <;> simp

/-- The fault of the first operation that a circuit of so many qubits refuses, with all before
    it accepted. -/
def FirstRefused (numQubits : Nat) (ops : List (Operation R)) (fault : CircuitFault R) : Prop :=
  ∃ before op after, ops = before ++ op :: after ∧ (∀ o ∈ before, o.MeetsContract numQubits) ∧
    op.validate numQubits = .error fault

theorem pushAll_eq_ok_iff {ops : List (Operation R)} : ∀ {c c' : Circuit R},
    c.pushAll ops = .ok c' ↔ (∀ op ∈ ops, op.MeetsContract c.numQubits) ∧
      c' = { c with operations := c.operations ++ ops } := by
  induction ops with
  | nil =>
    intro c c'
    rw [pushAll, List.foldlM_nil, List.append_nil]
    simp [pure, Except.pure, eq_comm (a := c)]
  | cons op ops ih =>
    intro c c'
    rw [pushAll, List.foldlM_cons, bind_eq_ok, List.forall_mem_cons]
    constructor
    · rintro ⟨c₁, hpush, hrest⟩
      obtain ⟨hop, rfl⟩ := push_eq_ok_iff.mp hpush
      obtain ⟨hops, rfl⟩ := ih.mp hrest
      exact ⟨⟨(Operation.meetsContract_iff _ _).mpr hop, hops⟩, by simp⟩
    · rintro ⟨⟨hop, hops⟩, rfl⟩
      exact ⟨_, push_eq_ok_iff.mpr ⟨(Operation.meetsContract_iff _ _).mp hop, rfl⟩,
        ih.mpr ⟨hops, by simp⟩⟩

theorem firstRefused_cons_iff {op : Operation R} {ops : List (Operation R)} {n : Nat}
    {fault : CircuitFault R} : FirstRefused n (op :: ops) fault ↔
      op.validate n = .error fault ∨ op.MeetsContract n ∧ FirstRefused n ops fault := by
  constructor
  · rintro ⟨before, op', after, hops, hbefore, hop'⟩
    cases before with
    | nil =>
      cases hops
      exact .inl hop'
    | cons first before =>
      cases hops
      obtain ⟨hfirst, hrest⟩ := List.forall_mem_cons.mp hbefore
      exact .inr ⟨hfirst, before, op', after, rfl, hrest, hop'⟩
  · rintro (hop | ⟨hop, before, op', after, rfl, hbefore, hop'⟩)
    · exact ⟨[], op, ops, rfl, by simp, hop⟩
    · exact ⟨op :: before, op', after, rfl, List.forall_mem_cons.mpr ⟨hop, hbefore⟩, hop'⟩

theorem pushAll_eq_error_iff {ops : List (Operation R)} {fault : CircuitFault R} :
    ∀ {c : Circuit R}, c.pushAll ops = .error fault ↔ FirstRefused c.numQubits ops fault := by
  induction ops with
  | nil => intro c; simp [pushAll, FirstRefused, pure, Except.pure]
  | cons op ops ih =>
    intro c
    rw [pushAll, List.foldlM_cons, firstRefused_cons_iff,
      ← Operation.validate_eq_ok_iff_meetsContract]
    cases hvalid : op.validate c.numQubits with
    | error fault' => simp [push_eq, hvalid, Except.map, bind, Except.bind]
    | ok _ =>
      have hrest := ih (c := { c with operations := c.operations ++ [op] })
      simpa [push_eq, hvalid, Except.map, bind, Except.bind, pushAll] using hrest

/-! ## 3. Documents -/

/-- The number of qubits and the operations that a document of a circuit names. -/
def parts? (j : Json) : Option (Nat × List (Operation Float)) := do
  match ← j.record? [["num_qubits"], ["operations"]] with
  | [some numQubits, operations] =>
    let numQubits ← numQubits.toNatBelow? qubitBound
    let operations ← match operations with
      | some j => j.listOf? Operation.ofJson?
      | none => some []
    some (numQubits, operations)
  | _ => none

theorem ofJson_eq (j : Json) : ofJson j =
    match parts? j with
    | none => .error .malformed
    | some (n, ops) =>
      match (Circuit.new n).bind (·.pushAll ops) with
      | .ok c => .ok c
      | .error fault => .error (.refused fault) := rfl

theorem new_pushAll_eq_ok_iff {n : Nat} {ops : List (Operation R)} {c : Circuit R} :
    (Circuit.new n).bind (·.pushAll ops) = .ok c ↔
      0 < n ∧ (∀ op ∈ ops, op.MeetsContract n) ∧ c = ⟨n, ops⟩ := by
  rw [Circuit.new]
  split
  · next h => simp [Except.bind, h]
  · next h => simp [Except.bind, pushAll_eq_ok_iff, Nat.pos_of_ne_zero h]

theorem new_pushAll_eq_error_iff {n : Nat} {ops : List (Operation R)} {fault : CircuitFault R} :
    (Circuit.new n).bind (·.pushAll ops) = .error fault ↔
      (n = 0 ∧ fault = .noQubits) ∨ (0 < n ∧ FirstRefused n ops fault) := by
  rw [Circuit.new]
  split
  · next h => simp [Except.bind, h, eq_comm]
  · next h => simp [Except.bind, pushAll_eq_error_iff, Nat.pos_of_ne_zero h, h]

theorem ofJson_eq_malformed_iff {j : Json} : ofJson j = .error .malformed ↔ parts? j = none := by
  rw [ofJson_eq]
  split
  · simp_all
  · split <;> simp_all

variable {j : Json} {n : Nat} {ops : List (Operation Float)} (hparts : parts? j = some (n, ops))

include hparts

theorem ofJson_eq_ok_iff {c : Circuit Float} : ofJson j = .ok c ↔
    0 < n ∧ (∀ op ∈ ops, op.MeetsContract n) ∧ c = ⟨n, ops⟩ := by
  rw [← new_pushAll_eq_ok_iff, ofJson_eq, hparts]
  dsimp only
  split <;> simp_all

theorem ofJson_eq_refused_iff {fault : CircuitFault Float} : ofJson j = .error (.refused fault) ↔
    (n = 0 ∧ fault = .noQubits) ∨ (0 < n ∧ FirstRefused n ops fault) := by
  rw [← new_pushAll_eq_error_iff, ofJson_eq, hparts]
  dsimp only
  split <;> simp_all

omit hparts

/-! ## 4. Every circuit there is -/

/-- The circuits there can be: new ones, those to which operations have been offered, and those
    read from a document or from its text. -/
inductive Obtained : Circuit Float → Prop
  | new {n : Nat} {c : Circuit Float} (h : Circuit.new n = .ok c) : Obtained c
  | offer {c : Circuit Float} (hc : Obtained c) (op : Operation Float) : Obtained (c.offer op)
  | read {j : Json} {c : Circuit Float} (h : ofJson j = .ok c) : Obtained c
  | readText {text : String} {c : Circuit Float} (h : ofText text = .ok c) : Obtained c

theorem contract_of_ofJson {c : Circuit Float} (h : ofJson j = .ok c) :
    0 < c.numQubits ∧ ∀ op ∈ c.operations, op.MeetsContract c.numQubits := by
  cases hparts : parts? j with
  | none => rw [ofJson_eq_malformed_iff.mpr hparts] at h; cases h
  | some parts =>
    obtain ⟨hpos, hops, rfl⟩ := (ofJson_eq_ok_iff hparts).mp h
    exact ⟨hpos, hops⟩

theorem exists_ofJson_of_ofText {text : String} {c : Circuit Float} (h : ofText text = .ok c) :
    ∃ j, ofJson j = .ok c := by
  rw [ofText] at h
  split at h
  · cases h
  · obtain ⟨c', hread, hrest⟩ := bind_eq_ok.mp h
    split at hrest
    · cases hrest
      exact ⟨_, hread⟩
    · cases hrest

/-- **Whatever has been done to a circuit, its operations meet their contracts.** -/
theorem Obtained.contract {c : Circuit Float} (hc : c.Obtained) :
    0 < c.numQubits ∧ ∀ op ∈ c.operations, op.MeetsContract c.numQubits := by
  induction hc with
  | @new n c h =>
    rw [Circuit.new] at h
    split at h
    · cases h
    · next hpos =>
      cases h
      exact ⟨Nat.pos_of_ne_zero hpos, by simp⟩
  | @offer c _ op ih =>
    rw [offer_eq]
    refine ⟨ih.1, List.forall_mem_append.mpr ⟨ih.2, fun o ho => ?_⟩⟩
    split at ho
    · next haccepted =>
      rw [List.mem_singleton.mp ho]
      exact Operation.accepted_iff.mp haccepted
    · cases ho
  | read h => exact contract_of_ofJson h
  | readText h => exact contract_of_ofJson (exists_ofJson_of_ofText h).choose_spec

/-- Validation decides the contract; circuits keep it, whether they are built or read; refused
    operations leave no trace; and a document is read exactly if its operations could be pushed
    in turn, with the fault of the first that could not be. -/
theorem contract_kept :
    (∀ (op : Operation Float) (n : Nat), op.validate n = .ok () ↔ op.MeetsContract n) ∧
    (∀ c : Circuit Float, c.Obtained →
      0 < c.numQubits ∧ ∀ op ∈ c.operations, op.MeetsContract c.numQubits) ∧
    (∀ (c : Circuit Float) (op : Operation Float),
      (∃ fault, c.push op = .error fault) → c.offer op = c) ∧
    (∀ (c : Circuit Float) (ops : List (Operation Float)), ops.foldl offer c =
      { c with operations := c.operations ++ ops.filter (Operation.accepted c.numQubits) }) ∧
    ∀ (j : Json) (n : Nat) (ops : List (Operation Float)), parts? j = some (n, ops) →
      (∀ c, ofJson j = .ok c ↔ (Circuit.new n).bind (·.pushAll ops) = .ok c) ∧
      (∀ c, ofJson j = .ok c ↔ 0 < n ∧ (∀ op ∈ ops, op.MeetsContract n) ∧ c = ⟨n, ops⟩) ∧
      ((∃ c, ofJson j = .ok c) ∨ ∃ fault, ofJson j = .error (.refused fault) ∧
        (n = 0 ∧ fault = .noQubits ∨ 0 < n ∧ FirstRefused n ops fault)) := by
  refine ⟨Operation.validate_eq_ok_iff_meetsContract, fun c hc => hc.contract,
    fun c op ⟨_, h⟩ => offer_of_error h, fun c ops => foldl_offer ops c, ?_⟩
  intro j n ops hparts
  refine ⟨fun c => by rw [ofJson_eq_ok_iff hparts, new_pushAll_eq_ok_iff],
    fun c => ofJson_eq_ok_iff hparts, ?_⟩
  cases hread : ofJson j with
  | ok c => exact .inl ⟨c, rfl⟩
  | error e =>
    cases e with
    | malformed => rw [ofJson_eq_malformed_iff, hparts] at hread; cases hread
    | refused fault => exact .inr ⟨fault, rfl, (ofJson_eq_refused_iff hparts).mp hread⟩

def twiceNamed : Json :=
  .object [("num_qubits", .ofNat 2), ("operations", .array
    [.object [("kind", .string "x_gate"), ("qubit_groups", .array [.array [.ofNat 1]])],
     .object [("kind", .string "cx_gate"),
      ("qubit_groups", .array [.array [.ofNat 1], .array [.ofNat 1]])]])]

theorem contract_kept_twiceNamed :
    let flip : Operation Float := ⟨.x, [[1]], []⟩
    let double : Operation Float := ⟨.cx, [[1], [1]], []⟩
    flip.MeetsContract 2 ∧ Circuit.offer ⟨2, [flip]⟩ double = ⟨2, [flip]⟩ ∧
      FirstRefused 2 [flip, double] (.duplicateQubit 1 .cx) ∧
      ofJson twiceNamed = .error (.refused (.duplicateQubit 1 .cx)) := by
  intro flip double
  have hkept := contract_kept
  have hobtained : Obtained ⟨2, [flip]⟩ := (Obtained.new (n := 2) rfl).offer flip
  have hread : ofJson twiceNamed = .error (.refused (.duplicateQubit 1 .cx)) := rfl
  refine ⟨(hkept.2.1 _ hobtained).2 flip (by simp), hkept.2.2.1 _ double ⟨_, rfl⟩, ?_, hread⟩
  -- that the document is refused tells what is wrong with its operations
  obtain ⟨c, hok⟩ | ⟨fault, hrefused, h⟩ := (hkept.2.2.2.2 twiceNamed 2 [flip, double] rfl).2.2
  · cases hread.symm.trans hok
  · cases hread.symm.trans hrefused
    simpa using h

end Circuit

end CircuitBroker
