/-
  CircuitBroker/Proofs/Circuit/Recorded.lean
  ==========================================
  **What a recorded circuit looks like.**

  `Circuit.Recorded` holds of the circuits that can be made: new ones, and those made from
  them by pushing.  Its content is that every operation in the log is well formed
  (`recorded_iff`); the rest of the module takes a well-formed operation apart, so that a
  translator's proof can start from named qubits and angles.
-/
import CircuitBroker.Circuit
import CircuitBroker.Proofs.Traversal

namespace CircuitBroker

variable {R : Type}

/-! ## 1. Well-formed operations -/

/-- What is asked of one parameter, by its kind: an angle is finite, a count is the number
    of controls. -/
def Param.Fits [Magnitude R] (controls : Nat) : Param R → Prop
  | .angle a => Magnitude.isFinite a = true
  | .count n => n = controls
  | _ => True

theorem Gate.measurement_cases (g : Gate) :
    g.isMeasurement = false ∨ g = .measure ∨ g = .measureAll := by
  cases g <;> decide

namespace Operation

variable [Magnitude R]

/-- An operation that has the shape its gate asks for, on distinct qubits of a circuit. -/
structure WellFormed (op : Operation R) (numQubits : Nat) : Prop where
  lt : ∀ q ∈ op.qubits, q < numQubits
  nodup : op.qubits.Nodup
  layout : layoutAllows op.gate.signature.qubits (op.groups.map List.length) = true
  kinds : op.params.map Param.kind = op.gate.signature.params
  fits : ∀ p ∈ op.params, p.Fits op.controls.length

omit [Magnitude R] in
theorem checkQubits_eq_ok_iff {gate : Gate} {numQubits : Nat} (qubits : List Nat) :
    ∀ seen : List Nat, (checkQubits gate numQubits seen qubits : Except (CircuitFault R) Unit) =
        .ok () ↔
      (∀ q ∈ qubits, q < numQubits) ∧ qubits.Nodup ∧ ∀ q ∈ qubits, q ∉ seen := by
  induction qubits with
  | nil => intro seen; simp [checkQubits]
  | cons q qs ih =>
    intro seen
    rw [checkQubits]
    by_cases hlt : q < numQubits
    · rw [if_neg (Nat.not_le.mpr hlt)]
      by_cases hseen : seen.contains q
      · rw [if_pos hseen]
        have : q ∈ seen := by simpa using hseen
        simp [this]
      · have hnew : q ∉ seen := by simpa using hseen
        rw [if_neg hseen, ih]
        constructor
        · rintro ⟨hall, hnodup, hrest⟩
          have hq : q ∉ qs := fun hmem => hrest q hmem List.mem_cons_self
          refine ⟨List.forall_mem_cons.mpr ⟨hlt, hall⟩, List.nodup_cons.mpr ⟨hq, hnodup⟩,
            List.forall_mem_cons.mpr ⟨hnew, fun p hp hs => ?_⟩⟩
          exact hrest p hp (List.mem_cons_of_mem q hs)
        · rintro ⟨hall, hnodup, hrest⟩
          obtain ⟨hq, hqs⟩ := List.nodup_cons.mp hnodup
          refine ⟨fun p hp => hall p (List.mem_cons_of_mem q hp), hqs, fun p hp hs => ?_⟩
          rcases List.mem_cons.mp hs with rfl | hs
          · exact hq hp
          · exact hrest p (List.mem_cons_of_mem q hp) hs
    · rw [if_pos (Nat.le_of_not_lt hlt)]
      constructor
      · intro h; cases h
      · intro h; exact absurd (h.1 q List.mem_cons_self) hlt

theorem checkParams_eq_ok_iff {gate : Gate} {controls : Nat} :
    ∀ (kinds : List ParamKind) (params : List (Param R)) (position : Nat),
      params.length = kinds.length →
      (checkParams gate controls position kinds params = .ok () ↔
        params.map Param.kind = kinds ∧ ∀ p ∈ params, p.Fits controls) := by
  intro kinds
  induction kinds with
  | nil =>
    intro params position hlen
    rw [List.length_eq_zero_iff.mp hlen]
    simp [checkParams]
  | cons kind kinds ih =>
    intro params position hlen
    obtain ⟨param, params, rfl⟩ := List.exists_cons_of_length_eq_add_one hlen
    have hrest := ih params (position + 1) (by simpa using hlen)
    rw [List.map_cons, List.cons_eq_cons, List.forall_mem_cons]
    cases param with
    | angle a =>
      by_cases hkind : ParamKind.angle = kind
      · by_cases ha : Magnitude.isFinite a
        · simp [checkParams, Param.kind, Param.Fits, hkind, ha, hrest]
        · simp [checkParams, Param.kind, Param.Fits, hkind, ha]
      · simp [checkParams, Param.kind, hkind]
    | count n =>
      by_cases hkind : ParamKind.count = kind
      · by_cases hn : n = controls
        · simp [checkParams, Param.kind, Param.Fits, hkind, hn, hrest]
        · simp [checkParams, Param.kind, Param.Fits, hkind, hn]
      · simp [checkParams, Param.kind, hkind]
    | flag b =>
      by_cases hkind : ParamKind.flag = kind
      · simp [checkParams, Param.kind, Param.Fits, hkind, hrest]
      · simp [checkParams, Param.kind, hkind]
    | mode m =>
      by_cases hkind : ParamKind.mode = kind
      · simp [checkParams, Param.kind, Param.Fits, hkind, hrest]
      · simp [checkParams, Param.kind, hkind]

/-- **Validation accepts exactly the well-formed operations.** -/
theorem validate_eq_ok_iff (op : Operation R) (numQubits : Nat) :
    op.validate numQubits = .ok () ↔ op.WellFormed numQubits := by
  have hqubits : (checkQubits op.gate numQubits [] op.qubits : Except (CircuitFault R) Unit) =
      .ok () ↔ (∀ q ∈ op.qubits, q < numQubits) ∧ op.qubits.Nodup ∧ ∀ q ∈ op.qubits, q ∉ [] :=
    checkQubits_eq_ok_iff op.qubits []
  rw [validate, bind_eq_ok]
  constructor
  · rintro ⟨⟨⟩, hq, hrest⟩
    obtain ⟨hlt, hnodup, -⟩ := hqubits.mp hq
    by_cases hlayout : layoutAllows op.gate.signature.qubits (op.groups.map List.length) = true
    · by_cases hlen : op.params.length = op.gate.signature.params.length
      · have hparams : checkParams op.gate op.controls.length 0 op.gate.signature.params
            op.params = .ok () := by
          simpa [hlayout, hlen] using hrest
        obtain ⟨hkinds, hfits⟩ := (checkParams_eq_ok_iff _ _ 0 hlen).mp hparams
        exact ⟨hlt, hnodup, hlayout, hkinds, hfits⟩
      · simp [hlayout, hlen, bind, Except.bind, throw, throwThe, MonadExceptOf.throw] at hrest
    · simp [hlayout, bind, Except.bind, throw, throwThe, MonadExceptOf.throw] at hrest
  · intro h
    refine ⟨(), hqubits.mpr ⟨h.lt, h.nodup, by simp⟩, ?_⟩
    have hlen : op.params.length = op.gate.signature.params.length := by
      rw [← h.kinds, List.length_map]
    have hparams : checkParams op.gate op.controls.length 0 op.gate.signature.params op.params =
        .ok () := (checkParams_eq_ok_iff _ _ 0 hlen).mpr ⟨h.kinds, h.fits⟩
    simpa [h.layout, hlen] using hparams

/-! ## 2. Qubits and angles of a well-formed operation -/

variable {op : Operation R} {n : Nat}

/-- A gate on a fixed number of qubits has each of them in a group of its own. -/
theorem WellFormed.fixed {count : Nat} (h : op.WellFormed n)
    (hlayout : op.gate.signature.qubits = .fixed count) :
    op.groups = op.qubits.map ([·]) ∧ op.qubits.length = count := by
  have hsizes := h.layout
  rw [hlayout, layoutAllows, Bool.and_eq_true, List.all_map, beq_iff_eq, List.length_map,
    List.all_eq_true] at hsizes
  obtain ⟨hlen, hone⟩ := hsizes
  have hsingles : ∀ groups : List (List Nat), (∀ g ∈ groups, g.length = 1) →
      groups = groups.flatten.map ([·]) := by
    intro groups hgroups
    induction groups with
    | nil => rfl
    | cons g gs ih =>
      obtain ⟨q, rfl⟩ := List.length_eq_one_iff.mp (hgroups g List.mem_cons_self)
      rw [List.flatten_cons, List.map_append,
        ← ih fun g' hg' => hgroups g' (List.mem_cons_of_mem _ hg')]
      rfl
  have heq : op.groups = op.qubits.map ([·]) :=
    hsingles op.groups fun g hg => by simpa using hone g hg
  exact ⟨heq, by rw [← hlen]; conv_rhs => rw [heq, List.length_map]⟩

/-- A multi-controlled gate has controls, one target and perhaps ancillas. -/
theorem WellFormed.controlled {ancillas : Bool} (h : op.WellFormed n)
    (hlayout : op.gate.signature.qubits = .controlled ancillas) :
    ∃ target rest, op.groups = op.controls :: [target] :: rest ∧ op.controls ≠ [] ∧
      op.target? = some target := by
  have hsizes := h.layout
  rw [hlayout] at hsizes
  rcases hgroups : op.groups with _ | ⟨controls, _ | ⟨second, rest⟩⟩
  · simp [hgroups, layoutAllows] at hsizes
  · simp [hgroups, layoutAllows] at hsizes
  · simp only [hgroups, layoutAllows, List.map_cons, Bool.and_eq_true, List.headD_cons,
      List.getElem?_cons_succ, List.getElem?_cons_zero, Option.getD_some, bne_iff_ne,
      beq_iff_eq, ne_eq, List.length_eq_zero_iff] at hsizes
    obtain ⟨⟨-, hcontrols⟩, hsecond⟩ := hsizes
    obtain ⟨target, rfl⟩ := List.length_eq_one_iff.mp hsecond
    have hself : op.controls = controls := by rw [Operation.controls, hgroups]; rfl
    exact ⟨target, rest, by rw [hself], by rw [hself]; exact hcontrols,
      by rw [target?, hgroups]; rfl⟩

/-- The qubits an operation acts on.  Ancillas are left as they were found. -/
def operands (op : Operation R) : List Nat :=
  match op.gate.signature.qubits with
  | .fixed _ => op.qubits
  | .controlled _ => op.controls ++ op.target?.toList

omit [Magnitude R] in
theorem operands_of_fixed {k : Nat} (hlayout : op.gate.signature.qubits = .fixed k) :
    op.operands = op.qubits := by
  rw [operands, hlayout]

omit [Magnitude R] in
theorem operands_of_controlled {ancillas : Bool}
    (hlayout : op.gate.signature.qubits = .controlled ancillas) :
    op.operands = op.controls ++ op.target?.toList := by
  rw [operands, hlayout]

theorem WellFormed.operands_sublist (h : op.WellFormed n) : op.operands.Sublist op.qubits := by
  cases hlayout : op.gate.signature.qubits with
  | fixed count => rw [operands_of_fixed hlayout]
  | controlled ancillas =>
    obtain ⟨target, rest, hgroups, -, htarget⟩ := h.controlled hlayout
    have hqubits : op.qubits = (op.controls ++ [target]) ++ rest.flatten := by
      rw [qubits, hgroups, List.flatten_cons, List.flatten_cons, List.append_assoc]
    rw [operands_of_controlled hlayout, htarget, hqubits]
    exact List.sublist_append_left _ _

theorem WellFormed.nodup_operands (h : op.WellFormed n) : op.operands.Nodup :=
  h.nodup.sublist h.operands_sublist

theorem WellFormed.operands_lt (h : op.WellFormed n) : ∀ q ∈ op.operands, q < n :=
  fun q hq => h.lt q (h.operands_sublist.subset hq)

theorem WellFormed.length_angles (h : op.WellFormed n) :
    op.angles.length = op.gate.signature.params.count .angle := by
  rw [← h.kinds, angles]
  induction op.params with
  | nil => rfl
  | cons p ps ih =>
    cases p with
    | angle a => simp [Param.angle?, Param.kind, ih]
    | count k => simp [List.filterMap_cons, Param.angle?, Param.kind, ih]
    | flag b => simp [List.filterMap_cons, Param.angle?, Param.kind, ih]
    | mode m => simp [List.filterMap_cons, Param.angle?, Param.kind, ih]

/-- A short list, spelled out; the places beyond its length hold anything. -/
theorem exists_eq_take {α : Type} (filler : α) {l : List α} {k : Nat} (hlen : l.length = k)
    (hk : k ≤ 5) : ∃ a b c d e, l = [a, b, c, d, e].take k := by
  subst hlen
  refine ⟨l.getD 0 filler, l.getD 1 filler, l.getD 2 filler, l.getD 3 filler, l.getD 4 filler, ?_⟩
  rcases l with _ | ⟨a, _ | ⟨b, _ | ⟨c, _ | ⟨d, _ | ⟨e, _ | ⟨f, l⟩⟩⟩⟩⟩⟩
  case cons.cons.cons.cons.cons.cons => exact absurd hk (by simp only [List.length_cons]; omega)
  all_goals rfl

/-- The angles of a well-formed operation, spelled out: no gate takes more than four. -/
theorem WellFormed.exists_angles [Zero R] (h : op.WellFormed n) : ∃ a b c d e,
    op.angles = [a, b, c, d, e].take (op.gate.signature.params.count .angle) :=
  exists_eq_take 0 h.length_angles (by cases op.gate <;> decide)

end Operation

/-! ## 3. Circuits -/

namespace Circuit

variable [Magnitude R]

/-- The circuits that can be made: new ones, and those that took an operation.  A refused
    operation makes no circuit, so any sequence of pushes stays inside. -/
inductive Recorded : Circuit R → Prop
  | new {n : Nat} {c : Circuit R} (h : Circuit.new n = .ok c) : Recorded c
  | push {c c' : Circuit R} {op : Operation R} (hc : Recorded c) (h : c.push op = .ok c') :
      Recorded c'

/-- Nothing is recorded of an operation that is not valid. -/
theorem run_record (op : Operation R) (c : Circuit R) : (record op).run.run c =
    match op.validate c.numQubits with
    | .ok () => (.ok (), { c with operations := c.operations ++ [op] })
    | .error fault => (.error fault, c) := by
  change (ExceptT.bind (m := StateM (Circuit R))
    (MonadExcept.ofExcept (op.validate c.numQubits)) fun _ =>
      modify fun c => { c with operations := c.operations ++ [op] }).run.run c = _
  cases op.validate c.numQubits <;> rfl

theorem push_eq (c : Circuit R) (op : Operation R) : c.push op =
    (op.validate c.numQubits).map fun () => { c with operations := c.operations ++ [op] } := by
  rw [push, run_record]
  cases op.validate c.numQubits <;> rfl

theorem push_eq_ok_iff {c c' : Circuit R} {op : Operation R} :
    c.push op = .ok c' ↔
      op.WellFormed c.numQubits ∧ c' = { c with operations := c.operations ++ [op] } := by
  rw [push_eq, ← Operation.validate_eq_ok_iff]
  cases h : op.validate c.numQubits with
  | error fault => simp [Except.map]
  | ok u => simp [Except.map, eq_comm]

/-- **A circuit can be made exactly if it has a qubit and every operation in its log is well
    formed.** -/
theorem recorded_iff {c : Circuit R} :
    c.Recorded ↔ 0 < c.numQubits ∧ ∀ op ∈ c.operations, op.WellFormed c.numQubits := by
  constructor
  · intro h
    induction h with
    | @new numQubits c hnew =>
      rw [Circuit.new] at hnew
      split at hnew
      · cases hnew
      · next hpos =>
        cases hnew
        exact ⟨Nat.pos_of_ne_zero hpos, by simp⟩
    | @push c c' op _ hpush ih =>
      obtain ⟨hop, rfl⟩ := push_eq_ok_iff.mp hpush
      refine ⟨ih.1, fun o ho => ?_⟩
      rcases List.mem_append.mp ho with ho | ho
      · exact ih.2 o ho
      · rw [List.mem_singleton.mp ho]
        exact hop
  · rintro ⟨hpos, hall⟩
    obtain ⟨numQubits, operations⟩ := c
    induction operations using List.reverseRecOn with
    | nil => exact .new (n := numQubits) (by simp [Circuit.new, Nat.ne_of_gt hpos])
    | append_singleton ops op ih =>
      have hprev : Recorded (⟨numQubits, ops⟩ : Circuit R) :=
        ih hpos fun o ho => hall o (List.mem_append_left _ ho)
      exact .push hprev (push_eq_ok_iff.mpr
        ⟨hall op (List.mem_append_right _ List.mem_cons_self), rfl⟩)

end Circuit

end CircuitBroker
