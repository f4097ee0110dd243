/-
  CircuitBroker/Proofs/Session/Building.lean
  ==========================================
  **What a construction leaves in the log.**

  A session takes operations up to the first that its circuit refuses, and keeps those before
  it (`appendAll_log`).  So a construction of one operation is all or nothing.  Of the two that
  stand for a pair of operations, the kickback is too: both of its gates act on the one qubit
  and are refused together.  The entangled pair is not.  Its first gate looks at one qubit, its
  second at both, and if only the second is refused the first stays behind (`build_log`).
-/
import CircuitBroker.Proofs.Circuit.Contract
import CircuitBroker.Session.Construction

namespace CircuitBroker

variable {σ : Type}

/-! ## 1. Operations in a row -/

namespace Session

def extended (s : Session σ) (ops : List (Operation Float)) : Session σ :=
  { s with circuit := { s.circuit with operations := s.circuit.operations ++ ops } }

@[simp] theorem extended_nil (s : Session σ) : s.extended [] = s := by
  simp [extended]

theorem extended_append (s : Session σ) (ops ops' : List (Operation Float)) :
    (s.extended ops).extended ops' = s.extended (ops ++ ops') := by
  simp [extended]

@[simp] theorem numQubits_extended (s : Session σ) (ops : List (Operation Float)) :
    (s.extended ops).circuit.numQubits = s.circuit.numQubits := rfl

variable {s : Session σ} {op : Operation Float} {n : Nat}

theorem append_of_accepted (h : op.accepted s.circuit.numQubits = true) :
    s.append op = .ok (s.extended [op]) := by
  have hvalid := (Operation.validate_eq_ok_iff_meetsContract _ _).mpr (Operation.accepted_iff.mp h)
  rw [append, Circuit.push_eq, hvalid]
  rfl

theorem append_of_refused (h : op.accepted s.circuit.numQubits = false) :
    ∃ fault, s.append op = .error fault := by
  rw [Operation.accepted] at h
  cases hvalid : op.validate s.circuit.numQubits with
  | ok u => rw [hvalid] at h; cases h
  | error fault =>
    refine ⟨fault, ?_⟩
    rw [append, Circuit.push_eq, hvalid]
    rfl

/-- **Operations are recorded up to the first that is refused, and the answer is whether there
    was one.** -/
theorem appendAll_log (ops : List (Operation Float)) : ∀ s : Session σ,
    (s.appendAll ops).2 = s.extended (ops.takeWhile (·.accepted s.circuit.numQubits)) ∧
      ((s.appendAll ops).1 = .ok () ↔ ∀ op ∈ ops, op.accepted s.circuit.numQubits = true) := by
  induction ops with
  | nil => intro s; simp [appendAll]
  | cons op ops ih =>
    intro s
    rw [appendAll]
    cases haccepted : op.accepted s.circuit.numQubits with
    | true =>
      obtain ⟨hlog, hanswer⟩ := ih (s.extended [op])
      rw [append_of_accepted haccepted, List.takeWhile_cons_of_pos haccepted,
        List.forall_mem_cons]
      constructor
      · rw [hlog, extended_append]
        rfl
      · rw [hanswer]
        simp [haccepted]
    | false =>
      obtain ⟨fault, hrefused⟩ := append_of_refused haccepted
      rw [hrefused, List.takeWhile_cons_of_neg (by rw [haccepted]; simp), List.forall_mem_cons]
      constructor
      · rw [extended_nil]
      · simp [haccepted]

end Session

/-! ## 2. The gates of the shorthands -/

namespace Construction

variable {n : Nat}

/-- An operation without angles is looked at for nothing but its qubits. -/
theorem accepted_single (g : Gate) (qubits : List Nat)
    (hsignature : g.signature = .fixed qubits.length 0) :
    (single g [] qubits).accepted n = true ↔ (∀ q ∈ qubits, q < n) ∧ qubits.Nodup := by
  have hqubits : (single g [] qubits).qubits = qubits := by
    rw [Operation.qubits, single, ← List.flatMap_def, List.flatMap_singleton']
  rw [Operation.accepted_iff, Operation.meetsContract_iff]
  constructor
  · intro h
    have hlt := h.lt
    have hnodup := h.nodup
    rw [hqubits] at hlt hnodup
    exact ⟨hlt, hnodup⟩
  · rintro ⟨hlt, hnodup⟩
    constructor
    · rwa [hqubits]
    · rwa [hqubits]
    · simp [single, hsignature, Signature.fixed, Operation.layoutAllows]
    · simp [single, hsignature, Signature.fixed]
    · simp [single]

/-- The pair is refused exactly if the first qubit is, or the second is none of its own. -/
theorem accepted_entangle (a b : Nat) :
    (∀ op ∈ (entangle a b).operations, op.accepted n = true) ↔ a < n ∧ b < n ∧ a ≠ b := by
  have hh := accepted_single (n := n) .h [a] rfl
  have hcx := accepted_single (n := n) .cx [a, b] rfl
  rw [operations, List.forall_mem_cons, List.forall_mem_singleton, hh, hcx]
  rw [List.forall_mem_singleton, List.forall_mem_cons, List.forall_mem_singleton]
  constructor
  · rintro ⟨-, ⟨ha, hb⟩, hnodup⟩
    exact ⟨ha, hb, by simpa using hnodup⟩
  · rintro ⟨ha, hb, hne⟩
    exact ⟨⟨ha, List.nodup_singleton a⟩, ⟨ha, hb⟩, by simpa using hne⟩

/-- Every construction but the pair is recorded as a whole or not at all. -/
theorem takeWhile_accepted {c : Construction} (hpair : ∀ a b, c ≠ entangle a b)
    (hrefused : ¬ ∀ op ∈ c.operations, op.accepted n = true) :
    c.operations.takeWhile (·.accepted n) = [] := by
  have hone : ∀ op : Operation Float, (¬ ∀ o ∈ [op], o.accepted n = true) →
      [op].takeWhile (·.accepted n) = [] := by
    intro op hop
    rw [List.takeWhile_cons_of_neg]
    simpa using hop
  cases c with
  | entangle a b => exact absurd rfl (hpair a b)
  | phaseKickback q =>
    -- the second gate is refused only where the first is
    have hx := accepted_single (n := n) .x [q] rfl
    have hh := accepted_single (n := n) .h [q] rfl
    rw [operations, List.takeWhile_cons_of_neg]
    intro hfirst
    refine hrefused ?_
    rw [operations, List.forall_mem_cons, List.forall_mem_singleton, hh, ← hx]
    exact ⟨hfirst, hfirst⟩
  | superposition q => exact hone _ hrefused
  | gate g angles qubits => exact hone _ hrefused
  | mcx controls target ancillas mode => exact hone _ hrefused
  | mct controls target ancillas mode => exact hone _ hrefused
  | mcxgc controls target => exact hone _ hrefused
  | mcxrec controls target => exact hone _ hrefused
  | mcxvchain controls target dirty => exact hone _ hrefused
  | mcp angle controls target => exact hone _ hrefused

/-- A refused pair leaves its first gate behind where that gate has a qubit. -/
theorem takeWhile_accepted_entangle {a b : Nat} (hrefused : ¬ (a < n ∧ b < n ∧ a ≠ b)) :
    (entangle a b).operations.takeWhile (·.accepted n) =
      if a < n then [single .h [] [a]] else [] := by
  have hh := accepted_single (n := n) .h [a] rfl
  have hcx := accepted_single (n := n) .cx [a, b] rfl
  rw [operations]
  by_cases ha : a < n
  · have hfirst : (single .h [] [a]).accepted n = true := hh.mpr (by simpa using ha)
    have hsecond : ¬ (single .cx [] [a, b]).accepted n = true := by
      rw [hcx]
      simpa [ha] using hrefused
    rw [if_pos ha, List.takeWhile_cons_of_pos hfirst, List.takeWhile_cons_of_neg hsecond]
  · have hfirst : ¬ (single .h [] [a]).accepted n = true := by
      rw [hh]
      simpa using ha
    rw [if_neg ha, List.takeWhile_cons_of_neg hfirst]

end Construction

/-! ## 3. Constructions -/

namespace Session

open Construction (single)

/-- **What a construction leaves in the log.**  If it is answered with success, all of its
    operations, in their order.  If it is answered with a fault, nothing, except that the pair
    leaves its first gate where only the second is refused. -/
theorem build_log (s : Session σ) (c : Construction) :
    ((s.build c).1 = .ok () ↔ ∀ op ∈ c.operations, op.MeetsContract s.circuit.numQubits) ∧
    ((s.build c).1 = .ok () → (s.build c).2 = s.extended c.operations) ∧
    (∀ fault, (s.build c).1 = .error fault →
      ((∀ a b, c ≠ .entangle a b) → (s.build c).2 = s) ∧
      ∀ a b, c = .entangle a b → (s.build c).2 =
        if a < s.circuit.numQubits then s.extended [single .h [] [a]] else s) ∧
    ∀ a b, c = .entangle a b →
      ((s.build c).1 = .ok () ↔ a < s.circuit.numQubits ∧ b < s.circuit.numQubits ∧ a ≠ b) := by
  obtain ⟨hlog, hanswer⟩ := appendAll_log c.operations s
  change (s.build c).2 = _ at hlog
  change (s.build c).1 = .ok () ↔ _ at hanswer
  refine ⟨?_, ?_, ?_, ?_⟩
  · rw [hanswer]
    simp only [Operation.accepted_iff]
  · intro hok
    rw [hlog, List.takeWhile_eq_self_iff.mpr (hanswer.mp hok)]
  · intro fault hfault
    have hrefused : ¬ ∀ op ∈ c.operations, op.accepted s.circuit.numQubits = true := by
      rw [← hanswer, hfault]
      simp
    constructor
    · intro hpair
      rw [hlog, Construction.takeWhile_accepted hpair hrefused, extended_nil]
    · rintro a b rfl
      rw [Construction.accepted_entangle] at hrefused
      rw [hlog, Construction.takeWhile_accepted_entangle hrefused]
      split
      · rfl
      · rw [extended_nil]
  · rintro a b rfl
    rw [hanswer, Construction.accepted_entangle]

def flipped : Session Unit :=
  ofCircuit (.full .offline none) ⟨1, 20⟩ ⟨1, [single .x [] [0]]⟩

/-- The kickback on a qubit that is not there, and the pair of a qubit with itself. -/
theorem build_log_flipped :
    (flipped.build (.phaseKickback 1)).1 = .error (.qubitOutOfBounds 1 1 .x) ∧
      (flipped.build (.phaseKickback 1)).2 = flipped ∧
      (flipped.build (.entangle 0 0)).2 = flipped.extended [single .h [] [0]] := by
  have hkickback : (flipped.build (.phaseKickback 1)).1 = .error (.qubitOutOfBounds 1 1 .x) := rfl
  have hpair : (flipped.build (.entangle 0 0)).1 = .error (.duplicateQubit 0 .cx) := rfl
  obtain ⟨-, -, hnothing, -⟩ := build_log flipped (.phaseKickback 1)
  obtain ⟨-, -, hhalf, -⟩ := build_log flipped (.entangle 0 0)
  refine ⟨hkickback, (hnothing _ hkickback).1 (by simp), ?_⟩
  rw [(hhalf _ hpair).2 0 0 rfl]
  rfl

/-- A refused construction that changed the log. -/
theorem pair_half_recorded :
    (flipped.build (.entangle 0 0)).1 = .error (.duplicateQubit 0 .cx) ∧
      flipped.circuit.operations = [single .x [] [0]] ∧
      (flipped.build (.entangle 0 0)).2.circuit.operations =
        [single .x [] [0], single .h [] [0]] := ⟨rfl, rfl, rfl⟩

end Session

end CircuitBroker
