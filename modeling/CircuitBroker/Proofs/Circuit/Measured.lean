/-
  CircuitBroker/Proofs/Circuit/Measured.lean
  ==========================================
  **Which qubits are measured, and in which order they are reported.**

  Measured qubits are reported in ascending order, each once, whatever order they were
  measured in.  So the lists of a circuit and of a lowered form of it are the same as soon as
  they have the same members (`measuredQubits_eq`).
-/
import CircuitBroker.Proofs.Native.Implementation
import Mathlib.Data.List.Sort

namespace CircuitBroker

/-! ## 1. Ascending lists -/

@[simp] theorem mem_ascending {q : Nat} {qubits : List Nat} : q ∈ ascending qubits ↔ q ∈ qubits := by
  rw [ascending, List.mem_eraseDups, List.mem_mergeSort]

/-- Without its repetitions, a list keeps its order and has each entry once. -/
theorem pairwise_eraseDups {α : Type} [BEq α] [LawfulBEq α] {r : α → α → Prop} :
    ∀ (k : Nat) (l : List α), l.length ≤ k → l.Pairwise r →
      l.eraseDups.Pairwise fun a b => r a b ∧ a ≠ b := by
  intro k
  induction k with
  | zero =>
    intro l hlen _
    rw [List.length_eq_zero_iff.mp (Nat.le_zero.mp hlen)]
    exact .nil
  | succ k ih =>
    intro l hlen hordered
    cases l with
    | nil => exact .nil
    | cons a as =>
      obtain ⟨ha, has⟩ := List.pairwise_cons.mp hordered
      rw [List.eraseDups_cons]
      refine List.pairwise_cons.mpr ⟨fun b hb => ?_, ih _ ?_ (has.filter _)⟩
      · obtain ⟨hmem, hne⟩ := List.mem_filter.mp (List.mem_eraseDups.mp hb)
        exact ⟨ha b hmem, fun he => by simp [he] at hne⟩
      · exact (List.length_filter_le _ as).trans (Nat.le_of_succ_le_succ hlen)

theorem nodup_eraseDups {α : Type} [BEq α] [LawfulBEq α] (l : List α) : l.eraseDups.Nodup := by
  have hall : l.Pairwise fun _ _ => True := List.pairwise_of_forall fun _ _ => trivial
  exact (pairwise_eraseDups _ l le_rfl hall).imp And.right

theorem pairwise_ascending (qubits : List Nat) : (ascending qubits).Pairwise (· < ·) := by
  have hsorted : (qubits.mergeSort (· ≤ ·)).Pairwise (· ≤ ·) := List.pairwise_mergeSort' _ _
  exact (pairwise_eraseDups _ _ le_rfl hsorted).imp fun h => lt_of_le_of_ne h.1 h.2

/-! ## 2. Measured qubits of a circuit -/

variable {R : Type}

namespace Circuit

/-- The qubits whose values make up the answer: the measured ones, and all if none is. -/
def reportedQubits (c : Circuit R) : List Nat :=
  if c.hasMeasurements then c.measuredQubits else List.range c.numQubits

private theorem measuredBy_spec {n : Nat} (ops : List (Operation R))
    (hlt : ∀ op ∈ ops, ∀ q ∈ op.touched n, q < n) :
    ∀ found : List Nat, (∀ q ∈ found, q < n) →
      (measuredBy n ops found).Pairwise (· < ·) ∧
        ∀ q, q ∈ measuredBy n ops found ↔
          q ∈ found ∨ ∃ op ∈ ops, op.gate.isMeasurement = true ∧ q ∈ op.touched n := by
  induction ops with
  | nil =>
    intro found _
    exact ⟨pairwise_ascending found, fun q => by simp [measuredBy]⟩
  | cons op ops ih =>
    intro found hfound
    obtain ⟨hop, hops⟩ := List.forall_mem_cons.mp hlt
    rcases op.gate.measurement_cases with hgate | hkind | hkind
    · have hskip : measuredBy n (op :: ops) found = measuredBy n ops found := by
        cases hkind : op.gate <;>
          first
          | (rw [hkind] at hgate; cases hgate; done)
          | simp only [measuredBy, hkind]
      rw [hskip]
      refine ⟨(ih hops found hfound).1, fun q => ?_⟩
      rw [(ih hops found hfound).2 q]
      simp [hgate]
    · have hstep : measuredBy n (op :: ops) found = measuredBy n ops (found ++ op.touched n) := by
        simp only [measuredBy, hkind, Operation.touched_of_measure hkind]
      have hmeasures : op.gate.isMeasurement = true := by rw [hkind]; rfl
      obtain ⟨hsorted, hmem⟩ := ih hops (found ++ op.touched n) fun q hq =>
        (List.mem_append.mp hq).elim (hfound q) (hop q)
      rw [hstep]
      refine ⟨hsorted, fun q => ?_⟩
      rw [hmem q]
      simp [hmeasures, or_assoc]
    · have hstep : measuredBy n (op :: ops) found = List.range n := by
        simp only [measuredBy, hkind]
      rw [hstep]
      refine ⟨List.pairwise_lt_range, fun q => ?_⟩
      rw [List.mem_range]
      constructor
      · intro hq
        refine .inr ⟨op, List.mem_cons_self, by rw [hkind]; rfl, ?_⟩
        rwa [Operation.touched_of_measureAll hkind, List.mem_range]
      · rintro (hq | ⟨op', hop', -, hq⟩)
        · exact hfound q hq
        · exact hlt op' hop' q hq

variable [Magnitude R] {c : Circuit R} {q : Nat}

theorem touched_lt (hc : c.Recorded) : ∀ op ∈ c.operations, ∀ q ∈ op.touched c.numQubits,
    q < c.numQubits := by
  intro op hop q hq
  have hwf := (recorded_iff.mp hc).2 op hop
  rw [Operation.touched] at hq
  split at hq
  · exact List.mem_range.mp hq
  · exact hwf.operands_lt q hq

theorem mem_measuredQubits (hc : c.Recorded) : q ∈ c.measuredQubits ↔
    ∃ op ∈ c.operations, op.gate.isMeasurement = true ∧ q ∈ op.touched c.numQubits := by
  rw [measuredQubits, (measuredBy_spec c.operations (touched_lt hc) [] (by simp)).2 q]
  simp

theorem pairwise_measuredQubits (hc : c.Recorded) : c.measuredQubits.Pairwise (· < ·) :=
  (measuredBy_spec c.operations (touched_lt hc) [] (by simp)).1

theorem measuredQubits_ne_nil (hc : c.Recorded) (h : c.hasMeasurements = true) :
    c.measuredQubits ≠ [] := by
  obtain ⟨op, hop, hmeasures⟩ := List.any_eq_true.mp h
  have hwf := (recorded_iff.mp hc).2 op hop
  obtain ⟨q, hq⟩ : ∃ q, q ∈ op.touched c.numQubits := by
    rcases op.gate.measurement_cases with hgate | hkind | hkind
    · rw [hgate] at hmeasures; cases hmeasures
    · have hlayout : op.gate.signature.qubits = .fixed 1 := by rw [hkind]; rfl
      have hlen := (hwf.fixed hlayout).2
      rw [Operation.touched_of_measure hkind]
      exact List.exists_mem_of_length_pos (by omega)
    · rw [Operation.touched_of_measureAll hkind]
      exact ⟨0, List.mem_range.mpr (recorded_iff.mp hc).1⟩
  exact List.ne_nil_of_mem ((mem_measuredQubits hc).mpr ⟨op, hop, hmeasures, hq⟩)

theorem measuredQubits_lt (hc : c.Recorded) : ∀ q ∈ c.measuredQubits, q < c.numQubits := by
  intro q hq
  obtain ⟨op, hop, -, htouched⟩ := (mem_measuredQubits hc).mp hq
  exact touched_lt hc op hop q htouched

theorem measuredQubits_ne_nil_iff (hc : c.Recorded) :
    c.measuredQubits ≠ [] ↔ c.hasMeasurements = true := by
  refine ⟨fun hsome => ?_, measuredQubits_ne_nil hc⟩
  obtain ⟨q, hq⟩ := List.exists_mem_of_ne_nil _ hsome
  obtain ⟨op, hop, hmeasures, -⟩ := (mem_measuredQubits hc).mp hq
  exact List.any_eq_true.mpr ⟨op, hop, hmeasures⟩

/-- **A lowered circuit that measures what the circuit measures reports it in the same
    order.** -/
theorem measuredQubits_eq (hc : c.Recorded) {K : Type} {low : LoweredCircuit K}
    (h : ∀ q, q ∈ low.steps.filterMap LoweredStep.measured? ↔
      ∃ op ∈ c.operations, op.gate.isMeasurement = true ∧ q ∈ op.touched c.numQubits) :
    low.measuredQubits = c.measuredQubits := by
  refine (pairwise_ascending _).eq_of_mem_iff (pairwise_measuredQubits hc) fun q => ?_
  rw [mem_ascending, h q, mem_measuredQubits hc]

theorem reportedQubits_of_measured (hc : c.Recorded) (h : c.measuredQubits ≠ []) :
    c.reportedQubits = c.measuredQubits := by
  rw [reportedQubits, if_pos ((measuredQubits_ne_nil_iff hc).mp h)]

theorem reportedQubits_of_unmeasured (hc : c.Recorded) (h : c.measuredQubits = []) :
    c.reportedQubits = List.range c.numQubits := by
  rw [reportedQubits, if_neg (mt (measuredQubits_ne_nil_iff hc).mpr (not_not_intro h))]

theorem pairwise_reportedQubits (hc : c.Recorded) : c.reportedQubits.Pairwise (· < ·) := by
  rw [reportedQubits]
  split
  · exact pairwise_measuredQubits hc
  · exact List.pairwise_lt_range

theorem reportedQubits_lt (hc : c.Recorded) : ∀ q ∈ c.reportedQubits, q < c.numQubits := by
  rw [reportedQubits]
  split
  · exact measuredQubits_lt hc
  · exact fun q hq => List.mem_range.mp hq

end Circuit

/-! ## 3. Measured qubits of lowered circuits -/

/-- Parts that cover operations measure the qubits that the measurements among these touch. -/
theorem mem_measured_of_parts {K : Type} {n q : Nat} {ops : List (Operation R)}
    {parts : List (List (LoweredStep K))}
    (hparts : List.Forall₂ (fun op part => op.CoveredBy n part) ops parts) :
    q ∈ parts.flatten.filterMap LoweredStep.measured? ↔
      ∃ op ∈ ops, op.gate.isMeasurement = true ∧ q ∈ op.touched n := by
  induction hparts with
  | nil => simp
  | @cons op part ops parts hpart _ ih =>
    rw [List.flatten_cons, List.filterMap_append, List.mem_append, ih]
    simp only [List.mem_cons, exists_eq_or_imp]
    refine or_congr_left ?_
    cases hgate : op.gate.isMeasurement with
    | false => simp [List.filterMap_eq_nil_iff.mpr (hpart.gates hgate)]
    | true => simp [hpart.measurement hgate, List.filterMap_map, LoweredStep.measured?]

/-- **A lowered circuit that covers a log reports the qubits the log measures.** -/
theorem LoweredCircuit.Covers.measuredQubits_eq [Magnitude R] {K : Type} {low : LoweredCircuit K}
    {c : Circuit R} (h : low.Covers c) (hc : c.Recorded) :
    low.measuredQubits = c.measuredQubits := by
  obtain ⟨-, ops, parts, hperm, hparts, hsteps⟩ := h
  have hmem : ∀ {op}, op ∈ c.operations ↔ op ∈ ops := hperm.mem_iff
  refine Circuit.measuredQubits_eq hc fun q => ?_
  rw [hsteps, mem_measured_of_parts hparts]
  simp only [hmem]

end CircuitBroker
