/-
  CircuitBroker/Proofs/Native/Moments/Packing.lean
  ================================================
  **Where every gate of a moment circuit lies, and in which order.**

  A gate goes into the moment right after the latest one that holds a gate on one of its
  qubits.  So the moments sort the calls by the number of their moment (`Packed`): a call
  whose qubits no earlier call has used comes to the first one, and any other call right
  after the latest of the earlier calls it shares a qubit with.  Read moment after moment,
  calls that share a qubit are in the order in which they were made, and lowering them in
  either order gives the same gates up to exchanges of gates on different qubits.
-/
import CircuitBroker.Proofs.Native.Moments.Translation
import CircuitBroker.Proofs.Statevector.Basis
import CircuitBroker.Proofs.Statevector.Range

namespace CircuitBroker

variable {R : Type}

namespace PlacedGate

def Shares (p q : PlacedGate R) : Prop := ∃ r ∈ p.qubits, r ∈ q.qubits

theorem apart_iff {p q : PlacedGate R} : p.Apart q ↔ ¬ p.Shares q := by
  constructor
  · rintro h ⟨r, hp, hq⟩
    exact h hp hq
  · intro h r hp hq
    exact h ⟨r, hp, hq⟩

end PlacedGate

theorem Moment.touches_iff {m : Moment R} {qubits : List Nat} :
    m.touches qubits = true ↔ ∃ p ∈ m, ∃ r ∈ p.qubits, r ∈ qubits := by
  simp [Moment.touches, List.any_eq_true]

namespace MomentCircuit

/-! ## 1. One call -/

theorem earliest_le_length (qubits : List Nat) (moments : List (Moment R)) :
    earliest qubits moments ≤ moments.length := by
  induction moments with
  | nil => exact Nat.le_refl 0
  | cons m ms ih =>
    rw [earliest, List.length_cons]
    split
    · split <;> omega
    · omega

/-- The moments that touch some qubits are numbered below the earliest one for these. -/
theorem lt_earliest_of_touches {qubits : List Nat} {moments : List (Moment R)} {k : Nat}
    (h : Moment.touches (moments.getD k []) qubits = true) : k < earliest qubits moments := by
  induction moments generalizing k with
  | nil => simp [Moment.touches] at h
  | cons m ms ih =>
    rw [earliest]
    cases k with
    | zero =>
      rw [List.getD_cons_zero] at h
      split
      · rw [if_pos h]
        exact Nat.one_pos
      · exact Nat.succ_pos _
    | succ k =>
      rw [List.getD_cons_succ] at h
      have hrest := ih h
      split
      · next hzero => omega
      · next e he => omega

/-- The moment before the earliest one touches one of the qubits. -/
theorem touches_of_earliest {qubits : List Nat} {moments : List (Moment R)} {k : Nat}
    (h : earliest qubits moments = k + 1) : Moment.touches (moments.getD k []) qubits = true := by
  induction moments generalizing k with
  | nil => cases h
  | cons m ms ih =>
    rw [earliest] at h
    split at h
    · split at h
      · next htouches =>
        obtain rfl : k = 0 := by omega
        exact htouches
      · cases h
    · next e he =>
      obtain rfl : k = e + 1 := by omega
      rw [List.getD_cons_succ]
      exact ih he

/-- A gate is added to the moment of its number and to no other. -/
theorem getD_place (p : PlacedGate R) {moments : List (Moment R)} {e : Nat}
    (he : e ≤ moments.length) (k : Nat) :
    (place p e moments).getD k [] = moments.getD k [] ++ if e = k then [p] else [] := by
  induction moments generalizing e k with
  | nil =>
    obtain rfl : e = 0 := Nat.le_zero.mp he
    cases k <;> simp [place]
  | cons m ms ih =>
    cases e with
    | zero => cases k <;> simp [place]
    | succ e =>
      rw [List.length_cons] at he
      cases k with
      | zero => simp [place]
      | succ k =>
        rw [place, List.getD_cons_succ, List.getD_cons_succ, ih (by omega)]
        simp

theorem ne_nil_of_mem_place (p : PlacedGate R) {moments : List (Moment R)}
    (h : ∀ m ∈ moments, m ≠ []) (e : Nat) : ∀ m ∈ place p e moments, m ≠ [] := by
  induction moments generalizing e with
  | nil => simp [place]
  | cons m ms ih =>
    obtain ⟨hm, hms⟩ := List.forall_mem_cons.mp h
    cases e with
    | zero => exact List.forall_mem_cons.mpr ⟨by simp, hms⟩
    | succ e => exact List.forall_mem_cons.mpr ⟨hm, ih hms e⟩

/-! ## 2. All calls -/

/-- The moments of some calls, given the number of the moment of each.  Every moment holds the
    calls with its number, in order, and a call has the number after the largest of those of
    the earlier calls it shares a qubit with. -/
structure Packed {count : Nat} (calls : Fin count → PlacedGate R) (slot : Fin count → Nat)
    (moments : List (Moment R)) : Prop where
  moment : ∀ k, moments.getD k [] = ((List.finRange count).filter (slot · = k)).map calls
  ne_nil : ∀ m ∈ moments, m ≠ []
  after : ∀ i, ∀ j < i, (calls j).Shares (calls i) → slot j < slot i
  tight : ∀ i, slot i = 0 ∨ ∃ j < i, (calls j).Shares (calls i) ∧ slot i = slot j + 1

theorem Packed.mem_moment {count : Nat} {calls : Fin count → PlacedGate R}
    {slot : Fin count → Nat} {moments : List (Moment R)} (h : Packed calls slot moments) {k : Nat}
    {p : PlacedGate R} : p ∈ moments.getD k [] ↔ ∃ i, slot i = k ∧ calls i = p := by
  rw [h.moment, List.mem_map]
  simp

/-- **One more call keeps the moments packed.** -/
theorem Packed.place {count : Nat} {calls : Fin (count + 1) → PlacedGate R}
    {slot : Fin count → Nat} {moments : List (Moment R)}
    (h : Packed (fun i => calls i.castSucc) slot moments) :
    let p := calls (Fin.last count)
    let e := earliest p.qubits moments
    Packed calls (Fin.snoc slot e) (MomentCircuit.place p e moments) := by
  intro p e
  have hle : e ≤ moments.length := earliest_le_length p.qubits moments
  refine ⟨fun k => ?_, ne_nil_of_mem_place p h.ne_nil e, fun i => ?_, fun i => ?_⟩
  · rw [getD_place p hle, h.moment, List.finRange_succ_last, List.filter_append, List.map_append,
      List.filter_map, List.map_map]
    congr 1
    · simp [Function.comp_def]
    · by_cases hk : e = k
      · simp [hk, p]
      · simp [hk]
  · -- an earlier call that shares a qubit with the last one lies in a moment that touches it
    induction i using Fin.lastCases with
    | last =>
      intro j
      induction j using Fin.lastCases with
      | last => exact fun hj => absurd hj (lt_irrefl _)
      | cast j =>
        rintro - ⟨r, hrj, hr⟩
        rw [Fin.snoc_castSucc, Fin.snoc_last]
        refine lt_earliest_of_touches (Moment.touches_iff.mpr ?_)
        exact ⟨_, h.mem_moment.mpr ⟨j, rfl, rfl⟩, r, hrj, hr⟩
    | cast i =>
      intro j
      induction j using Fin.lastCases with
      | last => exact fun hj => absurd hj (Fin.le_last _).not_gt
      | cast j =>
        intro hj hshares
        rw [Fin.snoc_castSucc, Fin.snoc_castSucc]
        exact h.after i j (Fin.castSucc_lt_castSucc_iff.mp hj) hshares
  · induction i using Fin.lastCases with
    | last =>
      rw [Fin.snoc_last]
      rcases Nat.eq_zero_or_eq_succ_pred e with hzero | hsucc
      · exact .inl hzero
      · obtain ⟨q, hq, r, hrq, hr⟩ := Moment.touches_iff.mp (touches_of_earliest hsucc)
        obtain ⟨j, hj, rfl⟩ := h.mem_moment.mp hq
        refine .inr ⟨j.castSucc, Fin.castSucc_lt_last j, ⟨r, hrq, hr⟩, ?_⟩
        rw [Fin.snoc_castSucc, hj]
        exact hsucc
    | cast i =>
      rw [Fin.snoc_castSucc]
      rcases h.tight i with hzero | ⟨j, hj, hshares, hslot⟩
      · exact .inl hzero
      · refine .inr ⟨j.castSucc, Fin.castSucc_lt_castSucc_iff.mpr hj, hshares, ?_⟩
        rw [Fin.snoc_castSucc]
        exact hslot

/-- **The moments of a run of calls are packed.** -/
theorem exists_packed (width : Nat) {count : Nat} (calls : Fin count → PlacedGate R) :
    ∃ slot, Packed calls slot ((empty width).appendAll (List.ofFn calls)).moments := by
  induction count with
  | zero =>
    refine ⟨fun i => i.elim0, fun k => rfl, by simp [appendAll, empty], ?_, ?_⟩
    · exact fun i => i.elim0
    · exact fun i => i.elim0
  | succ count ih =>
    obtain ⟨slot, hpacked⟩ := ih fun i => calls i.castSucc
    rw [List.ofFn_succ', List.concat_eq_append, appendAll, List.foldl_append]
    exact ⟨_, hpacked.place⟩

namespace Packed

variable {count : Nat} {calls : Fin count → PlacedGate R} {slot : Fin count → Nat}
  {moments : List (Moment R)}

/-- Calls with the same number share no qubit, unless they are the same call. -/
theorem eq_of_shares (h : Packed calls slot moments) {i j : Fin count} (hslot : slot i = slot j)
    (hshares : (calls i).Shares (calls j)) : i = j := by
  rcases lt_trichotomy i j with hlt | heq | hlt
  · exact absurd hslot (h.after j i hlt hshares).ne
  · exact heq
  · obtain ⟨r, hi, hj⟩ := hshares
    exact absurd hslot (h.after i j hlt ⟨r, hj, hi⟩).ne'

theorem pairwise_apart (h : Packed calls slot moments) :
    ∀ m ∈ moments, m.Pairwise PlacedGate.Apart := by
  intro m hm
  obtain ⟨k, hk, rfl⟩ := List.getElem_of_mem hm
  have hmoment := h.moment k
  rw [List.getD_eq_getElem _ _ hk] at hmoment
  rw [hmoment, List.pairwise_map, List.pairwise_filter]
  have hlt := List.pairwise_lt_finRange count
  refine hlt.imp fun hij hi hj => ?_
  rw [PlacedGate.apart_iff]
  intro hshares
  have hslot := (decide_eq_true_iff.mp hi).trans (decide_eq_true_iff.mp hj).symm
  exact hij.ne (h.eq_of_shares hslot hshares)

def order (slot : Fin count → Nat) (length : Nat) : List (Fin count) :=
  (List.range length).flatMap fun k => (List.finRange count).filter (slot · = k)

theorem flatten_eq (h : Packed calls slot moments) :
    moments.flatten = (order slot moments.length).map calls := by
  have hmoments : (List.range moments.length).map (moments.getD · []) = moments := by
    apply List.ext_getElem
    · simp
    · intro k _ hk
      simp [hk]
  conv_lhs => rw [← hmoments]
  rw [order, List.map_flatMap, List.flatMap_def]
  simp only [h.moment]

/-- Calls are read by the number of their moment, and those of one moment as they were made. -/
theorem pairwise_order (slot : Fin count → Nat) (length : Nat) :
    (order slot length).Pairwise fun i j => slot i < slot j ∨ slot i = slot j ∧ i < j := by
  rw [order, List.pairwise_flatMap]
  constructor
  · intro k _
    rw [List.pairwise_filter]
    refine (List.pairwise_lt_finRange count).imp fun hij hi hj => .inr ⟨?_, hij⟩
    exact (decide_eq_true_iff.mp hi).trans (decide_eq_true_iff.mp hj).symm
  · refine List.pairwise_lt_range.imp fun hkl i hi j hj => .inl ?_
    have hk := decide_eq_true_iff.mp (List.mem_filter.mp hi).2
    have hl := decide_eq_true_iff.mp (List.mem_filter.mp hj).2
    rwa [hk, hl]

theorem slot_lt_length (h : Packed calls slot moments) (i : Fin count) :
    slot i < moments.length := by
  by_contra hge
  have hmem : calls i ∈ moments.getD (slot i) [] := h.mem_moment.mpr ⟨i, rfl, rfl⟩
  rw [List.getD_eq_default _ _ (Nat.le_of_not_lt hge)] at hmem
  cases hmem

/-- **Every call is read exactly once.** -/
theorem order_perm (h : Packed calls slot moments) :
    (order slot moments.length).Perm (List.finRange count) := by
  have hnodup : (order slot moments.length).Nodup := by
    refine (pairwise_order slot moments.length).imp ?_
    rintro i j (hlt | ⟨-, hlt⟩) rfl
    · exact lt_irrefl _ hlt
    · exact lt_irrefl _ hlt
  refine (List.perm_ext_iff_of_nodup hnodup (List.nodup_finRange count)).mpr fun i => ?_
  simp [order, h.slot_lt_length i]

/-- **Calls that share a qubit are read in the order in which they were made.** -/
theorem pairwise_order_of_shares (h : Packed calls slot moments) :
    (order slot moments.length).Pairwise fun i j => (calls i).Shares (calls j) → i < j := by
  refine (pairwise_order slot moments.length).imp fun {i j} hread hshares => ?_
  rcases hread with hslot | ⟨-, hlt⟩
  · by_contra hge
    obtain ⟨r, hi, hj⟩ := hshares
    rcases (Fin.not_lt.mp hge).eq_or_lt with heq | hlt
    · rw [heq] at hslot
      exact lt_irrefl _ hslot
    · exact absurd (h.after i j hlt ⟨r, hj, hi⟩) hslot.not_gt
  · exact hlt

end Packed

/-! ## 3. Lowering -/

section Lower

variable [Zero R] [One R] [Add R] [Sub R] [Neg R] [Mul R] [Elementary R]

/-- What lowering a placed gate checks: the matrix has as many qubits as there are targets, and
    no qubit lies outside. -/
def Lowerable (width : Nat) (p : PlacedGate R) : Prop :=
  ∀ action, p.gate.lowered? = some action →
    action.1.numQubits = (p.qubits.drop action.2).length ∧ ∀ q ∈ p.qubits, q < width

omit [Add R] [Sub R] [Mul R] in
theorem lowerGate_eq_ok_iff {p : PlacedGate R} {out low : LoweredCircuit (Amplitude R)} :
    lowerGate out p = .ok low ↔
      Lowerable out.numQubits p ∧ low = { out with steps := out.steps ++ p.steps } := by
  cases hlowered : p.gate.lowered? with
  | none =>
    obtain ⟨width, steps⟩ := out
    simp [lowerGate, Lowerable, hlowered, PlacedGate.steps_of_measurement hlowered,
      LoweredCircuit.foldl_measure, eq_comm]
  | some action =>
    obtain ⟨m, count⟩ := action
    simp only [lowerGate, Lowerable, hlowered, PlacedGate.steps_of_gate hlowered,
      LoweredStep.onQubits, LoweredCircuit.controlled_accepts_iff, List.take_append_drop,
      Option.some.injEq, forall_eq']

omit [Add R] [Sub R] [Mul R] in
/-- **Gates are lowered exactly if each of them can be, in whatever order.** -/
theorem foldlM_lowerGate_eq_ok_iff {gates : List (PlacedGate R)}
    {out low : LoweredCircuit (Amplitude R)} : gates.foldlM lowerGate out = .ok low ↔
      (∀ p ∈ gates, Lowerable out.numQubits p) ∧
        low = { out with steps := out.steps ++ gates.flatMap PlacedGate.steps } := by
  induction gates generalizing out with
  | nil => simp [pure, Except.pure, eq_comm]
  | cons p gates ih =>
    rw [List.foldlM_cons, bind_eq_ok, List.forall_mem_cons, List.flatMap_cons]
    constructor
    · rintro ⟨next, hnext, hrest⟩
      obtain ⟨hp, rfl⟩ := lowerGate_eq_ok_iff.mp hnext
      obtain ⟨hgates, rfl⟩ := ih.mp hrest
      exact ⟨⟨hp, hgates⟩, by rw [List.append_assoc]⟩
    · rintro ⟨⟨hp, hgates⟩, rfl⟩
      refine ⟨_, lowerGate_eq_ok_iff.mpr ⟨hp, rfl⟩, ih.mpr ⟨hgates, ?_⟩⟩
      rw [List.append_assoc]

end Lower

end MomentCircuit

/-! ## 4. The order of lowering -/

section Same

variable [CommRing R] [Elementary R] {width : Nat}

open Simulator (applyGates SameGates)

theorem PlacedGate.qubits_of_mem_steps {p : PlacedGate R} {s : LoweredStep (Amplitude R)}
    (hs : s ∈ p.steps) : ∀ r ∈ s.qubits, r ∈ p.qubits := by
  cases hlowered : p.gate.lowered? with
  | none =>
    rw [steps_of_measurement hlowered] at hs
    obtain ⟨q, hq, rfl⟩ := List.mem_map.mp hs
    intro r hr
    rwa [List.mem_singleton.mp hr]
  | some action =>
    rw [steps_of_gate hlowered, List.mem_singleton] at hs
    rw [hs, LoweredStep.onQubits, LoweredStep.qubits, List.take_append_drop]
    exact fun r hr => hr

/-- A placed gate that can be lowered and names no qubit twice, unless it measures. -/
structure PlacedGate.Proper (width : Nat) (p : PlacedGate R) : Prop where
  lowerable : MomentCircuit.Lowerable width p
  nodup : p.gate.isMeasurement = false → p.qubits.Nodup

theorem PlacedGate.Proper.spread {p : PlacedGate R} (h : p.Proper width) :
    ∀ s ∈ p.steps, s.Spread width := by
  intro s hs
  cases hlowered : p.gate.lowered? with
  | none =>
    rw [steps_of_measurement hlowered] at hs
    obtain ⟨q, -, rfl⟩ := List.mem_map.mp hs
    exact trivial
  | some action =>
    have hgate : p.gate.isMeasurement = false := by
      rw [← Bool.not_eq_true, ← MomentGate.lowered?_eq_none_iff, hlowered]
      exact Option.some_ne_none action
    rw [steps_of_gate hlowered, List.mem_singleton] at hs
    rw [hs, LoweredStep.onQubits, LoweredStep.Spread, List.take_append_drop]
    exact ⟨h.nodup hgate, (h.lowerable action hlowered).2⟩

/-- **Exchanging proper gates on different qubits changes no state.** -/
theorem MomentCircuit.sameGates_of_reordered {gates gates' : List (PlacedGate R)}
    (hproper : ∀ p ∈ gates, p.Proper width) (h : Reordered PlacedGate.Apart gates gates') :
    SameGates width (gates.flatMap PlacedGate.steps) (gates'.flatMap PlacedGate.steps) := by
  refine .of_reordered (fun s hs => ?_) (h.flatMap ?_)
  · obtain ⟨p, hp, hs⟩ := List.mem_flatMap.mp hs
    exact (hproper p hp).spread s hs
  · intro p _ q _ hapart s hs t ht r hrs hrt
    exact hapart (PlacedGate.qubits_of_mem_steps hs r hrs) (PlacedGate.qubits_of_mem_steps ht r hrt)

/-- **Packing calls into moments keeps their order.**  Every call lies in exactly one moment:
    the first one if no earlier call shares a qubit with it, and otherwise the one right after
    the latest of these.  No moment uses a qubit twice, and calls that share a qubit are read in
    the order in which they were made.  The moments can be lowered exactly if the calls can be
    lowered in the order in which they were made; and where no gate names a qubit twice, the
    gates send every state where they would in that order. -/
theorem MomentCircuit.packing_keeps_order (width : Nat) (calls : List (PlacedGate R)) :
    let c : MomentCircuit R := (empty width).appendAll calls
    (∃ slot : Fin calls.length → Nat,
      (∀ k, c.moments.getD k [] =
        ((List.finRange calls.length).filter (slot · = k)).map calls.get) ∧
      (∀ i, (∀ j < i, ¬ (calls.get j).Shares (calls.get i)) → slot i = 0) ∧
      ∀ i, ∀ j < i, (calls.get j).Shares (calls.get i) →
        (∀ k < i, (calls.get k).Shares (calls.get i) → slot k ≤ slot j) → slot i = slot j + 1) ∧
    (∃ order : List (Fin calls.length),
      order.Perm (List.finRange calls.length) ∧ c.allGates = order.map calls.get ∧
      order.Pairwise fun i j => (calls.get i).Shares (calls.get j) → i < j) ∧
    (∀ m ∈ c.moments, m ≠ [] ∧ m.Pairwise PlacedGate.Apart) ∧
    ((∃ low, c.lower = .ok low) ↔ ∃ low, calls.foldlM lowerGate (.empty width) = .ok low) ∧
    ((∀ p ∈ calls, p.gate.isMeasurement = false → p.qubits.Nodup) → ∀ low low',
      c.lower = .ok low → calls.foldlM lowerGate (.empty width) = .ok low' →
      ∀ ψ : Statevector (Amplitude R) width, applyGates ψ low.steps = applyGates ψ low'.steps) := by
  intro c
  obtain ⟨slot, hpacked⟩ := exists_packed width calls.get
  rw [List.ofFn_get] at hpacked
  have hreordered : Reordered PlacedGate.Apart c.allGates calls :=
    (empty width).allGates_appendAll calls
  have hwidth : c.numQubits = width := numQubits_appendAll calls _
  have hlower : ∀ low, c.lower = .ok low ↔ (∀ p ∈ calls, Lowerable width p) ∧
      low = ⟨width, c.allGates.flatMap PlacedGate.steps⟩ := by
    intro low
    rw [lower, hwidth, foldlM_lowerGate_eq_ok_iff]
    refine and_congr_left fun _ => forall_congr' fun p => ?_
    rw [hreordered.perm.mem_iff]
    rfl
  have hcalls : ∀ low, calls.foldlM lowerGate (.empty width) = .ok low ↔
      (∀ p ∈ calls, Lowerable width p) ∧ low = ⟨width, calls.flatMap PlacedGate.steps⟩ :=
    fun low => foldlM_lowerGate_eq_ok_iff
  refine ⟨⟨slot, hpacked.moment, fun i hfirst => ?_, fun i j hj hshares hlatest => ?_⟩,
    ⟨_, hpacked.order_perm, hpacked.flatten_eq, hpacked.pairwise_order_of_shares⟩,
    fun m hm => ⟨hpacked.ne_nil m hm, hpacked.pairwise_apart m hm⟩, ?_, ?_⟩
  · rcases hpacked.tight i with hzero | ⟨j, hj, hshares, -⟩
    · exact hzero
    · exact absurd hshares (hfirst j hj)
  · have hafter := hpacked.after i j hj hshares
    rcases hpacked.tight i with hzero | ⟨k, hk, hshares', hslot⟩
    · omega
    · have hle := hlatest k hk hshares'
      omega
  · simp only [hlower, hcalls]
    simp
  · intro hnodup low low' hlow hlow' ψ
    obtain ⟨hlowerable, rfl⟩ := (hlower low).mp hlow
    obtain ⟨-, rfl⟩ := (hcalls low').mp hlow'
    refine sameGates_of_reordered (fun p hp => ?_) hreordered ψ
    have hmem := hreordered.perm.mem_iff.mp hp
    exact ⟨hlowerable p hmem, hnodup p hmem⟩

end Same

noncomputable def interleaved : List (PlacedGate ℝ) :=
  [⟨.h, [0]⟩, ⟨.cnot, [0, 1]⟩, ⟨.rx 1, [2]⟩, ⟨.measure "q(1)", [1]⟩, ⟨.ccx, [2, 0, 1]⟩,
    ⟨.measure "q(2)", [2]⟩]

theorem MomentCircuit.packing_keeps_order_interleaved :
    (∀ p ∈ interleaved, p.gate.isMeasurement = false → p.qubits.Nodup) ∧
      ((empty 3).appendAll interleaved).moments.map (·.map (·.qubits)) =
        [[[0], [2]], [[0, 1]], [[1]], [[2, 0, 1]], [[2]]] ∧
      ∃ low low', ((empty 3).appendAll interleaved).lower = .ok low ∧
        interleaved.foldlM lowerGate (.empty 3) = .ok low' ∧
        ∀ ψ : Statevector (Amplitude ℝ) 3,
          Simulator.applyGates ψ low.steps = Simulator.applyGates ψ low'.steps := by
  have hnodup : ∀ p ∈ interleaved, p.gate.isMeasurement = false → p.qubits.Nodup := by
    simp [interleaved]
  obtain ⟨low', hlow'⟩ : ∃ low, interleaved.foldlM lowerGate (.empty 3) = .ok low := ⟨_, rfl⟩
  obtain ⟨-, -, -, hlowers, hsame⟩ := packing_keeps_order 3 interleaved
  obtain ⟨low, hlow⟩ := hlowers.mpr ⟨low', hlow'⟩
  exact ⟨hnodup, rfl, low, low', hlow, hlow', hsame hnodup low low' hlow hlow'⟩

def twiceNamed : List (PlacedGate ℝ) := [⟨.x, [1]⟩, ⟨.x, [1]⟩, ⟨.ccx, [0, 0, 2]⟩]

/-- **A gate that names a qubit twice is not where its qubits say.**  It shares no qubit with
    the two flips and comes before the second of them, but it acts on the qubit they flip. -/
theorem MomentCircuit.doubled_control_out_of_order :
    ∃ low low', ((empty 3).appendAll twiceNamed).lower = .ok low ∧
      twiceNamed.foldlM lowerGate (.empty 3) = .ok low' ∧
      Simulator.applyGates (Statevector.zero 3) low.steps ≠
        Simulator.applyGates (Statevector.zero 3) low'.steps := by
  refine ⟨⟨3, [.gate GateMatrix.Standard.x [1] [], .gate GateMatrix.Standard.x [2] [0, 0],
      .gate GateMatrix.Standard.x [1] []]⟩,
    ⟨3, [.gate GateMatrix.Standard.x [1] [], .gate GateMatrix.Standard.x [1] [],
      .gate GateMatrix.Standard.x [2] [0, 0]]⟩, rfl, rfl, fun heq => ?_⟩
  simp only [Simulator.applyGates_gate, Simulator.applyGates_nil,
    Statevector.applyMatrix_control_twice] at heq
  have hplain : ([] ++ [1] : List Nat).Nodup := by decide
  have hcontrolled : ([0 + 1] ++ [2]).Nodup := by decide
  have hflipped := (Statevector.hasBits_zero (K := Amplitude ℝ) (n := 3)).x hplain (by decide)
  have hpacked := (hflipped.x hcontrolled (by decide)).x hplain (by decide)
  have hcalled := (hflipped.x hplain (by decide)).x hcontrolled (by decide)
  have hbits := congrFun ((heq ▸ hpacked).unique hcalled) 2
  revert hbits
  decide

end CircuitBroker
