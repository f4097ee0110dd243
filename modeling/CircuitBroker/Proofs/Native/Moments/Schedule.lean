/-
  CircuitBroker/Proofs/Native/Moments/Schedule.lean
  =================================================
  **Packing gates into moments only exchanges gates on different qubits.**

  A gate goes into the first moment after the last one that touches any of its qubits, so
  no later moment touches them (`untouched_of_earliest`).  Read moment after moment, the
  gates of a schedule are therefore a reordering of the gates in the order in which they
  were appended (`allGates_appendAll`).
-/
import CircuitBroker.Native.Moments
import CircuitBroker.Proofs.Reordering

namespace CircuitBroker

variable {R : Type}

def PlacedGate.Apart (p q : PlacedGate R) : Prop := List.Disjoint p.qubits q.qubits

namespace MomentCircuit

/-! ## 1. Where a gate is put -/

/-- From the earliest moment of some qubits on, no moment touches any of them. -/
theorem untouched_of_earliest {qubits : List Nat} {moments : List (Moment R)} :
    ∀ m ∈ moments.drop (earliest qubits moments), Moment.touches m qubits = false := by
  induction moments with
  | nil => intro m hm; simp at hm
  | cons m ms ih =>
    rw [earliest]
    cases hrest : earliest qubits ms with
    | zero =>
      rw [hrest] at ih
      by_cases htouch : Moment.touches m qubits
      · simpa [htouch] using ih
      · simpa [htouch] using ih
    | succ k =>
      rw [hrest] at ih
      exact ih

/-- A moment that touches none of a gate's qubits holds only gates apart from it. -/
theorem apart_of_untouched {p q : PlacedGate R} {m : Moment R}
    (h : Moment.touches m p.qubits = false) (hq : q ∈ m) : p.Apart q := by
  intro r hp hr
  have htouch : Moment.touches m p.qubits = true := by
    rw [Moment.touches, List.any_eq_true]
    exact ⟨q, hq, List.any_eq_true.mpr ⟨r, hr, List.contains_iff_mem.mpr hp⟩⟩
  exact absurd htouch (by rw [h]; simp)

theorem flatten_place (p : PlacedGate R) (moments : List (Moment R)) :
    ∀ k, (place p k moments).flatten =
      (moments.take (k + 1)).flatten ++ p :: (moments.drop (k + 1)).flatten := by
  induction moments with
  | nil => intro k; simp [place]
  | cons m ms ih =>
    intro k
    cases k with
    | zero => simp [place]
    | succ k => simp [place, ih k]

/-! ## 2. Schedules -/

/-- **Appending a gate comes down to running it last.** -/
theorem allGates_append (c : MomentCircuit R) (p : PlacedGate R) :
    Reordered PlacedGate.Apart (c.append p.gate p.qubits).allGates (c.allGates ++ [p]) := by
  have hafter : ∀ q ∈ (c.moments.drop (earliest p.qubits c.moments + 1)).flatten, p.Apart q := by
    intro q hq
    obtain ⟨m, hm, hqm⟩ := List.mem_flatten.mp hq
    have hlater : m ∈ c.moments.drop (earliest p.qubits c.moments) :=
      List.drop_subset_drop_left c.moments (Nat.le_succ _) hm
    exact apart_of_untouched (untouched_of_earliest m hlater) hqm
  have hback := (Reordered.move_back hafter).append_left
    (c.moments.take (earliest p.qubits c.moments + 1)).flatten
  rw [← List.append_assoc, ← List.flatten_append, List.take_append_drop] at hback
  rw [allGates, append, flatten_place]
  exact hback

def appendAll (c : MomentCircuit R) (gates : List (PlacedGate R)) : MomentCircuit R :=
  gates.foldl (fun c p => c.append p.gate p.qubits) c

/-- **A schedule is a reordering of its gates in the order in which they were appended.** -/
theorem allGates_appendAll (gates : List (PlacedGate R)) : ∀ c : MomentCircuit R,
    Reordered PlacedGate.Apart (c.appendAll gates).allGates (c.allGates ++ gates) := by
  induction gates with
  | nil => intro c; rw [List.append_nil]; exact .refl _
  | cons p gates ih =>
    intro c
    have hfirst := (c.allGates_append p).append_right gates
    rw [List.append_assoc] at hfirst
    exact .trans (ih (c.append p.gate p.qubits)) hfirst

theorem numQubits_appendAll (gates : List (PlacedGate R)) : ∀ c : MomentCircuit R,
    (c.appendAll gates).numQubits = c.numQubits := by
  induction gates with
  | nil => intro c; rfl
  | cons p gates ih => intro c; exact ih (c.append p.gate p.qubits)

/-- A moment holds only gates that were appended. -/
theorem mem_of_mem_moment {width : Nat} {gates : List (PlacedGate R)} {m : Moment R}
    {p : PlacedGate R} (hm : m ∈ ((empty width).appendAll gates).moments) (hp : p ∈ m) :
    p ∈ gates := by
  have hperm := ((empty width).allGates_appendAll gates).perm
  exact hperm.mem_iff.mp (List.mem_flatten.mpr ⟨m, hm, hp⟩)

end MomentCircuit

end CircuitBroker
