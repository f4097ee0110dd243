/-
  CircuitBroker/Proofs/Simulation/Steps.lean
  ==========================================
  **Steps of a lowered circuit: when they can be added, and what they do to a state.**

  A lowering adds steps one after the other and checks each.  `LoweredStep.WellFormed` is
  what the checks ask for and what a simulation needs; a lowering that only ever adds
  well-formed steps does not fail, and adds them in order (`foldlM_adds`).

  `SameGates` compares two lists of steps by what their gates do to every state.  It is an
  equivalence that joins with `++`, so two circuits can be compared piece by piece.
-/
import CircuitBroker.Proofs.Amplitude
import CircuitBroker.Proofs.Reordering
import CircuitBroker.Proofs.Statevector.Controls
import CircuitBroker.Proofs.Traversal
import CircuitBroker.Simulation.Simulator

namespace CircuitBroker

variable {R K : Type}

/-! ## 1. Well-formed steps -/

/-- A matrix that can act on targets, under controls, among so many qubits.  A machine word
    bounds the number of targets. -/
structure GateMatrix.Applicable (m : GateMatrix K) (targets controls : List Nat)
    (numQubits : Nat) : Prop where
  nodup : (controls ++ targets).Nodup
  lt : ∀ q ∈ controls ++ targets, q < numQubits
  onQubits : m.OnQubits targets.length
  few : targets.length < 64

namespace LoweredStep

def qubits : LoweredStep K → List Nat
  | .gate _ targets controls => controls ++ targets
  | .measure q => [q]

def Apart (s t : LoweredStep K) : Prop := List.Disjoint s.qubits t.qubits

def WellFormed (numQubits : Nat) : LoweredStep K → Prop
  | .gate m targets controls => m.Applicable targets controls numQubits
  | .measure q => q < numQubits

/-- A gate on different qubits of so many; measurements may be of anything. -/
def Spread (numQubits : Nat) : LoweredStep K → Prop
  | .gate _ targets controls =>
    (controls ++ targets).Nodup ∧ ∀ q ∈ controls ++ targets, q < numQubits
  | .measure _ => True

theorem WellFormed.spread {numQubits : Nat} {s : LoweredStep K} (h : s.WellFormed numQubits) :
    s.Spread numQubits := by
  cases s with
  | gate m targets controls => exact ⟨GateMatrix.Applicable.nodup h, GateMatrix.Applicable.lt h⟩
  | measure q => exact trivial

theorem WellFormed.lt {numQubits : Nat} {s : LoweredStep K} (h : s.WellFormed numQubits) :
    ∀ q ∈ s.qubits, q < numQubits := by
  cases s with
  | gate m targets controls => exact GateMatrix.Applicable.lt h
  | measure q => exact fun r hr => List.mem_singleton.mp hr ▸ h

end LoweredStep

namespace LoweredCircuit

variable {n : Nat} {steps : List (LoweredStep K)}

/-- A matrix is added exactly if it has as many qubits as there are targets and no qubit lies
    outside. -/
theorem controlled_accepts_iff {c c' : LoweredCircuit K} {m : GateMatrix K}
    {targets controls : List Nat} :
    (c.controlled m controls targets : Except (Failure R) (LoweredCircuit K)) = .ok c' ↔
      (m.numQubits = targets.length ∧ ∀ q ∈ controls ++ targets, q < c.numQubits) ∧
        c' = { c with steps := c.steps ++ [.gate m targets controls] } := by
  rw [controlled]
  by_cases hsize : m.numQubits = targets.length
  · rw [if_neg (not_not_intro hsize)]
    cases hfind : (controls ++ targets).find? (fun q => decide (c.numQubits ≤ q)) with
    | none =>
      have hinside : ∀ q ∈ controls ++ targets, q < c.numQubits := by
        simpa only [decide_eq_true_eq, Nat.not_le] using List.find?_eq_none.mp hfind
      constructor
      · intro h
        exact ⟨⟨hsize, hinside⟩, (Except.ok.inj h).symm⟩
      · rintro ⟨-, rfl⟩
        rfl
    | some q =>
      have hq : c.numQubits ≤ q := by simpa using List.find?_some hfind
      constructor
      · intro h
        cases h
      · rintro ⟨⟨-, hinside⟩, -⟩
        exact absurd (hinside q (List.mem_of_find?_eq_some hfind)) (Nat.not_lt.mpr hq)
  · rw [if_pos hsize]
    constructor
    · intro h
      cases h
    · rintro ⟨⟨hsize', -⟩, -⟩
      exact absurd hsize' hsize

theorem controlled_eq_ok {m : GateMatrix K} {targets controls : List Nat}
    (h : m.Applicable targets controls n) :
    (controlled ⟨n, steps⟩ m controls targets : Except (Failure R) (LoweredCircuit K)) =
      .ok ⟨n, steps ++ [.gate m targets controls]⟩ :=
  controlled_accepts_iff.mpr ⟨⟨h.onQubits.numQubits_eq h.few, h.lt⟩, rfl⟩

/-- A lowering that adds some steps for every part of a circuit adds all of them. -/
theorem foldlM_adds {α : Type} {f : LoweredCircuit K → α → Except (Failure R) (LoweredCircuit K)}
    {g : α → List (LoweredStep K)} {l : List α}
    (h : ∀ a ∈ l, ∀ steps, f ⟨n, steps⟩ a = .ok ⟨n, steps ++ g a⟩) :
    ∀ steps, l.foldlM f ⟨n, steps⟩ = .ok ⟨n, steps ++ l.flatMap g⟩ := by
  induction l with
  | nil => intro steps; simp [pure, Except.pure]
  | cons a l ih =>
    intro steps
    have hrest := ih fun b hb => h b (List.mem_cons_of_mem a hb)
    rw [List.foldlM_cons, h a List.mem_cons_self, List.flatMap_cons, ← List.append_assoc]
    exact hrest (steps ++ g a)

theorem foldl_measure (qubits : List Nat) : ∀ steps : List (LoweredStep K),
    qubits.foldl measure ⟨n, steps⟩ = ⟨n, steps ++ qubits.map .measure⟩ := by
  induction qubits with
  | nil => intro steps; simp
  | cons q qs ih =>
    intro steps
    rw [List.foldl_cons, measure, ih, List.map_cons, List.append_assoc]
    rfl

end LoweredCircuit

/-! ## 2. What gates do -/

namespace Simulator

variable [CommRing R] {n : Nat}

@[simp] theorem applyGates_nil (ψ : Statevector (Amplitude R) n) : applyGates ψ [] = ψ := rfl

@[simp] theorem applyGates_gate (ψ : Statevector (Amplitude R) n) (m : GateMatrix (Amplitude R))
    (targets controls : List Nat) (steps : List (LoweredStep (Amplitude R))) :
    applyGates ψ (.gate m targets controls :: steps) =
      applyGates (ψ.applyMatrix m targets controls) steps := rfl

@[simp] theorem applyGates_measure (ψ : Statevector (Amplitude R) n) (q : Nat)
    (steps : List (LoweredStep (Amplitude R))) :
    applyGates ψ (.measure q :: steps) = applyGates ψ steps := rfl

theorem applyGates_append (ψ : Statevector (Amplitude R) n)
    (a b : List (LoweredStep (Amplitude R))) :
    applyGates ψ (a ++ b) = applyGates (applyGates ψ a) b := List.foldl_append

theorem applyGates_map_measure (ψ : Statevector (Amplitude R) n) (qubits : List Nat) :
    applyGates ψ (qubits.map .measure) = ψ := by
  induction qubits with
  | nil => rfl
  | cons q qs ih => exact ih

/-- Two lists of steps whose gates send every state to the same state. -/
def SameGates (n : Nat) (a b : List (LoweredStep (Amplitude R))) : Prop :=
  ∀ ψ : Statevector (Amplitude R) n, applyGates ψ a = applyGates ψ b

namespace SameGates

variable {a b c d : List (LoweredStep (Amplitude R))}

theorem refl (a : List (LoweredStep (Amplitude R))) : SameGates n a a := fun _ => rfl

theorem symm (h : SameGates n a b) : SameGates n b a := fun ψ => (h ψ).symm

theorem trans (h : SameGates n a b) (h' : SameGates n b c) : SameGates n a c :=
  fun ψ => (h ψ).trans (h' ψ)

theorem append (h : SameGates n a b) (h' : SameGates n c d) : SameGates n (a ++ c) (b ++ d) := by
  intro ψ
  rw [applyGates_append, applyGates_append, h ψ, h' (applyGates ψ b)]

theorem flatMap {α β : Type} {l : List α} {l' : List β}
    {f : α → List (LoweredStep (Amplitude R))} {g : β → List (LoweredStep (Amplitude R))}
    (h : List.Forall₂ (fun a b => SameGates n (f a) (g b)) l l') :
    SameGates n (l.flatMap f) (l'.flatMap g) := by
  induction h with
  | nil => exact refl []
  | cons hab _ ih =>
    rw [List.flatMap_cons, List.flatMap_cons]
    exact hab.append ih

end SameGates

theorem applyGates_comm {s t : LoweredStep (Amplitude R)} (hs : s.Spread n) (ht : t.Spread n)
    (hapart : s.Apart t) : SameGates n [s, t] [t, s] := by
  intro ψ
  cases s with
  | measure q => cases t <;> rfl
  | gate m targets controls =>
    cases t with
    | measure q => rfl
    | gate m' targets' controls' =>
      exact ψ.applyMatrix_comm m m' hs.1 ht.1
        (fun q hq => hs.2 q (List.mem_append_right _ hq))
        (fun q hq => ht.2 q (List.mem_append_right _ hq)) hapart

/-- **A reordering of steps does to every state what the steps do.** -/
theorem SameGates.of_reordered {a b : List (LoweredStep (Amplitude R))}
    (ha : ∀ s ∈ a, s.Spread n) (h : Reordered LoweredStep.Apart a b) : SameGates n a b :=
  h.foldl_eq fun _ hs _ ht hapart ψ => applyGates_comm (ha _ hs) (ha _ ht) hapart ψ

end Simulator

/-! ## 3. Matrices under controls -/

/-- A matrix on the last of some qubits, under so many controls before them. -/
def LoweredStep.onQubits (action : GateMatrix K × Nat) (qubits : List Nat) : LoweredStep K :=
  .gate action.1 (qubits.drop action.2) (qubits.take action.2)

/-- A matrix under controls given as it is, or, for few controls, as a block matrix. -/
def GateMatrix.Realizes [Zero K] [One K] (a b : GateMatrix K × Nat) : Prop :=
  a = b ∨ b.2 ≤ 3 ∧ a = (b.1.controlled b.2, 0)

namespace GateMatrix.Realizes

variable {n : Nat} {qubits : List Nat}

/-- Where a matrix under controls can be run, so can a block matrix in its place. -/
theorem wellFormed [Zero K] [One K] {a b : GateMatrix K × Nat} (h : Realizes a b)
    (hb : (LoweredStep.onQubits b qubits).WellFormed n) (hlen : b.2 ≤ qubits.length)
    (hfew : qubits.length - b.2 ≤ 4) : (LoweredStep.onQubits a qubits).WellFormed n := by
  obtain rfl | ⟨hthree, rfl⟩ := h
  · exact hb
  · have hnodup := hb.nodup
    have hlt := GateMatrix.Applicable.lt hb
    have hmatrix := hb.onQubits.controlled b.2
    rw [List.take_append_drop] at hnodup hlt
    rw [List.length_drop, Nat.add_sub_cancel' hlen] at hmatrix
    exact { nodup := hnodup, lt := hlt, onQubits := hmatrix, few := by simp; omega }

/-- **Controls may be put into the matrix.** -/
theorem sameGates [CommRing R] {a b : GateMatrix (Amplitude R) × Nat} (h : Realizes a b)
    (hb : (LoweredStep.onQubits b qubits).WellFormed n) (hlen : b.2 ≤ qubits.length) :
    Simulator.SameGates n [.onQubits a qubits] [.onQubits b qubits] := by
  obtain rfl | ⟨-, rfl⟩ := h
  · exact .refl _
  · intro ψ
    have hblock := ψ.applyMatrix_controlled hb.onQubits.dim hb.nodup
      (GateMatrix.Applicable.lt hb)
    rwa [List.take_append_drop, List.length_take_of_le hlen] at hblock

end GateMatrix.Realizes

end CircuitBroker
