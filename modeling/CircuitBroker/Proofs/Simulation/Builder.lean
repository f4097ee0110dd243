/-
  CircuitBroker/Proofs/Simulation/Builder.lean
  ============================================
  **What can be built can be run, but for two things that are not looked at.**

  Building a lowered circuit gate by gate checks that a matrix has as many qubits as there are
  targets and that no qubit of a gate lies outside.  It does not ask for different qubits, and
  of a measurement it asks nothing.  So a run of a built circuit gives counts as soon as all
  targets are different, no control is repeated until its bits leave the word and all measured
  qubits are there; `runFrom_built` says when it does otherwise.
-/
import CircuitBroker.Proofs.Simulation.Faults

namespace CircuitBroker

/-! ## 1. Circuits as they are built -/

variable {R : Type}

/-- The circuits that are built on so many qubits.  Every matrix has a power of two for its
    dimension, which is a machine word. -/
inductive LoweredCircuit.Built (n : Nat) : LoweredCircuit (Amplitude R) → Prop
  | empty : Built n (.empty n)
  | gate {c c' : LoweredCircuit (Amplitude R)} {m : GateMatrix (Amplitude R)} {targets : List Nat}
      (hc : Built n c) (hm : ∃ k < 64, m.OnQubits k)
      (h : (c.gate m targets : Except (Failure R) _) = .ok c') : Built n c'
  | controlled {c c' : LoweredCircuit (Amplitude R)} {m : GateMatrix (Amplitude R)}
      {controls targets : List Nat} (hc : Built n c) (hm : ∃ k < 64, m.OnQubits k)
      (h : (c.controlled m controls targets : Except (Failure R) _) = .ok c') : Built n c'
  | measure {c : LoweredCircuit (Amplitude R)} (hc : Built n c) (q : Nat) : Built n (c.measure q)

namespace LoweredCircuit

variable {n : Nat} {c c' : LoweredCircuit (Amplitude R)}

/-- A step that passes the checks: a matrix that matches its targets, on qubits of the circuit,
    or a measurement of anything. -/
def Checked (n : Nat) : LoweredStep (Amplitude R) → Prop
  | .gate m targets controls =>
    m.OnQubits targets.length ∧ targets.length < 64 ∧ ∀ q ∈ controls ++ targets, q < n
  | .measure _ => True

theorem controlled_eq_ok_iff {m : GateMatrix (Amplitude R)} {controls targets : List Nat}
    (hm : ∃ k < 64, m.OnQubits k) :
    (c.controlled m controls targets : Except (Failure R) _) = .ok c' ↔
      Checked c.numQubits (.gate m targets controls) ∧
        c' = { c with steps := c.steps ++ [.gate m targets controls] } := by
  obtain ⟨k, hk, hm⟩ := hm
  rw [controlled_accepts_iff, hm.numQubits_eq hk, Checked]
  refine and_congr_left fun _ => ⟨?_, ?_⟩
  · rintro ⟨rfl, hinside⟩
    exact ⟨hm, hk, hinside⟩
  · rintro ⟨hm', hk', hinside⟩
    exact ⟨hm.numQubits_eq hk ▸ hm'.numQubits_eq hk', hinside⟩

theorem checked_append (hc : c.numQubits = n ∧ ∀ s ∈ c.steps, Checked n s)
    {s : LoweredStep (Amplitude R)} (hs : Checked n s) :
    ({ c with steps := c.steps ++ [s] } : LoweredCircuit (Amplitude R)).numQubits = n ∧
      ∀ t ∈ c.steps ++ [s], Checked n t :=
  ⟨hc.1, List.forall_mem_append.mpr ⟨hc.2, List.forall_mem_singleton.mpr hs⟩⟩

/-- **What can be built are the circuits of checked steps.** -/
theorem built_iff : c.Built n ↔ c.numQubits = n ∧ ∀ s ∈ c.steps, Checked n s := by
  constructor
  · intro h
    induction h with
    | empty => exact ⟨rfl, by simp [LoweredCircuit.empty]⟩
    | gate hc hm h ih =>
      obtain ⟨hstep, rfl⟩ := (controlled_eq_ok_iff hm).mp h
      exact checked_append ih (ih.1 ▸ hstep)
    | controlled hc hm h ih =>
      obtain ⟨hstep, rfl⟩ := (controlled_eq_ok_iff hm).mp h
      exact checked_append ih (ih.1 ▸ hstep)
    | measure hc q ih => exact checked_append ih trivial
  · obtain ⟨numQubits, steps⟩ := c
    rintro ⟨rfl, hsteps⟩
    induction steps using List.reverseRecOn with
    | nil => exact .empty
    | append_singleton steps s ih =>
      obtain ⟨hbefore, hlast⟩ := List.forall_mem_append.mp hsteps
      have hs := List.forall_mem_singleton.mp hlast
      cases s with
      | gate m targets controls =>
        have hm : ∃ k < 64, m.OnQubits k := ⟨targets.length, hs.2.1, hs.1⟩
        exact .controlled (ih hbefore) hm ((controlled_eq_ok_iff hm).mpr ⟨hs, rfl⟩)
      | measure q => exact (ih hbefore).measure q

end LoweredCircuit

/-! ## 2. Runs -/

open Statevector (mask mask_lt)

/-- A step of a checked circuit that uses no index but those there are.  An outcome has an index
    only if outcomes are written down. -/
def LoweredStep.StaysInside (n : Nat) (written : Bool) : LoweredStep (Amplitude R) → Prop
  | .gate _ targets controls =>
    mask targets < 2 ^ n ∨ ¬ (mask controls < 2 ^ n ∧ mask controls &&& mask targets = 0)
  | .measure q => written = true → q < n

theorem LoweredCircuit.Checked.fits_iff {n : Nat} {s : LoweredStep (Amplitude R)}
    (h : Checked n s) (written : Bool) : s.Fits n written ↔ s.StaysInside n written := by
  cases s with
  | gate m targets controls => exact Statevector.fits_iff h.1
  | measure q => exact Iff.rfl

namespace Simulator

variable {n : Nat} {c : LoweredCircuit (Amplitude R)}

variable [Zero R] [One R] [Add R] [Sub R] [Mul R] [Div R] [Elementary R] [Magnitude R]
variable {σ : Type} [DrawSource σ R]

/-- **Running what has been built.**  There are counts if the targets of every gate are
    different, its control bits add up to a word and every measured qubit is there.  In general
    there are counts exactly if the bits of every step that the shots come to add up to words and
    every one of them stays inside; otherwise a sum overflows, or an index is used that does not
    exist. -/
theorem runFrom_built (hn : n < 64) (hc : c.Built n) (hmeasures : ∃ q, .measure q ∈ c.steps)
    {maxQubits : Nat} (hmax : n ≤ maxQubits) (draws : σ) (shots : Nat) :
    ((∀ m targets controls, .gate m targets controls ∈ c.steps →
        targets.Nodup ∧ mask controls < wordSize) →
      (∀ q, .measure q ∈ c.steps → q < n) →
      ∃ counts, runFrom maxQubits draws c shots = .ok counts) ∧
    ((∀ s ∈ c.reached shots, s.Words ∧ s.StaysInside n c.replays) →
      ∃ counts, runFrom maxQubits draws c shots = .ok counts) ∧
    ((∀ s ∈ c.reached shots, s.Words) → (¬ ∀ s ∈ c.reached shots, s.StaysInside n c.replays) →
      runFrom maxQubits draws c shots = .error (.machine .indexOutOfRange)) ∧
    ((¬ ∀ s ∈ c.reached shots, s.Words) →
      ∃ fault, runFrom maxQubits draws c shots = .error (.machine fault)) := by
  obtain ⟨rfl, hchecked⟩ := LoweredCircuit.built_iff.mp hc
  obtain ⟨hcounts, houtside, hlarge⟩ :=
    runFrom_cases hn (LoweredCircuit.measuredQubits_ne_nil hmeasures) hmax draws shots
  have hfits : ∀ s ∈ c.reached shots,
      (s.Fits c.numQubits c.replays ↔ s.StaysInside c.numQubits c.replays) :=
    fun s hs => (hchecked s (c.reached_subset shots s hs)).fits_iff _
  have hinside : (∀ s ∈ c.reached shots, s.Words ∧ s.StaysInside c.numQubits c.replays) →
      ∃ counts, runFrom maxQubits draws c shots = .ok counts := fun hall =>
    ⟨_, hcounts fun s hs => (hall s hs).imp_right (hfits s hs).mpr⟩
  refine ⟨fun hdistinct hthere => hinside fun s hs => ?_, hinside, fun hwords hout => ?_, hlarge⟩
  · have hmem := c.reached_subset shots s hs
    cases s with
    | gate m targets controls =>
      obtain ⟨hnodup, hcontrols⟩ := hdistinct m targets controls hmem
      obtain ⟨-, hfew, hlt⟩ := hchecked _ hmem
      have htargets := mask_lt hnodup fun q hq => hlt q (List.mem_append_right _ hq)
      have hword : 2 ^ c.numQubits < wordSize := Nat.pow_lt_pow_right (by decide) hn
      exact ⟨⟨hfew, htargets.trans hword, hcontrols⟩, .inl htargets⟩
    | measure q =>
      have hq := hthere q hmem
      exact ⟨hq.trans hn, fun _ => hq⟩
  · exact houtside hwords fun hall => hout fun s hs => (hfits s hs).mp (hall s hs)

def readTwice : LoweredCircuit (Amplitude Float) :=
  ⟨2, [.gate GateMatrix.Standard.h [0] [], .gate GateMatrix.Standard.x [1] [0], .measure 1,
    .gate GateMatrix.Standard.x [1] [], .measure 1]⟩

theorem built_readTwice : readTwice.Built 2 := by
  rw [LoweredCircuit.built_iff]
  refine ⟨rfl, ?_⟩
  simp only [readTwice, List.forall_mem_cons, LoweredCircuit.Checked]
  refine ⟨⟨⟨rfl, rfl⟩, ?_⟩, ⟨⟨rfl, rfl⟩, ?_⟩, trivial, ⟨⟨rfl, rfl⟩, ?_⟩, trivial, by simp⟩
  all_goals decide

theorem runFrom_built_readTwice : ∃ counts, run ⟨7, 24⟩ readTwice 100 = .ok counts := by
  have hn : 2 < 64 := by decide
  have hmax : 2 ≤ 24 := by decide
  obtain ⟨hcounts, -⟩ := runFrom_built hn built_readTwice ⟨1, by simp [readTwice]⟩ hmax
    (ChaCha.Generator.ofSeed 7) 100
  refine hcounts ?_ ?_
  · intro m targets controls hgate
    simp only [readTwice, List.mem_cons, LoweredStep.gate.injEq, reduceCtorEq, List.not_mem_nil,
      or_false, false_or] at hgate
    rcases hgate with ⟨-, rfl, rfl⟩ | ⟨-, rfl, rfl⟩ | ⟨-, rfl, rfl⟩
    all_goals exact ⟨List.nodup_singleton _, by decide⟩
  · intro q hq
    simp only [readTwice, List.mem_cons, LoweredStep.measure.injEq, reduceCtorEq, List.not_mem_nil,
      or_false, false_or, or_self] at hq
    rw [hq]
    decide

def doubled : LoweredCircuit (Amplitude Float) :=
  ⟨1, [.gate (GateMatrix.identity 2) [0, 0] [], .measure 0]⟩

def elsewhere : LoweredCircuit (Amplitude Float) :=
  ⟨1, [.measure 0, .measure 5, .gate GateMatrix.Standard.x [0] []]⟩

/-- Both can be built and neither can be run. -/
theorem built_out_of_range :
    (doubled.Built 1 ∧ run ⟨1, 24⟩ doubled 3 = .error (.machine .indexOutOfRange)) ∧
      elsewhere.Built 1 ∧ run ⟨1, 24⟩ elsewhere 3 = .error (.machine .indexOutOfRange) := by
  have hdoubled : ∀ s ∈ doubled.steps, LoweredCircuit.Checked 1 s := by
    simp only [doubled, List.forall_mem_cons, LoweredCircuit.Checked]
    exact ⟨⟨⟨rfl, rfl⟩, by decide⟩, trivial, by simp⟩
  have helsewhere : ∀ s ∈ elsewhere.steps, LoweredCircuit.Checked 1 s := by
    simp only [elsewhere, List.forall_mem_cons, LoweredCircuit.Checked]
    exact ⟨trivial, trivial, ⟨⟨rfl, rfl⟩, by decide⟩, by simp⟩
  have hdoubledWords : ∀ s ∈ doubled.steps, s.Words := by
    simp only [doubled, List.forall_mem_cons, LoweredStep.Words]
    exact ⟨⟨by decide, by decide, by decide⟩, by decide, by simp⟩
  have helsewhereWords : ∀ s ∈ elsewhere.steps, s.Words := by
    simp only [elsewhere, List.forall_mem_cons, LoweredStep.Words]
    exact ⟨by decide, by decide, ⟨by decide, by decide, by decide⟩, by simp⟩
  refine ⟨⟨LoweredCircuit.built_iff.mpr ⟨rfl, hdoubled⟩, ?_⟩,
    LoweredCircuit.built_iff.mpr ⟨rfl, helsewhere⟩, ?_⟩
  · -- the two target bits add up to two, which is no index of one qubit
    refine (runFrom_cases (by decide) (LoweredCircuit.measuredQubits_ne_nil ⟨0, by simp [doubled]⟩)
      (by decide) _ 3).2.1 (fun s hs => hdoubledWords s (doubled.reached_subset 3 s hs)) fun h => ?_
    have hfirst := ((hdoubled _ List.mem_cons_self).fits_iff _).mp
      (h _ (List.mem_cons_self : _ ∈ doubled.steps))
    simp [LoweredStep.StaysInside, mask] at hfirst
  · have hfive : .measure 5 ∈ elsewhere.steps := by simp [elsewhere]
    exact runFrom_of_written_outside (by decide) (by decide) rfl helsewhereWords hfive (by decide) _
      (by decide)

end Simulator

end CircuitBroker
