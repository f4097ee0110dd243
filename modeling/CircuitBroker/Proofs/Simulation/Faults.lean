/-
  CircuitBroker/Proofs/Simulation/Faults.lean
  ===========================================
  **What ends a run.**

  A step adds up the bits of its qubits in words (`LoweredStep.Words`) and uses indices of
  amplitudes, entries and outcomes (`LoweredStep.Fits`).  A run of a circuit that measures
  repeats a shot in one of two ways if all steps that the shots come to do both, and ends with a
  fault of the machine if one does not (`runFrom_cases`).
-/
import CircuitBroker.Proofs.Circuit.Measured
import CircuitBroker.Proofs.Statevector.Range
import CircuitBroker.Simulation.Simulator

namespace CircuitBroker

variable {R K σ : Type}

/-! ## 1. Steps -/

open Statevector Simulator

namespace LoweredStep

/-- A step whose bits add up to words. -/
def Words : LoweredStep K → Prop
  | .gate _ targets controls => GateWords targets controls
  | .measure q => q < 64

/-- A step that touches only amplitudes, matrix entries and outcomes that exist.  An outcome has a
    place only if outcomes are written down. -/
def Fits (n : Nat) (written : Bool) : LoweredStep K → Prop
  | .gate m targets controls => fits n m targets controls = true
  | .measure q => written = true → q < n

end LoweredStep

variable {n : Nat} {written : Bool} {s : LoweredStep (Amplitude R)}

theorem stepFault?_of_fits (hwords : s.Words) (hfits : s.Fits n written) :
    stepFault? n written s = none := by
  cases s with
  | gate m targets controls =>
    rw [stepFault?, gateFault?_of_words hwords]
    exact if_pos hfits
  | measure q =>
    have hinside : (written && decide (n ≤ q)) = false := by
      cases written with
      | false => rfl
      | true => exact decide_eq_false (Nat.not_le.mpr (hfits rfl))
    simp only [stepFault?, Word.bit_of_lt hwords, hinside]
    rfl

theorem stepFault?_of_not_fits (hwords : s.Words) (hfits : ¬ s.Fits n written) :
    stepFault? n written s = some .indexOutOfRange := by
  cases s with
  | gate m targets controls =>
    rw [stepFault?, gateFault?_of_words hwords]
    exact if_neg hfits
  | measure q =>
    obtain ⟨hwritten, hout⟩ := Classical.not_imp.mp hfits
    simp only [stepFault?, Word.bit_of_lt hwords, hwritten, Nat.not_lt.mp hout]
    rfl

theorem exists_stepFault?_of_not_words (hwords : ¬ s.Words) :
    ∃ fault, stepFault? n written s = some fault := by
  cases s with
  | gate m targets controls => exact exists_gateFault?_of_not_words hwords
  | measure q =>
    have hbit : Word.bit q = .error .overflow :=
      Word.bit_eq_error_iff.mpr ⟨⟨Nat.not_lt.mp hwords, rfl⟩, rfl⟩
    exact ⟨.overflow, by simp only [stepFault?, hbit]⟩

/-! ## 2. Circuits cut at the first measurement -/

namespace LoweredCircuit

theorem before_append_after (c : LoweredCircuit K) : c.before ++ c.after = c.steps :=
  List.takeWhile_append_dropWhile

theorem measured?_of_mem_before (c : LoweredCircuit K) : ∀ s ∈ c.before, s.measured? = none :=
  fun _ hs => Option.isNone_iff_eq_none.mp
    (List.mem_takeWhile_imp (p := fun s : LoweredStep K => s.measured?.isNone) hs)

theorem reached_subset (c : LoweredCircuit K) (shots : Nat) : ∀ s ∈ c.reached shots, s ∈ c.steps := by
  intro s hs
  rw [reached] at hs
  split at hs
  · exact List.takeWhile_subset _ hs
  · exact hs

theorem measuredQubits_ne_nil {c : LoweredCircuit K} (hmeasures : ∃ q, .measure q ∈ c.steps) :
    c.measuredQubits ≠ [] := by
  obtain ⟨q, hq⟩ := hmeasures
  refine List.ne_nil_of_mem (a := q) ?_
  rw [measuredQubits, mem_ascending, List.mem_filterMap]
  exact ⟨.measure q, hq, rfl⟩

theorem mem_after_of_mem_measured {c : LoweredCircuit K} {q : Nat} (hq : q ∈ c.measuredQubits) :
    q ∈ c.after.filterMap LoweredStep.measured? := by
  rwa [measuredQubits, mem_ascending, ← c.before_append_after, List.filterMap_append,
    List.filterMap_eq_nil_iff.mpr c.measured?_of_mem_before, List.nil_append] at hq

theorem replays_eq_false_iff {c : LoweredCircuit K} :
    c.replays = false ↔ ∀ s ∈ c.after, s.measured?.isSome = true := by
  rw [replays, Bool.not_eq_false', List.all_eq_true]

end LoweredCircuit

/-! ## 3. Runs -/

variable {c : LoweredCircuit (Amplitude R)} {shots : Nat}

theorem shotsFault?_eq (hn : c.numQubits < 64) (written : Bool) (shots : Nat) :
    shotsFault? written c shots = (c.reached shots).findSome? (stepFault? c.numQubits written) := by
  rw [shotsFault?, Word.bit_of_lt hn]

theorem shotsFault?_of_fits (hn : c.numQubits < 64)
    (hall : ∀ s ∈ c.reached shots, s.Words ∧ s.Fits c.numQubits written) :
    shotsFault? written c shots = none := by
  rw [shotsFault?_eq hn, List.findSome?_eq_none_iff]
  exact fun s hs => stepFault?_of_fits (hall s hs).1 (hall s hs).2

theorem shotsFault?_of_not_fits (hn : c.numQubits < 64) (hwords : ∀ s ∈ c.reached shots, s.Words)
    (hfits : ¬ ∀ s ∈ c.reached shots, s.Fits c.numQubits written) :
    shotsFault? written c shots = some .indexOutOfRange := by
  rw [shotsFault?_eq hn]
  obtain ⟨s, hs, hout⟩ : ∃ s ∈ c.reached shots, ¬ s.Fits c.numQubits written := by
    simpa using hfits
  have hstep : (stepFault? c.numQubits written s).isSome = true := by
    rw [stepFault?_of_not_fits (hwords s hs) hout, Option.isSome_some]
  have hsome : ((c.reached shots).findSome? (stepFault? c.numQubits written)).isSome = true :=
    List.findSome?_isSome_iff.mpr ⟨s, hs, hstep⟩
  obtain ⟨fault, hfault⟩ := Option.isSome_iff_exists.mp hsome
  obtain ⟨t, ht, htfault⟩ := List.exists_of_findSome?_eq_some hfault
  -- no step has another fault than this one
  by_cases hfit : t.Fits c.numQubits written
  · rw [stepFault?_of_fits (hwords t ht) hfit] at htfault
    cases htfault
  · rw [hfault, ← htfault, stepFault?_of_not_fits (hwords t ht) hfit]

theorem exists_shotsFault?_of_not_words (hn : c.numQubits < 64)
    (hwords : ¬ ∀ s ∈ c.reached shots, s.Words) :
    ∃ fault, shotsFault? written c shots = some fault := by
  rw [shotsFault?_eq hn, ← Option.isSome_iff_exists, List.findSome?_isSome_iff]
  obtain ⟨s, hs, hlarge⟩ : ∃ s ∈ c.reached shots, ¬ s.Words := by simpa using hwords
  exact ⟨s, hs, Option.isSome_iff_exists.mpr (exists_stepFault?_of_not_words hlarge)⟩

section Runs

variable [Zero R] [One R] [Add R] [Sub R] [Mul R] [Div R] [Elementary R] [Magnitude R]
  [DrawSource σ R]

/-- One shot of a run: a draw from the distribution of the state before the first measurement, or
    the steps from there on. -/
def oneShot (c : LoweredCircuit (Amplitude R)) : σ → String × σ :=
  if c.replays then replay (start c) c.after c.measuredQubits
  else sample (start c).cumulative c.measuredQubits

theorem runFrom_eq (hmeasured : c.measuredQubits ≠ []) {maxQubits : Nat}
    (hmax : c.numQubits ≤ maxQubits) (draws : σ) (shots : Nat) :
    runFrom maxQubits draws c shots =
      match shotsFault? c.replays c shots with
      | some fault => .error (.machine fault)
      | none => .ok (repeatShots (oneShot c) shots draws .empty) := by
  rw [runFrom, if_neg (Nat.not_lt.mpr hmax), List.isEmpty_eq_false_iff.mpr hmeasured]
  cases hreplays : c.replays with
  | false =>
    simp only [oneShot, hreplays, Bool.false_eq_true, if_false, sampleShots]
    cases shotsFault? false c shots <;> rfl
  | true =>
    simp only [oneShot, hreplays, Bool.false_eq_true, if_false, if_true, replayShots]
    cases shotsFault? true c shots <;> rfl

/-- There is no state of more qubits than a word has bits. -/
theorem runFrom_of_large (hn : 64 ≤ c.numQubits) (hmeasured : c.measuredQubits ≠ [])
    {maxQubits : Nat} (hmax : c.numQubits ≤ maxQubits) (draws : σ) (shots : Nat) :
    runFrom maxQubits draws c shots = .error (.machine .overflow) := by
  have hbit : Word.bit c.numQubits = .error .overflow := Word.bit_eq_error_iff.mpr ⟨⟨hn, rfl⟩, rfl⟩
  simp only [runFrom_eq hmeasured hmax, shotsFault?, hbit]

/-- A run that gives counts gives those of its shots. -/
theorem repeatShots_of_runFrom {maxQubits : Nat} {draws : σ} {counts : Counts}
    (h : runFrom maxQubits draws c shots = .ok counts) :
    c.measuredQubits ≠ [] ∧ repeatShots (oneShot c) shots draws .empty = counts := by
  have hmax : c.numQubits ≤ maxQubits := by
    by_contra hlarge
    rw [runFrom, if_pos (Nat.not_le.mp hlarge)] at h
    cases h
  have hmeasured : c.measuredQubits ≠ [] := by
    intro hnone
    rw [runFrom, if_neg (Nat.not_lt.mpr hmax), hnone] at h
    cases h
  refine ⟨hmeasured, ?_⟩
  rw [runFrom_eq hmeasured hmax] at h
  split at h
  · cases h
  · exact Except.ok.inj h

/-- **A run of a circuit that measures is decided by the steps its shots come to.** -/
theorem runFrom_cases (hn : c.numQubits < 64) (hmeasured : c.measuredQubits ≠ []) {maxQubits : Nat}
    (hmax : c.numQubits ≤ maxQubits) (draws : σ) (shots : Nat) :
    ((∀ s ∈ c.reached shots, s.Words ∧ s.Fits c.numQubits c.replays) →
      runFrom maxQubits draws c shots = .ok (repeatShots (oneShot c) shots draws .empty)) ∧
    ((∀ s ∈ c.reached shots, s.Words) →
      (¬ ∀ s ∈ c.reached shots, s.Fits c.numQubits c.replays) →
      runFrom maxQubits draws c shots = .error (.machine .indexOutOfRange)) ∧
    ((¬ ∀ s ∈ c.reached shots, s.Words) →
      ∃ fault, runFrom maxQubits draws c shots = .error (.machine fault)) := by
  rw [runFrom_eq hmeasured hmax]
  refine ⟨fun hall => ?_, fun hwords hout => ?_, fun hlarge => ?_⟩
  · rw [shotsFault?_of_fits hn hall]
  · rw [shotsFault?_of_not_fits hn hwords hout]
  · obtain ⟨fault, hfault⟩ : ∃ fault, shotsFault? c.replays c shots = some fault :=
      exists_shotsFault?_of_not_words hn hlarge
    exact ⟨fault, by rw [hfault]⟩

/-- An outcome that is written down for a qubit that is not there has no place. -/
theorem runFrom_of_written_outside (hn : c.numQubits < 64) {maxQubits : Nat}
    (hmax : c.numQubits ≤ maxQubits) (hreplays : c.replays = true)
    (hwords : ∀ s ∈ c.steps, s.Words) {q : Nat} (hq : .measure q ∈ c.steps)
    (hout : c.numQubits ≤ q) (draws : σ) (hshots : 0 < shots) :
    runFrom maxQubits draws c shots = .error (.machine .indexOutOfRange) := by
  have hreached : c.reached shots = c.steps := if_neg hshots.ne'
  obtain ⟨-, houtside, -⟩ := runFrom_cases hn (LoweredCircuit.measuredQubits_ne_nil ⟨q, hq⟩) hmax
    draws shots
  rw [hreached] at houtside
  refine houtside hwords fun hall => ?_
  have hthere : q < c.numQubits := hall (.measure q) hq hreplays
  omega

end Runs

end CircuitBroker
