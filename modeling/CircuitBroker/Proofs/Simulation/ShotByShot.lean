/-
  CircuitBroker/Proofs/Simulation/ShotByShot.lean
  ===============================================
  **Shots that share their beginning come out as shots that start over.**

  Where a gate follows a measurement, a run brings the state up to the first measurement once
  and takes every shot from there, with a register that holds the last outcome of each qubit.
  `fromStart` takes a shot by itself: it begins with the zero state, executes every step and
  notes what each measurement finds.  What is noted says what the register holds
  (`shot_eq_foldl`), so the counts of a run are those of shots by themselves, draw for draw
  (`runFrom_shot_by_shot`).  The two differ where the register has no place for an outcome.
-/
import CircuitBroker.Proofs.Simulation.Possible

namespace CircuitBroker.Simulator

open Statevector

variable {R σ : Type} [Zero R] [One R] [Add R] [Sub R] [Mul R] [Div R] [Elementary R] [Magnitude R]
  [DrawSource σ R] {n : Nat}

/-! ## 1. A shot by itself -/

/-- A shot under way: the state, what has been found so far, in order, and the draws left. -/
structure Bench (R σ : Type) (n : Nat) where
  state : Statevector (Amplitude R) n
  found : List (Nat × Bool)
  draws : σ

/-- One step: a gate changes the state, a measurement takes a draw and notes what it finds. -/
def Bench.step (b : Bench R σ n) : LoweredStep (Amplitude R) → Bench R σ n
  | .gate m targets controls => { b with state := b.state.applyMatrix m targets controls }
  | .measure q =>
    let (draw, draws) := DrawSource.next b.draws
    let (outcome, state) := b.state.measure q draw
    ⟨state, b.found ++ [(q, outcome)], draws⟩

/-- What was found last for a qubit, and zero if nothing was. -/
def lastFound (found : List (Nat × Bool)) (q : Nat) : Bool :=
  ((found.filter (·.1 == q)).getLast?.map (·.2)).getD false

/-- A shot by itself: all steps in order from the zero state, then the last outcomes of the
    measured qubits. -/
def fromStart (c : LoweredCircuit (Amplitude R)) (draws : σ) : String × σ :=
  let last := c.steps.foldl Bench.step ⟨zero c.numQubits, [], draws⟩
  (bitstring c.measuredQubits (lastFound last.found), last.draws)

/-- The bitstrings of some shots, each with the draws that the one before it has left. -/
def bitstrings (one : σ → String × σ) : Nat → σ → List String
  | 0, _ => []
  | shots + 1, draws => (one draws).1 :: bitstrings one shots (one draws).2

def countsFromStart (c : LoweredCircuit (Amplitude R)) (draws : σ) (shots : Nat) : Counts :=
  .ofPairs ((bitstrings (fromStart c) shots draws).map fun bits => (bits, 1))

omit [Zero R] [One R] [Add R] [Sub R] [Mul R] [Div R] [Elementary R] [Magnitude R]
  [DrawSource σ R] in
theorem repeatShots_eq_foldl (one : σ → String × σ) (shots : Nat) (draws : σ) (counts : Counts) :
    repeatShots one shots draws counts =
      ((bitstrings one shots draws).map fun bits => (bits, 1)).foldl
        (fun c (bits, n) => c.insert bits n) counts := by
  induction shots generalizing draws counts with
  | zero => rfl
  | succ shots ih => exact ih _ _

/-- Noting an outcome is writing it into the register. -/
theorem lastFound_append (found : List (Nat × Bool)) (q : Nat) (outcome : Bool) :
    lastFound (found ++ [(q, outcome)]) = record (lastFound found) q outcome := by
  funext r
  rw [lastFound, record, List.filter_append]
  by_cases hr : r = q
  · simp [hr]
  · rw [if_neg hr, List.filter_cons_of_neg (by simpa using Ne.symm hr), List.filter_nil,
      List.append_nil, lastFound]

/-- **What is noted says what the register holds**, whatever was noted before. -/
theorem shot_eq_foldl (steps : List (LoweredStep (Amplitude R))) (b : Bench R σ n) :
    shot steps b.state (lastFound b.found) b.draws =
      (lastFound (steps.foldl Bench.step b).found, (steps.foldl Bench.step b).draws) := by
  induction steps generalizing b with
  | nil => rfl
  | cons s steps ih =>
    rw [List.foldl_cons, ← ih]
    cases s with
    | gate m targets controls => rfl
    | measure q =>
      rw [shot_measure, ← lastFound_append]
      rfl

/-- **A shot from the state before the first measurement is one from the start.** -/
theorem replay_eq_fromStart (c : LoweredCircuit (Amplitude R)) (draws : σ) :
    replay (start c) c.after c.measuredQubits draws = fromStart c draws := by
  have hsteps : shot c.after (start c) (fun _ => false) draws =
      shot c.steps (zero c.numQubits) (fun _ => false) draws := by
    rw [start, ← shot_gates c.measured?_of_mem_before, c.before_append_after]
  have hnoted := shot_eq_foldl c.steps ⟨zero c.numQubits, [], draws⟩
  have hnothing : lastFound [] = fun _ => false := rfl
  rw [hnothing] at hnoted
  rw [replay, hsteps, hnoted, fromStart]

end CircuitBroker.Simulator

/-! ## 2. Runs -/

namespace CircuitBroker

open Simulator Statevector

variable {R σ : Type} {c : LoweredCircuit (Amplitude R)}

namespace LoweredCircuit

theorem replays_iff (c : LoweredCircuit (Amplitude R)) :
    c.replays = true ↔ ∃ s ∈ c.after, s.measured? = none := by
  rw [replays, Bool.not_eq_true', List.all_eq_false]
  refine exists_congr fun s => and_congr_right fun _ => ?_
  rw [Bool.not_eq_true, Option.isSome_eq_false_iff, Option.isNone_iff_eq_none]

/-- What comes after the first measurement comes after a measurement. -/
theorem exists_measure_of_after_ne_nil (h : c.after ≠ []) : ∃ q, .measure q ∈ c.steps := by
  have hfirst : (c.after.head h).measured?.isNone = false := List.head_dropWhile_not _ h
  have hmem : c.after.head h ∈ c.steps := List.dropWhile_subset _ (List.head_mem h)
  cases hs : c.after.head h with
  | gate m targets controls =>
    rw [hs] at hfirst
    cases hfirst
  | measure q => exact ⟨q, hs ▸ hmem⟩

end LoweredCircuit

variable [Zero R] [One R] [Add R] [Sub R] [Mul R] [Div R] [Elementary R] [Magnitude R]
  [DrawSource σ R]

theorem repeatShots_of_replays (hreplays : c.replays = true) (draws : σ) (shots : Nat) :
    repeatShots (oneShot c) shots draws .empty = countsFromStart c draws shots := by
  have hone : oneShot c = fromStart (σ := σ) c := by
    funext draws
    rw [oneShot, if_pos hreplays, replay_eq_fromStart]
  rw [hone, repeatShots_eq_foldl]
  rfl

/-- **Sharing the beginning is not seen.**  Where a gate follows a measurement, a run of a circuit
    that is not too large gives the counts of shots that each start over, on the same draws, if
    all steps that the shots come to run in words and fit; if one of them does not, or the
    state has more amplitudes than there are words, it gives none. -/
theorem runFrom_shot_by_shot (hgate : ∃ s ∈ c.after, s.measured? = none) (maxQubits : Nat)
    (draws : σ) (shots : Nat) :
    (maxQubits < c.numQubits → runFrom maxQubits draws c shots =
      .error (.malformedCircuit (.tooManyQubits c.numQubits maxQubits))) ∧
    (c.numQubits ≤ maxQubits → 64 ≤ c.numQubits →
      runFrom maxQubits draws c shots = .error (.machine .overflow)) ∧
    (c.numQubits ≤ maxQubits → c.numQubits < 64 →
      ((∀ s ∈ c.reached shots, s.Words ∧ s.Fits c.numQubits true) →
        runFrom maxQubits draws c shots = .ok (countsFromStart c draws shots)) ∧
      ((∀ s ∈ c.reached shots, s.Words) → (∃ s ∈ c.reached shots, ¬ s.Fits c.numQubits true) →
        runFrom maxQubits draws c shots = .error (.machine .indexOutOfRange)) ∧
      ((∃ s ∈ c.reached shots, ¬ s.Words) →
        ∃ fault, runFrom maxQubits draws c shots = .error (.machine fault))) := by
  have hreplays : c.replays = true := c.replays_iff.mpr hgate
  have hmeasured : c.measuredQubits ≠ [] := by
    obtain ⟨s, hs, -⟩ := hgate
    exact LoweredCircuit.measuredQubits_ne_nil
      (LoweredCircuit.exists_measure_of_after_ne_nil (List.ne_nil_of_mem hs))
  refine ⟨fun hlarge => if_pos hlarge, fun hmax hn => ?_, fun hmax hn => ?_⟩
  · exact runFrom_of_large hn hmeasured hmax draws shots
  · obtain ⟨hcounts, houtside, hlarge⟩ := runFrom_cases hn hmeasured hmax draws shots
    rw [hreplays] at hcounts houtside
    refine ⟨fun hall => ?_, fun hwords hout => houtside hwords ?_, fun hout => hlarge ?_⟩
    · rw [hcounts hall, repeatShots_of_replays hreplays]
    · simpa using hout
    · simpa using hout

theorem runFrom_shot_by_shot_readTwice :
    run ⟨7, 24⟩ readTwice 100 =
      .ok (countsFromStart readTwice (ChaCha.Generator.ofSeed 7) 100) := by
  have hgate : ∃ s ∈ readTwice.after, s.measured? = none :=
    ⟨.gate GateMatrix.Standard.x [1] [], List.mem_cons_of_mem _ List.mem_cons_self, rfl⟩
  have hn : readTwice.numQubits < 64 := by decide
  have hmax : readTwice.numQubits ≤ 24 := by decide
  have hfit : ∀ s ∈ readTwice.steps, s.Words ∧ s.Fits readTwice.numQubits true := by
    simp only [readTwice, List.forall_mem_cons, LoweredStep.Words, LoweredStep.Fits]
    refine ⟨⟨gateWords_of_nodup hn ?_ ?_, fits_of_lt ⟨rfl, rfl⟩ (by decide) (by decide)⟩,
      ⟨gateWords_of_nodup hn ?_ ?_, fits_of_lt ⟨rfl, rfl⟩ (by decide) (by decide)⟩,
      ⟨by decide, by decide⟩,
      ⟨gateWords_of_nodup hn ?_ ?_, fits_of_lt ⟨rfl, rfl⟩ (by decide) (by decide)⟩,
      ⟨by decide, by decide⟩, by simp⟩
    all_goals decide
  obtain ⟨-, -, hsmall⟩ := runFrom_shot_by_shot hgate 24 (ChaCha.Generator.ofSeed 7) 100
  exact (hsmall hmax hn).1 fun s hs => hfit s (readTwice.reached_subset 100 s hs)

/-- A shot by itself finds two zeros where one of the qubits measured is not there; a run has no
    place for the second. -/
theorem measuredElsewhere_from_start :
    (∃ s ∈ measuredElsewhere.after, s.measured? = none) ∧
      countsFromStart measuredElsewhere (fun _ : Nat => (1 / 2 : ℝ)) 3 = ⟨[("00", 3)]⟩ ∧
      runFrom 24 (fun _ : Nat => (1 / 2 : ℝ)) measuredElsewhere 3 =
        .error (.machine .indexOutOfRange) := by
  have hgate : ∃ s ∈ measuredElsewhere.after, s.measured? = none :=
    ⟨.gate GateMatrix.Standard.x [0] [], by simp [LoweredCircuit.after, measuredElsewhere,
      LoweredStep.measured?], rfl⟩
  have hmeasured : measuredElsewhere.measuredQubits = [0, 5] := by
    change ascending [0, 5] = [0, 5]
    rw [ascending, List.mergeSort_of_pairwise (by decide)]
    rfl
  refine ⟨hgate, ?_, ?_⟩
  · have hfound : ∀ q, (zero 1 : Statevector (Amplitude ℝ) 1).measure q (1 / 2) =
        (Nat.testBit 0 q, zero 1) :=
      fun q => measure_basis (by decide) q (by norm_num) (by norm_num)
    have hone : fromStart measuredElsewhere (fun _ : Nat => (1 / 2 : ℝ)) =
        ("00", fun _ => 1 / 2) := by
      rw [fromStart, hmeasured]
      simp only [measuredElsewhere, List.foldl_cons, List.foldl_nil, Bench.step, DrawSource.next,
        hfound]
      rfl
    simp only [countsFromStart, bitstrings, hone]
    rfl
  · exact runFrom_measuredElsewhere

end CircuitBroker
