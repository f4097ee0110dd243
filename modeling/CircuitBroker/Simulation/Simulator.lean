/-
  CircuitBroker/Simulation/Simulator.lean
  =======================================
  **Running lowered circuits.**

  A run of a lowered circuit gives the counts of a number of shots.  The steps before the
  first measurement are the same for every shot and are run once.  If only measurements
  follow, each shot is one draw from the final distribution; otherwise each shot goes
  through the remaining steps with a draw per measurement.  All shots of a run draw from one
  source, one after the other.
-/
import CircuitBroker.Counts
import CircuitBroker.Simulation.Draws
import CircuitBroker.Simulation.LoweredCircuit
import CircuitBroker.Simulation.Statevector

namespace CircuitBroker

/-- A statevector simulator: the seed of its draws and the largest circuit it takes. -/
structure Simulator where
  seed : UInt64
  maxQubits : Nat
  deriving DecidableEq, Inhabited

namespace Simulator

def defaultMaxQubits : Nat := 24

def name (_ : Simulator) : String := "statevector"

def bitstring (measured : List Nat) (outcome : Nat → Bool) : String :=
  String.ofList (measured.map fun q => if outcome q then '1' else '0')

section Run

variable {R σ : Type} [Zero R] [One R] [Add R] [Sub R] [Mul R] [Div R] [Elementary R]
  [Magnitude R] [DrawSource σ R]

def applyGates {n : Nat} (ψ : Statevector (Amplitude R) n)
    (steps : List (LoweredStep (Amplitude R))) : Statevector (Amplitude R) n :=
  steps.foldl
    (fun ψ step =>
      match step with
      | .gate m targets controls => ψ.applyMatrix m targets controls
      | .measure _ => ψ)
    ψ

/-- The last outcome of each qubit: a function changed at one place per measurement. -/
def record (register : Nat → Bool) (qubit : Nat) (outcome : Bool) : Nat → Bool :=
  fun q => if q = qubit then outcome else register q

/-- One shot: the steps in order, a draw per measurement, the last outcome of each qubit
    recorded. -/
def shot {n : Nat} : List (LoweredStep (Amplitude R)) → Statevector (Amplitude R) n →
    (Nat → Bool) → σ → (Nat → Bool) × σ
  | [], _, register, draws => (register, draws)
  | .gate m targets controls :: steps, ψ, register, draws =>
    shot steps (ψ.applyMatrix m targets controls) register draws
  | .measure q :: steps, ψ, register, draws =>
    let (draw, draws) := DrawSource.next draws
    let (outcome, ψ) := ψ.measure q draw
    shot steps ψ (record register q outcome) draws

/-- The counts after some more shots, each a bitstring and the source left by it. -/
def repeatShots (one : σ → String × σ) : Nat → σ → Counts → Counts
  | 0, _, counts => counts
  | shots + 1, draws, counts =>
    let (bits, draws) := one draws
    repeatShots one shots draws (counts.insert bits 1)

/-- One draw from the distribution with these cumulative weights. -/
def sample (cumulative : List R) (measured : List Nat) (draws : σ) : String × σ :=
  let (draw, draws) := DrawSource.next draws
  let index := sampleIndex cumulative draw
  (bitstring measured index.testBit, draws)

def replay {n : Nat} (ψ : Statevector (Amplitude R) n) (steps : List (LoweredStep (Amplitude R)))
    (measured : List Nat) (draws : σ) : String × σ :=
  let (register, draws) := shot steps ψ (fun _ => false) draws
  (bitstring measured register, draws)

/-- What ends a step on `n` qubits.  Only an outcome that is written down needs a place. -/
def stepFault? (n : Nat) (written : Bool) : LoweredStep (Amplitude R) → Option MachineFault
  | .gate m targets controls => Statevector.gateFault? n m targets controls
  | .measure q =>
    match Word.bit q with
    | .error fault => some fault
    | .ok _ => if written && decide (n ≤ q) then some .indexOutOfRange else none

/-- What ends a number of shots: the state of all zeros is made first, then the steps come one
    after the other. -/
def shotsFault? (written : Bool) (c : LoweredCircuit (Amplitude R)) (shots : Nat) :
    Option MachineFault :=
  match Word.bit c.numQubits with
  | .error fault => some fault
  | .ok _ => (c.reached shots).findSome? (stepFault? c.numQubits written)

def start (c : LoweredCircuit (Amplitude R)) : Statevector (Amplitude R) c.numQubits :=
  applyGates (.zero c.numQubits) c.before

def sampleShots (draws : σ) (c : LoweredCircuit (Amplitude R)) (shots : Nat) :
    Except MachineFault Counts :=
  match shotsFault? false c shots with
  | some fault => .error fault
  | none => .ok (repeatShots (sample (start c).cumulative c.measuredQubits) shots draws .empty)

def replayShots (draws : σ) (c : LoweredCircuit (Amplitude R)) (shots : Nat) :
    Except MachineFault Counts :=
  match shotsFault? true c shots with
  | some fault => .error fault
  | none => .ok (repeatShots (replay (start c) c.after c.measuredQubits) shots draws .empty)

def runFrom (maxQubits : Nat) (draws : σ) (c : LoweredCircuit (Amplitude R)) (shots : Nat) :
    Except (Failure R) Counts :=
  if maxQubits < c.numQubits then
    .error (.malformedCircuit (.tooManyQubits c.numQubits maxQubits))
  else if c.measuredQubits.isEmpty then .error (.malformedCircuit .nothingToSample)
  else
    let counts := if c.replays then replayShots draws c shots else sampleShots draws c shots
    counts.mapError .machine

end Run

def run (s : Simulator) (c : LoweredCircuit (Amplitude Float)) (shots : Nat) :
    Except (Failure Float) Counts :=
  runFrom s.maxQubits (ChaCha.Generator.ofSeed s.seed) c shots

end Simulator

end CircuitBroker
