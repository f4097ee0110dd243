/-
  CircuitBroker/Simulation/Statevector.lean
  =========================================
  **State vectors.**

  A state of `n` qubits has an amplitude for each index below `1 <<< n`; bit `q` of an index
  is the value of qubit `q`.  A matrix is applied in place, one orbit after the other:
  the indices that agree outside the targets.  Local bit `k - 1 - j` of a row or column
  number is target `j`, so the first target is the most significant.

  `zero`, `applyMatrix`, `probabilityOne` and `measure` say what becomes of the amplitudes, with
  indices and masks as numbers.  A program holds these in words, in a build that checks its
  arithmetic: `zero?`, `applyMatrix?`, `probabilityOne?` and `measure?` are the same operations
  with the fault that ends them where a word overflows or an index is out of range.
-/
import CircuitBroker.GateMatrix

namespace CircuitBroker

variable {R K : Type}

structure Statevector (K : Type) (n : Nat) where
  amplitudes : Array K
  size_amplitudes : amplitudes.size = 1 <<< n

namespace Statevector

/-! ### Indices -/

/-- The index whose only bits are those of some qubits; a qubit listed twice counts twice. -/
def mask (qubits : List Nat) : Nat := qubits.foldl (fun m q => m + 1 <<< q) 0

/-- The indices of an orbit relative to its least one, in the order of the matrix rows. -/
def offsets (targets : List Nat) : List Nat :=
  (List.range (1 <<< targets.length)).map fun local' =>
    targets.zipIdx.foldl (fun o (q, j) =>
      if local'.testBit (targets.length - 1 - j) then o + 1 <<< q else o) 0

/-- Whether an index is the least of an orbit that the controls let through. -/
def isBase (targets controls : List Nat) (index : Nat) : Bool :=
  index &&& mask targets == 0 && index &&& mask controls == mask controls

/-! ### Gates -/

def zero [Zero K] [One K] (n : Nat) : Statevector K n where
  amplitudes := Array.ofFn fun i : Fin (1 <<< n) => if i.val = 0 then 1 else 0
  size_amplitudes := by simp

def rowTimes [Zero K] [Add K] [Mul K] (m : GateMatrix K) (row : Nat) (column : List K) : K :=
  column.zipIdx.foldl (fun acc (a, col) => acc + m.get row col * a) 0

/-- The amplitudes after one orbit, from its least index, has been multiplied by a matrix:
    all of the orbit is read before any of it is written. -/
def updateOrbit [Zero K] [Add K] [Mul K] (m : GateMatrix K) (offsets : List Nat)
    (amplitudes : Array K) (base : Nat) : Array K :=
  let column := offsets.map fun o => amplitudes.getD (base ||| o) 0
  offsets.zipIdx.foldl
    (fun amplitudes (o, row) => amplitudes.setIfInBounds (base ||| o) (rowTimes m row column))
    amplitudes

theorem size_updateOrbit [Zero K] [Add K] [Mul K] (m : GateMatrix K) (os : List Nat)
    (a : Array K) (base : Nat) : (updateOrbit m os a base).size = a.size := by
  simp only [updateOrbit]
  generalize os.zipIdx = rows
  generalize os.map (fun o => a.getD (base ||| o) 0) = column
  induction rows generalizing a with
  | nil => rfl
  | cons r rs ih => simp only [List.foldl_cons]; rw [ih, Array.size_setIfInBounds]

def updateOrbits [Zero K] [Add K] [Mul K] (m : GateMatrix K) (targets controls : List Nat)
    (amplitudes : Array K) (bases : List Nat) : Array K :=
  let offsets := offsets targets
  bases.foldl
    (fun amplitudes base =>
      if isBase targets controls base then updateOrbit m offsets amplitudes base else amplitudes)
    amplitudes

theorem size_updateOrbits [Zero K] [Add K] [Mul K] (m : GateMatrix K) (ts cs : List Nat)
    (a : Array K) (bases : List Nat) : (updateOrbits m ts cs a bases).size = a.size := by
  simp only [updateOrbits]
  induction bases generalizing a with
  | nil => rfl
  | cons b bs ih =>
    simp only [List.foldl_cons]; rw [ih]; split
    · exact size_updateOrbit m _ a b
    · rfl

/-- The state after a matrix on targets, where all controls are one. -/
def applyMatrix [Zero K] [Add K] [Mul K] {n : Nat} (ψ : Statevector K n) (m : GateMatrix K)
    (targets controls : List Nat) : Statevector K n where
  amplitudes := updateOrbits m targets controls ψ.amplitudes (List.range (1 <<< n))
  size_amplitudes := by rw [size_updateOrbits, ψ.size_amplitudes]

/-- Whether applying a matrix to `n` qubits touches only amplitudes of the state and entries
    of the matrix. -/
def fits (n : Nat) (m : GateMatrix K) (targets controls : List Nat) : Bool :=
  let offsets := offsets targets
  ((List.range (1 <<< n)).filter (isBase targets controls)).all fun base =>
    offsets.all fun o => base ||| o < 1 <<< n &&
      (offsets.length - 1) * m.dim + (offsets.length - 1) < m.entries.size

/-! ### Measurements -/

variable [Zero R] [Add R] [Mul R]

def probabilities {n : Nat} (ψ : Statevector (Amplitude R) n) : List R :=
  ψ.amplitudes.toList.map Amplitude.normSq

def probabilityOne {n : Nat} (ψ : Statevector (Amplitude R) n) (qubit : Nat) : R :=
  ((ψ.probabilities.zipIdx.filter fun (_, i) => i.testBit qubit).map (·.1)).foldl (· + ·) 0

/-- The state after a qubit has been found to have a value: amplitudes of the other value
    vanish, the others are divided by a norm unless it is zero. -/
def project [Div R] [Magnitude R] {n : Nat} (ψ : Statevector (Amplitude R) n) (qubit : Nat)
    (outcome : Bool) (norm : R) : Statevector (Amplitude R) n where
  amplitudes := ψ.amplitudes.mapIdx fun i a =>
    if i.testBit qubit = outcome then
      if Magnitude.lt 0 norm then a.divide norm else a
    else 0
  size_amplitudes := by rw [Array.size_mapIdx, ψ.size_amplitudes]

/-- Measures a qubit with a draw: the value is one if the draw is below its probability. -/
def measure [One R] [Sub R] [Div R] [Elementary R] [Magnitude R] {n : Nat}
    (ψ : Statevector (Amplitude R) n) (qubit : Nat) (draw : R) :
    Bool × Statevector (Amplitude R) n :=
  let p := ψ.probabilityOne qubit
  let outcome := Magnitude.lt draw p
  (outcome, ψ.project qubit outcome (Elementary.sqrt (if outcome then p else 1 - p)))

/-! ### Words -/

def mask? (qubits : List Nat) : Except MachineFault Nat := do Word.sum (← qubits.mapM Word.bit)

/-- What ends the application of a matrix to `n` qubits: a block or a mask that is no word, or
    an index out of range.  The offsets are sums of a part of the target mask. -/
def gateFault? {K : Type} (n : Nat) (m : GateMatrix K) (targets controls : List Nat) :
    Option MachineFault :=
  let words : Except MachineFault Nat := do
    let _ ← Word.bit targets.length
    let _ ← mask? targets
    mask? controls
  match words with
  | .error fault => some fault
  | .ok _ => if fits n m targets controls then none else some .indexOutOfRange

def zero? {K : Type} [Zero K] [One K] (n : Nat) : Except MachineFault (Statevector K n) := do
  let _ ← Word.bit n
  return zero n

def applyMatrix? {K : Type} [Zero K] [Add K] [Mul K] {n : Nat} (ψ : Statevector K n)
    (m : GateMatrix K) (targets controls : List Nat) : Except MachineFault (Statevector K n) :=
  match gateFault? n m targets controls with
  | some fault => .error fault
  | none => .ok (ψ.applyMatrix m targets controls)

def probabilityOne? {n : Nat} (ψ : Statevector (Amplitude R) n) (qubit : Nat) :
    Except MachineFault R := do
  let _ ← Word.bit qubit
  return ψ.probabilityOne qubit

def measure? [One R] [Sub R] [Div R] [Elementary R] [Magnitude R] {n : Nat}
    (ψ : Statevector (Amplitude R) n) (qubit : Nat) (draw : R) :
    Except MachineFault (Bool × Statevector (Amplitude R) n) := do
  let _ ← Word.bit qubit
  return ψ.measure qubit draw

/-! ### Samples -/

def runningSums : R → List R → List R
  | _, [] => []
  | acc, x :: xs => (acc + x) :: runningSums (acc + x) xs

def cumulative {n : Nat} (ψ : Statevector (Amplitude R) n) : List R :=
  runningSums 0 ψ.probabilities

end Statevector

/-- The first position whose cumulative weight exceeds `draw` times the total weight, and
    the last position if there is none. -/
def sampleIndex [Zero R] [Mul R] [Magnitude R] (cumulative : List R) (draw : R) : Nat :=
  let total := cumulative.getLast?.getD 0
  let r := draw * total
  Nat.min (cumulative.takeWhile fun c => Magnitude.le c r).length (cumulative.length - 1)

end CircuitBroker
