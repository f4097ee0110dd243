/-
  CircuitBroker/GateMatrix.lean
  =============================
  **Square matrices of amplitudes.**

  A gate matrix is a dimension and its entries, row after row.  `ofFn` builds one from
  its entries as a function, and `get` reads an entry back; every operation is written
  with the two.  Entries come from any type `K` with the operations at hand, so that
  the algebra holds over a commutative ring and runs over doubles.

  `ofEntries?` and `ofRows?` are the checked ways in.  `identity?`, `diagonal?`, `adjoint?`,
  `kron?` and `controlled?` are the algebra as passes that write one cell after the other into
  a store of zeros.  Sizes and positions are machine words in all of these; where the words are
  the exact numbers, a pass gives the matrix of the operation without the question mark.
-/
import CircuitBroker.Amplitude
import CircuitBroker.Text.Decimal
import CircuitBroker.Word

namespace CircuitBroker

/-- A square matrix, its entries listed row after row. -/
structure GateMatrix (K : Type) where
  dim : Nat
  entries : Array K
  deriving Inhabited

inductive MatrixFault where
  | notSquare
  | notPowerOfTwo (dim : Nat)
  | wrongCount (expected got : Nat)
  | wrongArity (dim arity : Nat)
  deriving DecidableEq, Repr

/-! ### Sizes -/

def isPowerOfTwo (n : Nat) : Bool := n ≠ 0 && 1 <<< n.log2 = n

/-- How often two divides a size; all 64 bits of a word for zero. -/
def trailingZeros (n : Nat) : Nat :=
  if n = 0 then 64 else ((List.range 64).find? fun k => n.testBit k).getD 64

namespace GateMatrix

variable {K : Type}

/-! ### Entries -/

/-- The matrix of dimension `n` whose entry at row `i`, column `j` is `f i j`. -/
def ofFn (n : Nat) (f : Nat → Nat → K) : GateMatrix K :=
  ⟨n, Array.ofFn fun p : Fin (n * n) => f (p.val / n) (p.val % n)⟩

def get [Zero K] (m : GateMatrix K) (row col : Nat) : K := m.entries.getD (row * m.dim + col) 0

def numQubits (m : GateMatrix K) : Nat := trailingZeros m.dim

def rows [Zero K] (m : GateMatrix K) : List (List K) :=
  (List.range m.dim).map fun i => (List.range m.dim).map fun j => m.get i j

theorem get_ofFn [Zero K] {n : Nat} (f : Nat → Nat → K) {i j : Nat} (hi : i < n) (hj : j < n) :
    (ofFn n f).get i j = f i j := by
  have hpos : 0 < n := by omega
  have hlt : i * n + j < n * n := by
    calc i * n + j < i * n + n := by omega
      _ = (i + 1) * n := by rw [Nat.add_mul, Nat.one_mul]
      _ ≤ n * n := Nat.mul_le_mul_right n hi
  have hdiv : (i * n + j) / n = i := by
    rw [Nat.mul_comm, Nat.mul_add_div hpos, Nat.div_eq_of_lt hj, Nat.add_zero]
  have hmod : (i * n + j) % n = j := by
    rw [Nat.mul_comm, Nat.mul_add_mod, Nat.mod_eq_of_lt hj]
  simp [get, ofFn, Array.getD, hlt, hdiv, hmod]

/-! ### Checked construction -/

/-- Entries listed row after row, if the dimension is a power of two and its square their
    number. -/
def ofEntries? [Build] (dim : Nat) (entries : Array K) :
    Except MachineFault (Except MatrixFault (GateMatrix K)) := do
  if !isPowerOfTwo dim then return .error (.notPowerOfTwo dim)
  let count ← Word.mul dim dim
  if entries.size ≠ count then return .error (.wrongCount count entries.size)
  return .ok ⟨dim, entries⟩

def ofRows? [Build] (rows : List (List K)) :
    Except MachineFault (Except MatrixFault (GateMatrix K)) :=
  if rows.any (·.length ≠ rows.length) then .ok (.error .notSquare)
  else ofEntries? rows.length rows.flatten.toArray

/-! ### Algebra -/

def one [Zero K] [One K] (n : Nat) : GateMatrix K := ofFn n fun i j => if i = j then 1 else 0

def identity [Zero K] [One K] (numQubits : Nat) : GateMatrix K := one (1 <<< numQubits)

def diagonal [Zero K] (entries : List K) : GateMatrix K :=
  ofFn entries.length fun i j => if i = j then entries.getD i 0 else 0

/-- The matrix with a one in row `image[j]` of every column `j`. -/
def permutation [Zero K] [One K] (image : List Nat) : GateMatrix K :=
  ofFn image.length fun i j => if image.getD j 0 = i then 1 else 0

/-- The product.  A zero entry of the left factor adds nothing, whatever it meets. -/
def mul [Zero K] [Add K] [Mul K] [BEq K] (a b : GateMatrix K) : GateMatrix K :=
  ofFn a.dim fun i j =>
    (List.range a.dim).foldl
      (fun acc k => if a.get i k == 0 then acc else acc + a.get i k * b.get k j) 0

def adjoint [Zero K] [Conjugate K] (a : GateMatrix K) : GateMatrix K :=
  ofFn a.dim fun i j => Conjugate.conj (a.get j i)

/-- The tensor product, the left factor on the more significant bits. -/
def kron [Zero K] [Mul K] (a b : GateMatrix K) : GateMatrix K :=
  ofFn (a.dim * b.dim) fun i j =>
    a.get (i / b.dim) (j / b.dim) * b.get (i % b.dim) (j % b.dim)

def scaled [Mul K] (a : GateMatrix K) (factor : K) : GateMatrix K :=
  ⟨a.dim, a.entries.map (· * factor)⟩

def add [Add K] (a b : GateMatrix K) : GateMatrix K :=
  ⟨a.dim, a.entries.zipWith (· + ·) b.entries⟩

/-- The block matrix that acts as `base` where `numControls` further, more significant bits
    are all one, and as the identity elsewhere. -/
def controlled [Zero K] [One K] (base : GateMatrix K) (numControls : Nat) : GateMatrix K :=
  let n := base.dim <<< numControls
  let offset := n - base.dim
  ofFn n fun i j =>
    if offset ≤ i ∧ offset ≤ j then base.get (i - offset) (j - offset)
    else if i = j then 1 else 0

def apply [Zero K] [Add K] [Mul K] (a : GateMatrix K) (v : Array K) : Array K :=
  Array.ofFn fun i : Fin a.dim =>
    (List.range a.dim).foldl (fun acc j => acc + a.get i j * v.getD j 0) 0

/-! ### Passes over the cells -/

section Passes

variable [Build]

/-- As many zeros as a matrix of dimension `n` has cells. -/
def zeros? [Zero K] (n : Nat) : Except MachineFault (Array K) := do
  return Array.replicate (← Word.mul n n) 0

def read? (m : GateMatrix K) (row col : Nat) : Except MachineFault K := do
  match m.entries[← Word.cell m.dim row col]? with
  | some entry => return entry
  | none => throw .indexOutOfRange

def write? (n : Nat) (cells : Array K) (row col : Nat) (entry : K) :
    Except MachineFault (Array K) := do
  let position ← Word.cell n row col
  if position < cells.size then return cells.setIfInBounds position entry
  else throw .indexOutOfRange

def writeDiagonal? (n : Nat) (entries : List K) (cells : Array K) :
    Except MachineFault (Array K) :=
  entries.zipIdx.foldlM (fun cells (entry, i) => write? n cells i i entry) cells

def identity? [Zero K] [One K] (numQubits : Nat) : Except MachineFault (GateMatrix K) := do
  let n ← Word.bit numQubits
  let cells ← zeros? n
  return ⟨n, ← writeDiagonal? n (List.replicate n 1) cells⟩

def diagonal? [Zero K] (entries : List K) : Except MachineFault (GateMatrix K) := do
  let cells ← zeros? entries.length
  return ⟨entries.length, ← writeDiagonal? entries.length entries cells⟩

/-- The pairs of a row and a column below `n`, row after row. -/
def square (n : Nat) : List (Nat × Nat) :=
  (List.range n).flatMap fun i => (List.range n).map fun j => (i, j)

def adjoint? [Zero K] [Conjugate K] (a : GateMatrix K) : Except MachineFault (GateMatrix K) := do
  let cells ← zeros? a.dim
  let cells ← (square a.dim).foldlM
    (fun cells (i, j) => do write? a.dim cells j i (Conjugate.conj (← a.read? i j))) cells
  return ⟨a.dim, cells⟩

/-- The block of a tensor product that one entry of the left factor scales. -/
def writeBlock? [Mul K] (n row col : Nat) (factor : K) (b : GateMatrix K) (cells : Array K) :
    Except MachineFault (Array K) :=
  (square b.dim).foldlM
    (fun cells (k, l) => do
      let entry ← b.read? k l
      write? n cells (← Word.cell b.dim row k) (← Word.cell b.dim col l) (factor * entry))
    cells

def kron? [Zero K] [Mul K] (a b : GateMatrix K) : Except MachineFault (GateMatrix K) := do
  let n ← Word.mul a.dim b.dim
  let cells ← zeros? n
  let cells ← (square a.dim).foldlM
    (fun cells (i, j) => do writeBlock? n i j (← a.read? i j) b cells) cells
  return ⟨n, cells⟩

def controlled? [Zero K] [One K] (base : GateMatrix K) (numControls : Nat) :
    Except MachineFault (GateMatrix K) := do
  let n ← Word.shiftLeft base.dim numControls
  let offset ← Word.sub n base.dim
  let cells ← zeros? n
  let cells ← writeDiagonal? n (List.replicate offset 1) cells
  let cells ← (square base.dim).foldlM
    (fun cells (i, j) => do
      let entry ← base.read? i j
      write? n cells (← Word.add offset i) (← Word.add offset j) entry)
    cells
  return ⟨n, cells⟩

end Passes

/-! ### Closeness -/

variable {R : Type} [Zero R] [One R] [Add R] [Sub R] [Neg R] [Mul R] [BEq R] [Magnitude R]

/-- The largest modulus of an entry of `U†U - 1`; entries that are no number are passed
    over by `Magnitude.max`. -/
def unitarityDeviation (u : GateMatrix (Amplitude R)) : R :=
  let product := u.adjoint.mul u
  (List.range u.dim).foldl
    (fun worst i =>
      (List.range u.dim).foldl
        (fun worst j =>
          let expected : R := if i = j then 1 else 0
          Magnitude.max worst (product.get i j - Amplitude.ofReal expected).modulus)
        worst)
    0

def isUnitary (u : GateMatrix (Amplitude R)) (tolerance : R) : Bool :=
  Magnitude.le u.unitarityDeviation tolerance

/-- The deviation of a matrix that is farther from unitary than a gate may be. -/
def excessDeviation? (u : GateMatrix (Amplitude R)) : Option R :=
  let deviation := u.unitarityDeviation
  if Magnitude.lt Magnitude.tolerance deviation then some deviation else none

/-- Whether two matrices have one dimension and no two entries farther apart than a
    tolerance. -/
def approxEq (a b : GateMatrix (Amplitude R)) (tolerance : R) : Bool :=
  a.dim == b.dim &&
    (a.entries.toList.zip b.entries.toList).all fun (x, y) =>
      Magnitude.le (x - y).modulus tolerance

/-- One line a row, every part with its sign and three places. -/
def render (m : GateMatrix (Amplitude Float)) : String :=
  let part (x : Float) : String := Decimal.signed x (Decimal.fixed 3 x)
  String.join (m.rows.map fun row =>
    "[" ++ ", ".intercalate (row.map fun c => part c.re ++ part c.im ++ "i") ++ "]\n")

end GateMatrix

end CircuitBroker
