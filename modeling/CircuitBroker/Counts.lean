/-
  CircuitBroker/Counts.lean
  =========================
  **Counts of outcomes.**

  A `Counts` says how often each bitstring came up.  It lists every bitstring once, in the
  order of first appearance; everything asked of it (`get`, `total`, `sorted`,
  `mostFrequent`) depends only on which bitstring has which count.  Counts are 64-bit
  words: `insert?`, `ofPairs?` and `total?` add them as the build adds words, and what these
  give back is the result of `insert`, `ofPairs` and `total`, where words that overflow start
  again at zero.

  `Counts.apportion` divides a number of shots by weights: every outcome gets the whole part
  of its share, and the shots left over go to the largest remainders.
-/
import CircuitBroker.Scalar
import CircuitBroker.Word

namespace CircuitBroker

/-- How often each bitstring came up. -/
structure Counts where
  entries : List (String × UInt64)
  deriving Inhabited, DecidableEq

namespace Counts

def empty : Counts := ⟨[]⟩

def addEntry (bits : String) (count : UInt64) : List (String × UInt64) → List (String × UInt64)
  | [] => [(bits, count)]
  | (b, n) :: rest => if b = bits then (b, n + count) :: rest else (b, n) :: addEntry bits count rest

def insert (c : Counts) (bits : String) (count : UInt64) : Counts := ⟨addEntry bits count c.entries⟩

def ofPairs (pairs : List (String × UInt64)) : Counts :=
  pairs.foldl (fun c (bits, n) => c.insert bits n) empty

def get (c : Counts) (bits : String) : UInt64 :=
  match c.entries.find? (·.1 = bits) with
  | some (_, n) => n
  | none => 0

def size (c : Counts) : Nat := c.entries.length

def isEmpty (c : Counts) : Bool := c.entries.isEmpty

def total (c : Counts) : UInt64 := c.entries.foldl (fun t (_, n) => t + n) 0

section Build

variable [Build]

def insert? (c : Counts) (bits : String) (count : UInt64) : Except MachineFault Counts := do
  let _ ← Word.add (c.get bits).toNat count.toNat
  return c.insert bits count

def ofPairs? (pairs : List (String × UInt64)) : Except MachineFault Counts :=
  pairs.foldlM (fun c (bits, n) => c.insert? bits n) empty

def total? (c : Counts) : Except MachineFault UInt64 := do
  return (← Word.sum (c.entries.map (·.2.toNat))).toUInt64

end Build

def sorted (c : Counts) : List (String × UInt64) :=
  c.entries.mergeSort fun a b => decide (a.1 ≤ b.1)

/-- Of two entries the one that came up more often, and of two equal ones that with the
    smaller bitstring. -/
def preferred (a b : String × UInt64) : String × UInt64 :=
  if a.2 < b.2 then b else if b.2 < a.2 then a else if b.1 < a.1 then b else a

/-- The entry with the largest count and, among those, the smallest bitstring. -/
def mostFrequent (c : Counts) : Option (String × UInt64) :=
  match c.entries with
  | [] => none
  | e :: es => some (es.foldl preferred e)

/-! ### Apportionment -/

section Apportion

variable {R : Type} [Zero R] [Add R] [Mul R] [Div R] [Magnitude R] [Share R]

def addWeight (bits : String) (weight : R) : List (String × R) → List (String × R)
  | [] => [(bits, 0 + weight)]
  | (b, w) :: rest =>
    if b = bits then (b, w + weight) :: rest else (b, w) :: addWeight bits weight rest

/-- An outcome's share of the shots: the whole part and what is left above it. -/
structure Portion (R : Type) where
  bits : String
  whole : Nat
  remainder : R

/-- The larger remainder first; of equal ones the smaller bitstring. -/
def Portion.before (a b : Portion R) : Bool :=
  match Share.compare b.remainder a.remainder with
  | .lt => true
  | .gt => false
  | .eq => decide (a.bits ≤ b.bits)

/-- Shots divided by weights, if the weights have a positive finite sum.  Weights that are
    negative, or no number, count as zero; outcomes without shots are left out. -/
def apportion (weights : List (String × R)) (shots : Nat) : Option Counts :=
  let weights := weights.map fun (bits, w) => (bits, Magnitude.max w 0)
  let total := weights.foldl (fun t (_, w) => t + w) 0
  if !Magnitude.isFinite total || Magnitude.le total 0 then none
  else
    let portions := weights.map fun (bits, w) =>
      let exact := w / total * Share.ofNat shots
      (⟨bits, Share.floor exact, Share.fraction exact⟩ : Portion R)
    let leftover := shots - portions.foldl (fun n p => n + p.whole) 0
    let ranked := (portions.mergeSort Portion.before).zipIdx.map fun (p, rank) =>
      (p.bits, if rank < leftover then p.whole + 1 else p.whole)
    some (ofPairs ((ranked.filter (0 < ·.2)).map fun (bits, n) => (bits, n.toUInt64)))

end Apportion

end Counts

end CircuitBroker
