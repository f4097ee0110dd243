/-
  CircuitBroker/Simulation/Draws.lean
  ===================================
  **Draws from the unit interval.**

  A simulation takes its randomness from a source of draws, numbers at least zero and
  below one.  Any type will do; a run's counts are a function of the source alone.

  `ChaCha.Generator` is the source used when a seed is given: a seed is stretched to a key
  of eight words by a multiplicative generator, and each block of the twelve-round stream
  cipher under that key gives eight draws of 53 bits.
-/
import CircuitBroker.Scalar

namespace CircuitBroker

/-- A source of draws: each step gives a draw and the source of the draws after it. -/
class DrawSource (σ : Type) (R : outParam Type) where
  next : σ → R × σ

namespace ChaCha

abbrev Block := Array UInt32

def rotateLeft (x : UInt32) (bits : UInt32) : UInt32 := (x <<< bits) ||| (x >>> (32 - bits))

def quarterRound (s : Block) (a b c d : Nat) : Block :=
  let word (s : Block) (i : Nat) : UInt32 := s.getD i 0
  let mix (s : Block) (a b d : Nat) (bits : UInt32) : Block :=
    let s := s.setIfInBounds a (word s a + word s b)
    s.setIfInBounds d (rotateLeft (word s d ^^^ word s a) bits)
  mix (mix (mix (mix s a b d 16) c d b 12) a b d 8) c d b 7

/-- A round on the columns, then one on the diagonals. -/
def doubleRound (s : Block) : Block :=
  let s := quarterRound s 0 4 8 12
  let s := quarterRound s 1 5 9 13
  let s := quarterRound s 2 6 10 14
  let s := quarterRound s 3 7 11 15
  let s := quarterRound s 0 5 10 15
  let s := quarterRound s 1 6 11 12
  let s := quarterRound s 2 7 8 13
  quarterRound s 3 4 9 14

def block (key : Array UInt32) (counter : Nat) : Block :=
  let start : Block :=
    #[0x61707865, 0x3320646e, 0x79622d32, 0x6b206574] ++ key ++
      #[UInt32.ofNat counter, UInt32.ofNat (counter / UInt32.size), 0, 0]
  let mixed := (List.range 6).foldl (fun s _ => doubleRound s) start
  mixed.zipWith (· + ·) start

/-- Words in pairs, the first of each the less significant half. -/
def pairs : List UInt32 → List UInt64
  | low :: high :: rest => (low.toUInt64 ||| (high.toUInt64 <<< 32)) :: pairs rest
  | _ => []

/-- The number in `[0, 1)` given by the upper 53 bits of a word. -/
def unitOf (word : UInt64) : Float := (word >>> 11).toFloat * Float.scaleB 1.0 (-53)

/-- The draws under a key: those of the current block still to come, and the number of the
    next block. -/
structure Generator where
  key : Array UInt32
  counter : Nat
  pending : List UInt64

def Generator.next (g : Generator) : Float × Generator :=
  match g.pending with
  | w :: ws => (unitOf w, { g with pending := ws })
  | [] =>
    match pairs (block g.key g.counter).toList with
    | w :: ws => (unitOf w, { g with pending := ws, counter := g.counter + 1 })
    | [] => (0, g)

instance : DrawSource Generator Float := ⟨Generator.next⟩

/-- The next state of the generator that stretches a seed. -/
def stretch (state : UInt64) : UInt64 := state * 6364136223846793005 + 11634580027462260723

def keyWord (state : UInt64) : UInt32 :=
  let shifted := (((state >>> 18) ^^^ state) >>> 27).toUInt32
  let turn := (state >>> 59).toUInt32
  (shifted >>> turn) ||| (shifted <<< ((32 - turn) &&& 31))

def keyWords : Nat → UInt64 → List UInt32
  | 0, _ => []
  | n + 1, state => keyWord (stretch state) :: keyWords n (stretch state)

def Generator.ofSeed (seed : UInt64) : Generator :=
  { key := (keyWords 8 seed).toArray, counter := 0, pending := [] }

end ChaCha

end CircuitBroker
