/-
  CircuitBroker/Word.lean
  =======================
  **Machine words.**

  Sizes, counts and positions of bits are machine words.  Where a result is no word the build
  decides: one that checks its arithmetic ends with a fault of the machine, one that does not
  goes on with what is left of the result modulo the number of words.  A result that is a word
  is the same in both (`Word.reduce_of_lt`), which is how theorems about numbers speak of
  programs.
-/

namespace CircuitBroker

/-- A computation of the machine that has no result. -/
inductive MachineFault where
  | indexOutOfRange
  | timeOutOfRange
  | widthBelowZero
  | overflow
  deriving DecidableEq

def MachineFault.message : MachineFault → String
  | .indexOutOfRange => "index out of range"
  | .timeOutOfRange => "instant out of range"
  | .widthBelowZero => "width below zero"
  | .overflow => "arithmetic overflow"

class Build where
  /-- Whether a result that is no word is a fault. -/
  checks : Bool

/-- The build that programs are run in. -/
instance (priority := low) checkedBuild : Build := ⟨true⟩

@[reducible] def wrappingBuild : Build := ⟨false⟩

/-- Number of values of a machine word. -/
def wordSize : Nat := UInt64.size

namespace Word

section Build

variable [Build]

/-- A number as one of `size` values. -/
def reduce (size n : Nat) : Except MachineFault Nat :=
  if n < size then .ok n else if Build.checks then .error .overflow else .ok (n % size)

def add (a b : Nat) : Except MachineFault Nat := reduce wordSize (a + b)

def mul (a b : Nat) : Except MachineFault Nat := reduce wordSize (a * b)

/-- A difference below zero is counted back from the number of words. -/
def sub (a b : Nat) : Except MachineFault Nat :=
  if b ≤ a then .ok (a - b)
  else if Build.checks then .error .overflow
  else .ok (a + wordSize - b)

def sum (ns : List Nat) : Except MachineFault Nat := ns.foldlM add 0

/-- A word moved up by some positions, of which there are 64.  What leaves the word is lost in
    either build. -/
def shiftLeft (a positions : Nat) : Except MachineFault Nat := do
  return a <<< (← reduce 64 positions) % wordSize

def bit (position : Nat) : Except MachineFault Nat := shiftLeft 1 position

/-- The position of a cell among rows of one width. -/
def cell (width row col : Nat) : Except MachineFault Nat := do add (← mul row width) col

/-! ### Both builds -/

theorem reduce_eq_ok_iff {size n m : Nat} :
    reduce size n = .ok m ↔ (n < size ∨ Build.checks = false) ∧ n % size = m := by
  rw [reduce]
  split
  case isTrue h => simp [h, Nat.mod_eq_of_lt h]
  case isFalse h =>
    split
    case isTrue hchecks => simp [h, hchecks]
    case isFalse hwraps => simp [hwraps]

/-- What is no fault. -/
theorem not_overflow_iff {size n : Nat} :
    ¬(Build.checks = true ∧ size ≤ n) ↔ n < size ∨ Build.checks = false := by
  rw [Decidable.not_and_iff_or_not, Nat.not_le, Bool.not_eq_true, Or.comm]

theorem reduce_eq_error_iff {size n : Nat} {fault : MachineFault} :
    reduce size n = .error fault ↔ (size ≤ n ∧ Build.checks = true) ∧ .overflow = fault := by
  rw [reduce]
  split
  case isTrue h => simp [Nat.not_le.mpr h]
  case isFalse h =>
    split
    case isTrue hchecks => simp [Nat.not_lt.mp h, hchecks]
    case isFalse hwraps => simp [hwraps]

theorem reduce_of_wraps (h : Build.checks = false) (size n : Nat) :
    reduce size n = .ok (n % size) := reduce_eq_ok_iff.mpr ⟨.inr h, rfl⟩

theorem shiftLeft_eq_ok_iff {a positions word : Nat} :
    shiftLeft a positions = .ok word ↔
      (positions < 64 ∨ Build.checks = false) ∧ a <<< (positions % 64) % wordSize = word := by
  rw [shiftLeft]
  match h : reduce 64 positions with
  | .ok p =>
    obtain ⟨hbuild, rfl⟩ := reduce_eq_ok_iff.mp h
    exact ⟨fun hok => ⟨hbuild, Except.ok.inj hok⟩, fun hok => congrArg Except.ok hok.2⟩
  | .error _ =>
    obtain ⟨⟨hlarge, hchecks⟩, rfl⟩ := reduce_eq_error_iff.mp h
    simp [bind, Except.bind, hchecks, Nat.not_lt.mpr hlarge]

theorem bit_eq_error_iff {position : Nat} {fault : MachineFault} :
    bit position = .error fault ↔ (64 ≤ position ∧ Build.checks = true) ∧ .overflow = fault := by
  rw [← reduce_eq_error_iff, bit, shiftLeft]
  cases reduce 64 position <;> simp [bind, Except.bind, pure, Except.pure]

/-- Counting on from what is left of a number is counting on from the number. -/
theorem reduce_succ {size n m : Nat} (h : reduce size n = .ok m) :
    reduce size (m + 1) = reduce size (n + 1) := by
  obtain ⟨hbuild, rfl⟩ := reduce_eq_ok_iff.mp h
  by_cases hlt : n < size
  · rw [Nat.mod_eq_of_lt hlt]
  · have hwraps : Build.checks = false := hbuild.resolve_left hlt
    have hreduce : ∀ k, reduce size k = .ok (k % size) := fun k =>
      reduce_eq_ok_iff.mpr ⟨.inr hwraps, rfl⟩
    rw [hreduce, hreduce, Nat.mod_add_mod]

/-! ### What is a word already -/

@[simp] theorem reduce_of_lt {size n : Nat} (h : n < size) : reduce size n = .ok n := if_pos h

theorem add_of_lt {a b : Nat} (h : a + b < wordSize) : add a b = .ok (a + b) := reduce_of_lt h

theorem mul_of_lt {a b : Nat} (h : a * b < wordSize) : mul a b = .ok (a * b) := reduce_of_lt h

theorem sub_of_le {a b : Nat} (h : b ≤ a) : sub a b = .ok (a - b) := if_pos h

theorem shiftLeft_of_lt {a positions : Nat} (hpos : positions < 64)
    (h : a <<< positions < wordSize) : shiftLeft a positions = .ok (a <<< positions) := by
  rw [shiftLeft, reduce_of_lt hpos]
  exact congrArg Except.ok (Nat.mod_eq_of_lt h)

theorem bit_of_lt {position : Nat} (h : position < 64) : bit position = .ok (1 <<< position) :=
  shiftLeft_of_lt h <| by
    rw [Nat.one_shiftLeft]
    exact Nat.pow_lt_pow_right (by decide) h

theorem cell_of_lt {width row col : Nat} (h : row * width + col < wordSize) :
    cell width row col = .ok (row * width + col) := by
  rw [cell, mul_of_lt (Nat.lt_of_le_of_lt (Nat.le_add_right _ _) h)]
  exact add_of_lt h

end Build

end Word

end CircuitBroker
