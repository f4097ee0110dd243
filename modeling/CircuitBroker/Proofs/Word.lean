/-
  CircuitBroker/Proofs/Word.lean
  ==============================
  **Bits and sums of machine words.**

  The word with one bit is a power of two, of the position up to whole words (`bit_eq_ok_iff`).
  Words are added one after the other, and what comes of it is their sum up to whole words, or a
  fault exactly if the sum is no word in a build that checks (`sum_eq_ok_iff`,
  `sum_eq_error_iff`): it does not matter where in the list the word was left.
-/
import CircuitBroker.Word
import Mathlib

namespace CircuitBroker.Word

section Build

variable [Build]

theorem bit_eq_ok_iff {position word : Nat} :
    bit position = .ok word ↔
      (position < 64 ∨ Build.checks = false) ∧ 2 ^ (position % 64) = word := by
  have hword : 1 <<< (position % 64) % wordSize = 2 ^ (position % 64) := by
    rw [Nat.one_shiftLeft]
    exact Nat.mod_eq_of_lt (Nat.pow_lt_pow_right (by decide) (Nat.mod_lt _ (by decide)))
  rw [bit, shiftLeft_eq_ok_iff, hword]

theorem foldlM_add_eq_ok_iff {ns : List Nat} {start word : Nat} (hstart : start < wordSize) :
    ns.foldlM add start = .ok word ↔
      (start + ns.sum < wordSize ∨ Build.checks = false) ∧ (start + ns.sum) % wordSize = word := by
  induction ns generalizing start with
  | nil => simp [pure, Except.pure, hstart, Nat.mod_eq_of_lt hstart]
  | cons n ns ih =>
    rw [List.foldlM_cons, List.sum_cons, ← Nat.add_assoc, add, reduce]
    split
    case isTrue h => exact ih h
    case isFalse h =>
      have hlarge : ¬ start + n + ns.sum < wordSize := fun hsum =>
        h (Nat.lt_of_le_of_lt (Nat.le_add_right _ _) hsum)
      split
      case isTrue hchecks => simp [bind, Except.bind, hlarge, hchecks]
      case isFalse hwraps =>
        refine (ih (Nat.mod_lt _ (by decide))).trans ?_
        simp [hwraps]

theorem sum_eq_ok_iff {ns : List Nat} {word : Nat} :
    sum ns = .ok word ↔ (ns.sum < wordSize ∨ Build.checks = false) ∧ ns.sum % wordSize = word := by
  have hsum : ns.foldlM add 0 = .ok word ↔
      (0 + ns.sum < wordSize ∨ Build.checks = false) ∧ (0 + ns.sum) % wordSize = word :=
    foldlM_add_eq_ok_iff (by decide)
  rwa [Nat.zero_add] at hsum

theorem foldlM_add_eq_error {ns : List Nat} {start : Nat} {fault : MachineFault}
    (h : ns.foldlM add start = .error fault) : fault = .overflow := by
  induction ns generalizing start with
  | nil => cases h
  | cons n ns ih =>
    rw [List.foldlM_cons] at h
    match hadd : add start n with
    | .ok next =>
      rw [hadd] at h
      exact ih h
    | .error early =>
      rw [hadd] at h
      cases h
      exact (reduce_eq_error_iff.mp hadd).2.symm

theorem sum_eq_error_iff {ns : List Nat} {fault : MachineFault} :
    sum ns = .error fault ↔ (wordSize ≤ ns.sum ∧ Build.checks = true) ∧ .overflow = fault := by
  have hbuild : (wordSize ≤ ns.sum ∧ Build.checks = true) ↔
      ¬ (ns.sum < wordSize ∨ Build.checks = false) := by
    rw [not_or, Nat.not_lt, Bool.not_eq_false]
  rw [hbuild]
  match h : sum ns with
  | .ok word => exact ⟨nofun, fun hfault => absurd (sum_eq_ok_iff.mp h).1 hfault.1⟩
  | .error early =>
    obtain rfl := foldlM_add_eq_error h
    refine ⟨fun hsame => ⟨fun hwords => ?_, Except.error.inj hsame⟩, fun hfault => by rw [hfault.2]⟩
    rw [sum_eq_ok_iff.mpr ⟨hwords, rfl⟩] at h
    cases h

theorem foldlM_add_of_lt {ns : List Nat} (start : Nat) (h : start + ns.sum < wordSize) :
    ns.foldlM add start = .ok (start + ns.sum) := by
  induction ns generalizing start with
  | nil => rfl
  | cons n ns ih =>
    rw [List.sum_cons, ← Nat.add_assoc] at h
    rw [List.foldlM_cons, add_of_lt (Nat.lt_of_le_of_lt (Nat.le_add_right _ _) h)]
    exact (ih _ h).trans (by rw [List.sum_cons, Nat.add_assoc])

theorem sum_of_lt {ns : List Nat} (h : ns.sum < wordSize) : sum ns = .ok ns.sum := by
  simpa [sum] using foldlM_add_of_lt 0 (by simpa using h)

end Build

end CircuitBroker.Word
