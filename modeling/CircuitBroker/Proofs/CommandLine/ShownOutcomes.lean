/-
  CircuitBroker/Proofs/CommandLine/ShownOutcomes.lean
  ===================================================
  **Which outcomes a person is shown, and in which order.**

  A list of outcomes that breaks off shows those with the smallest bitstrings, ascending
  (`shows_sorted`).  Whether an outcome is among them is a matter of the bitstrings below its
  own, and its count has no say in it (`Shows.mem_shown_iff`).  So the most frequent outcomes are
  the ones shown, and come first, exactly if no shown outcome is less frequent than one with a
  larger bitstring (`Shows.mostFrequentFirst_iff`, `Shows.mostFrequent_iff`).
-/
import CircuitBroker.CommandLine.Report
import CircuitBroker.Proofs.Counts.Sorted

namespace CircuitBroker.Report

/-! ## 1. Lists that break off -/

/-- What a list of at most `limit` outcomes shows of some counts, and what it leaves out: the
    bitstrings ascend through both. -/
structure Shows (c : Counts) (limit : Nat) (shown omitted : List (String × UInt64)) : Prop where
  perm : (shown ++ omitted).Perm c.entries
  length : shown.length = min limit c.size
  ascending : (shown ++ omitted).Pairwise fun a b => a.1 < b.1

/-- Which of two outcomes belongs in front: the more frequent one, and of two equally frequent
    ones that with the smaller bitstring. -/
def Outranks (a b : String × UInt64) : Prop := b.2 < a.2 ∨ a.2 = b.2 ∧ a.1 < b.1

instance : DecidableRel Outranks := fun a b =>
  inferInstanceAs (Decidable (b.2 < a.2 ∨ a.2 = b.2 ∧ a.1 < b.1))

theorem Outranks.le {a b : String × UInt64} (h : Outranks a b) : b.2 ≤ a.2 :=
  h.elim UInt64.le_of_lt fun heq => UInt64.le_of_eq heq.1.symm

/-- None of the outcomes left out is more frequent than one that is shown. -/
def MostFrequent (shown omitted : List (String × UInt64)) : Prop :=
  ∀ s ∈ shown, ∀ o ∈ omitted, o.2 ≤ s.2

/-- The outcomes shown are the most frequent ones, the more frequent in front. -/
def MostFrequentFirst (shown omitted : List (String × UInt64)) : Prop :=
  shown.Pairwise Outranks ∧ MostFrequent shown omitted

section Shows

variable {c : Counts} {limit : Nat} {shown omitted : List (String × UInt64)}

theorem shows_sorted (hkeys : (c.entries.map Prod.fst).Nodup) (limit : Nat) :
    Shows c limit (c.sorted.take limit) (c.sorted.drop limit) where
  perm := (List.take_append_drop limit c.sorted).symm ▸ c.sorted_perm
  length := by rw [List.length_take, c.length_sorted]
  ascending := (List.take_append_drop limit c.sorted).symm ▸ Counts.sorted_ascending hkeys

namespace Shows

theorem mem_iff (h : Shows c limit shown omitted) {entry : String × UInt64} :
    entry ∈ c.entries ↔ entry ∈ shown ∨ entry ∈ omitted := by
  rw [← h.perm.mem_iff, List.mem_append]

/-- There is one way to break off. -/
theorem eq_sorted (h : Shows c limit shown omitted) (hkeys : (c.entries.map Prod.fst).Nodup) :
    shown = c.sorted.take limit ∧ omitted = c.sorted.drop limit := by
  have hsorted := shows_sorted hkeys limit
  have happend : shown ++ omitted = c.sorted.take limit ++ c.sorted.drop limit :=
    List.Perm.eq_of_pairwise (fun a b _ _ hab hba => absurd hab (lt_asymm hba)) h.ascending
      hsorted.ascending (h.perm.trans hsorted.perm.symm)
  exact List.append_inj happend (h.length.trans hsorted.length.symm)

/-- **An outcome is shown if fewer than `limit` outcomes have smaller bitstrings**, however often
    it came up. -/
theorem mem_shown_iff (h : Shows c limit shown omitted)
    (hkeys : (c.entries.map Prod.fst).Nodup) (entry : String × UInt64) :
    entry ∈ shown ↔ entry ∈ c.entries ∧ c.below entry.1 < limit := by
  rw [(h.eq_sorted hkeys).1]
  exact Counts.mem_take_sorted_iff hkeys limit entry

/-- What is left out has larger bitstrings than what is shown. -/
theorem lt_of_omitted (h : Shows c limit shown omitted) {s o : String × UInt64} (hs : s ∈ shown)
    (ho : o ∈ omitted) : s.1 < o.1 :=
  (List.pairwise_append.mp h.ascending).2.2 s hs o ho

theorem mem_omitted_iff (h : Shows c limit shown omitted)
    (hkeys : (c.entries.map Prod.fst).Nodup) (entry : String × UInt64) :
    entry ∈ omitted ↔ entry ∈ c.entries ∧ limit ≤ c.below entry.1 := by
  have hshown := h.mem_shown_iff hkeys entry
  constructor
  · intro ho
    have hentry := h.mem_iff.mpr (.inr ho)
    refine ⟨hentry, Nat.le_of_not_lt fun hbelow => ?_⟩
    exact lt_irrefl _ (h.lt_of_omitted (hshown.mpr ⟨hentry, hbelow⟩) ho)
  · rintro ⟨hentry, hbelow⟩
    exact (h.mem_iff.mp hentry).resolve_left fun hs => Nat.not_lt_of_le hbelow (hshown.mp hs).2

/-- The most frequent outcomes are shown exactly if no outcome with `limit` smaller bitstrings
    is more frequent than one with fewer. -/
theorem mostFrequent_iff (h : Shows c limit shown omitted)
    (hkeys : (c.entries.map Prod.fst).Nodup) :
    MostFrequent shown omitted ↔ ∀ s ∈ c.entries, ∀ o ∈ c.entries,
      c.below s.1 < limit → limit ≤ c.below o.1 → o.2 ≤ s.2 := by
  constructor
  · intro hmost s hs o ho hfew hmany
    exact hmost s ((h.mem_shown_iff hkeys s).mpr ⟨hs, hfew⟩) o
      ((h.mem_omitted_iff hkeys o).mpr ⟨ho, hmany⟩)
  · intro hle s hs o ho
    obtain ⟨hs, hfew⟩ := (h.mem_shown_iff hkeys s).mp hs
    obtain ⟨ho, hmany⟩ := (h.mem_omitted_iff hkeys o).mp ho
    exact hle s hs o ho hfew hmany

/-- **The most frequent outcomes come first** exactly if no shown outcome is less frequent than
    one with a larger bitstring. -/
theorem mostFrequentFirst_iff (h : Shows c limit shown omitted) :
    MostFrequentFirst shown omitted ↔
      ∀ s ∈ shown, ∀ e ∈ c.entries, s.1 < e.1 → e.2 ≤ s.2 := by
  have hascending := (List.pairwise_append.mp h.ascending).1
  constructor
  · rintro ⟨hranked, hmost⟩ s hs e he hlt
    rcases h.mem_iff.mp he with hshown | homitted
    · -- Of two shown outcomes the one with the smaller bitstring stands in front.
      obtain ⟨front, back, rfl⟩ := List.append_of_mem hs
      rw [List.pairwise_append, List.pairwise_cons] at hascending hranked
      rcases List.mem_append.mp hshown with hfront | hrest
      · exact absurd hlt (lt_asymm (hascending.2.2 e hfront s List.mem_cons_self))
      · rcases List.mem_cons.mp hrest with rfl | hback
        · exact absurd hlt (lt_irrefl _)
        · exact (hranked.2.1.1 e hback).le
    · exact hmost s hs e homitted
  · intro hle
    refine ⟨?_, fun s hs o ho => hle s hs o (h.mem_iff.mpr (.inr ho)) (h.lt_of_omitted hs ho)⟩
    refine hascending.imp_of_mem fun {s e} hs he hlt => ?_
    rcases UInt64.lt_or_eq_of_le (hle s hs e (h.mem_iff.mpr (.inl he)) hlt) with hless | heq
    · exact .inl hless
    · exact .inr ⟨heq.symm, hlt⟩

end Shows

end Shows

/-! ## 2. Lines -/

/-- What the shares of a result's counts are shares of: all of them, or one if there are none. -/
def whole (c : Counts) : Float := (if c.total = 0 then 1 else c.total).toFloat

def omittedLines (omitted : Nat) : List String :=
  if omitted = 0 then [] else ["  ... and " ++ toString omitted ++ " more outcomes"]

/-- The counts of a result put the lines of the outcomes between its heading and its end. -/
theorem resultLines_eq (r : ExecutionResult) : ∃ heading ending,
    resultLines { r with counts := .empty } = heading ++ ending ∧
    resultLines r = heading ++ ((r.counts.sorted.take listed).map (countLine (whole r.counts)) ++
      omittedLines (r.counts.sorted.drop listed).length ++ ending) := by
  have hmore : omittedLines (r.counts.sorted.drop listed).length =
      if listed < r.counts.sorted.length then
        ["  ... and " ++ toString (r.counts.sorted.length - listed) ++ " more outcomes"]
      else [] := by
    rw [omittedLines, List.length_drop]
    split_ifs with hnone hsome hsome
    · omega
    · rfl
    · rfl
    · omega
  have hnone : Counts.empty.sorted = [] := List.mergeSort_nil
  refine ⟨["", "✓ Results (" ++ toString r.shots ++ " shots):"],
    (resultLines { r with counts := .empty }).drop 2, ?_, ?_⟩
  · simp only [resultLines, List.append_assoc]
    rfl
  · rw [hmore]
    simp only [resultLines, hnone, List.append_assoc]
    rfl

/-- The line of a successful execution lists four outcomes. -/
theorem outcomeLine_ok (key : String) (r : ExecutionResult) :
    outcomeLine (key, .ok r) = "  " ++ mark true ++ " " ++ left 16 key ++ " " ++
      ", ".intercalate ((r.counts.sorted.take 4).map fun (bits, n) =>
        bits ++ ": " ++ toString n.toNat) := rfl

/-- **What is shown of a result.**  Among the lines of a result are those of its first sixteen
    outcomes, in a comparison its line has the first four; first are those with the fewest
    smaller bitstrings.  The most frequent outcomes are the ones shown, and in front, exactly if
    the counts fall with the bitstrings as far as they are shown. -/
theorem outcomes_shown {r : ExecutionResult} (hkeys : (r.counts.entries.map Prod.fst).Nodup) :
    (∃ shown omitted heading ending, Shows r.counts listed shown omitted ∧
      resultLines { r with counts := .empty } = heading ++ ending ∧
      resultLines r = heading ++ (shown.map (countLine (whole r.counts)) ++
        omittedLines omitted.length ++ ending) ∧
      (∀ entry, entry ∈ shown ↔ entry ∈ r.counts.entries ∧ r.counts.below entry.1 < listed) ∧
      (MostFrequentFirst shown omitted ↔
        ∀ s ∈ shown, ∀ e ∈ r.counts.entries, s.1 < e.1 → e.2 ≤ s.2)) ∧
    ∃ shown omitted, Shows r.counts 4 shown omitted ∧
      (∀ key, outcomeLine (key, .ok r) = "  " ++ mark true ++ " " ++ left 16 key ++ " " ++
        ", ".intercalate (shown.map fun (bits, n) => bits ++ ": " ++ toString n.toNat)) ∧
      (∀ entry, entry ∈ shown ↔ entry ∈ r.counts.entries ∧ r.counts.below entry.1 < 4) ∧
      (MostFrequent shown omitted ↔ ∀ s ∈ r.counts.entries, ∀ o ∈ r.counts.entries,
        r.counts.below s.1 < 4 → 4 ≤ r.counts.below o.1 → o.2 ≤ s.2) := by
  have hlisted := shows_sorted hkeys listed
  have hfour := shows_sorted hkeys 4
  obtain ⟨heading, ending, hempty, hlines⟩ := resultLines_eq r
  exact ⟨⟨_, _, heading, ending, hlisted, hempty, hlines, hlisted.mem_shown_iff hkeys,
      hlisted.mostFrequentFirst_iff⟩,
    _, _, hfour, (outcomeLine_ok · r), hfour.mem_shown_iff hkeys, hfour.mostFrequent_iff hkeys⟩

/-- Sixteen shots in which the smaller bitstring is the more frequent one. -/
def falling : ExecutionResult := .new ⟨[("0", 12), ("1", 4)]⟩ 16

theorem outcomes_shown_falling :
    (falling.counts.entries.map Prod.fst).Nodup ∧
    ∃ shown omitted heading ending, Shows falling.counts listed shown omitted ∧
      resultLines falling = heading ++ (shown.map (countLine (whole falling.counts)) ++
        omittedLines omitted.length ++ ending) ∧
      MostFrequentFirst shown omitted := by
  have hkeys : (falling.counts.entries.map Prod.fst).Nodup := by decide
  have hfall : ∀ s ∈ falling.counts.entries, ∀ e ∈ falling.counts.entries,
      s.1 < e.1 → e.2 ≤ s.2 := by
    decide +kernel
  obtain ⟨⟨shown, omitted, heading, ending, hshows, -, hlines, -, hiff⟩, -⟩ := outcomes_shown hkeys
  exact ⟨hkeys, shown, omitted, heading, ending, hshows, hlines,
    hiff.mpr fun s hs => hfall s (hshows.mem_iff.mpr (.inl hs))⟩

/-- The outcomes of a circuit that turns three qubits far towards one: the last bitstring is by
    far the most frequent. -/
def skewed : ExecutionResult :=
  .new ⟨[("000", 1), ("001", 10), ("010", 12), ("011", 71), ("100", 9), ("101", 95), ("110", 88),
    ("111", 738)]⟩ 1024

/-- The rarest outcome comes first, and a comparison does not show the most frequent one. -/
theorem likeliest_unshown :
    skewed.counts.mostFrequent = some ("111", 738) ∧
    (∃ heading ending, resultLines skewed =
      heading ++ (skewed.counts.entries.map (countLine (whole skewed.counts)) ++ [] ++ ending)) ∧
    ¬ skewed.counts.entries.Pairwise Outranks ∧
    outcomeLine ("cirq", .ok skewed) =
      "  ● cirq             000: 1, 001: 10, 010: 12, 011: 71" := by
  have hsorted : skewed.counts.sorted = skewed.counts.entries :=
    List.mergeSort_of_pairwise (by decide +kernel)
  refine ⟨by decide +kernel, ?_, by decide +kernel, ?_⟩
  · obtain ⟨heading, ending, -, hlines⟩ := resultLines_eq skewed
    rw [hsorted] at hlines
    exact ⟨heading, ending, hlines⟩
  · rw [outcomeLine_ok, hsorted]
    decide +kernel

end CircuitBroker.Report
