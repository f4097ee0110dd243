/-
  CircuitBroker/Proofs/Counts/Sorted.lean
  =======================================
  **Counts in the order of their bitstrings.**

  The sorted entries are the entries, each once, with ascending bitstrings.  What is among the
  first of them depends on the bitstrings alone: an entry is, if few enough bitstrings are
  smaller than its own (`mem_take_sorted_iff`).
-/
import CircuitBroker.Proofs.Counts

namespace CircuitBroker.Counts

theorem sorted_perm (c : Counts) : c.sorted.Perm c.entries := List.mergeSort_perm _ _

theorem length_sorted (c : Counts) : c.sorted.length = c.size := c.sorted_perm.length_eq

/-- Where each bitstring is listed once, no two of the sorted entries have the same one. -/
theorem sorted_ascending {c : Counts} (hkeys : (c.entries.map Prod.fst).Nodup) :
    c.sorted.Pairwise fun a b => a.1 < b.1 := by
  have hle : c.sorted.Pairwise fun a b => decide (a.1 ≤ b.1) = true := by
    apply List.pairwise_mergeSort
    · intro a b d hab hbd
      exact decide_eq_true (le_trans (of_decide_eq_true hab) (of_decide_eq_true hbd))
    · intro a b
      simpa only [Bool.or_eq_true, decide_eq_true_eq] using le_total a.1 b.1
  have hne : c.sorted.Pairwise fun a b => a.1 ≠ b.1 :=
    List.pairwise_map.mp ((c.sorted_perm.map Prod.fst).nodup_iff.mpr hkeys)
  exact (hle.and hne).imp fun h => lt_of_le_of_ne (of_decide_eq_true h.1) h.2

def below (c : Counts) (bits : String) : Nat := c.entries.countP fun e => decide (e.1 < bits)

/-- An entry of an ascending list has as many smaller ones as stand in front of it. -/
theorem countP_lt_getElem {entries : List (String × UInt64)}
    (h : entries.Pairwise fun a b => a.1 < b.1) {i : Nat} (hi : i < entries.length) :
    entries.countP (fun e => decide (e.1 < entries[i].1)) = i := by
  induction entries generalizing i with
  | nil => cases hi
  | cons e entries ih =>
    obtain ⟨hhead, htail⟩ := List.pairwise_cons.mp h
    cases i with
    | zero =>
      rw [List.countP_eq_zero]
      intro other hother
      rw [decide_eq_true_eq, List.getElem_cons_zero, not_lt]
      rcases List.mem_cons.mp hother with rfl | hother
      · exact le_rfl
      · exact (hhead other hother).le
    | succ i =>
      have hi' : i < entries.length := by simpa using hi
      have hbelow : e.1 < entries[i].1 := hhead _ (List.getElem_mem hi')
      rw [List.getElem_cons_succ, List.countP_cons, ih htail hi', if_pos (decide_eq_true hbelow)]

/-- **Which entries come first does not depend on their counts.** -/
theorem mem_take_sorted_iff {c : Counts} (hkeys : (c.entries.map Prod.fst).Nodup) (limit : Nat)
    (entry : String × UInt64) :
    entry ∈ c.sorted.take limit ↔ entry ∈ c.entries ∧ c.below entry.1 < limit := by
  rw [below, ← c.sorted_perm.mem_iff, ← c.sorted_perm.countP_eq, List.mem_take_iff_getElem,
    List.mem_iff_getElem]
  constructor
  · rintro ⟨i, hi, rfl⟩
    have hlength : i < c.sorted.length := by omega
    refine ⟨⟨i, hlength, rfl⟩, ?_⟩
    rw [countP_lt_getElem (sorted_ascending hkeys) hlength]
    omega
  · rintro ⟨⟨i, hi, rfl⟩, hcount⟩
    rw [countP_lt_getElem (sorted_ascending hkeys) hi] at hcount
    exact ⟨i, by omega, rfl⟩

end CircuitBroker.Counts
