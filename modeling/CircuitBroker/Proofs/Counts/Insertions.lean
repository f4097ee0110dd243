/-
  CircuitBroker/Proofs/Counts/Insertions.lean
  ===========================================
  **Counts are a multiset of outcomes.**

  Nobody may rely on the order in which counts keep their entries: any insertion can change it,
  and so can the time between two readings (`FilledWith`).  Whatever the order is, the counts
  tell of the multiset that was inserted (`FilledWith.tells`) and list the bitstrings that were,
  those with a count of zero included (`FilledWith.mem_keys_iff`).  These two decide the entries
  up to their order (`FilledWith.perm`), and all that can be asked of counts does not depend on
  that (`sorted_of_perm`, `mostFrequent_of_perm`, `multiset_of_insertions`).
-/
import CircuitBroker.Proofs.Counts.Occurrences
import CircuitBroker.Proofs.Counts.Sorted

namespace CircuitBroker.Counts

/-! ## 1. Insertions in any order of entries -/

/-- Counts that are left by a list of insertions, one after the other, into empty ones.  The
    entries may change places before and after each. -/
inductive FilledWith : Counts → List (String × UInt64) → Prop
  | empty : FilledWith .empty []
  | insert {c pairs} (h : FilledWith c pairs) (bits : String) (n : UInt64) :
      FilledWith (c.insert bits n) (pairs ++ [(bits, n)])
  | reorder {c d pairs} (h : FilledWith c pairs) (hperm : d.entries.Perm c.entries) :
      FilledWith d pairs

variable {c d : Counts} {pairs : List (String × UInt64)} {seen : Multiset String}

/-- There are such counts for any list of insertions. -/
theorem filledWith_ofPairs (pairs : List (String × UInt64)) : (ofPairs pairs).FilledWith pairs := by
  induction pairs using List.reverseRecOn with
  | nil => exact .empty
  | append_singleton pairs pair ih =>
    have hlast : ofPairs (pairs ++ [pair]) = (ofPairs pairs).insert pair.1 pair.2 := by
      rw [ofPairs, List.foldl_append, List.foldl_cons, List.foldl_nil, ofPairs]
    rw [hlast]
    exact ih.insert pair.1 pair.2

theorem get_of_perm (hkeys : (c.entries.map Prod.fst).Nodup) (hperm : d.entries.Perm c.entries)
    (bits : String) : d.get bits = c.get bits := by
  have hkeys' := (hperm.map Prod.fst).nodup_iff.mpr hkeys
  by_cases hmem : bits ∈ c.entries.map Prod.fst
  · obtain ⟨⟨b, n⟩, hentry, rfl⟩ := List.mem_map.mp hmem
    rw [get_of_mem hkeys hentry, get_of_mem hkeys' (hperm.mem_iff.mpr hentry)]
  · rw [get_of_notMem hmem, get_of_notMem (mt (hperm.map Prod.fst).mem_iff.mp hmem)]

theorem sum_of_perm (hperm : d.entries.Perm c.entries) : d.sum = c.sum :=
  (hperm.map fun entry : String × UInt64 => entry.2.toNat).sum_eq

namespace Tells

theorem empty : Tells .empty 0 where
  nodup := List.nodup_nil
  get _ := rfl
  sum := rfl

theorem insert (h : c.Tells seen) (bits : String) {n : UInt64}
    (hsmall : seen.card + n.toNat < 2 ^ 64) :
    (c.insert bits n).Tells (seen + Multiset.replicate n.toNat bits) where
  nodup := nodup_keys_addEntry h.nodup
  get other := by
    rw [get_insert, Multiset.count_add, Multiset.count_replicate]
    by_cases hbits : other = bits
    · have hcount := Multiset.count_le_card other seen
      rw [if_pos hbits, if_pos hbits.symm, UInt64.toNat_add, h.get, Nat.mod_eq_of_lt (by omega)]
    · rw [if_neg hbits, if_neg (Ne.symm hbits), h.get, Nat.add_zero]
  sum := by
    obtain ⟨lost, hlost⟩ := sum_insert c bits n
    rw [h.sum] at hlost
    rw [Multiset.card_add, Multiset.card_replicate]
    omega

theorem reorder (h : c.Tells seen) (hperm : d.entries.Perm c.entries) : d.Tells seen where
  nodup := (hperm.map Prod.fst).nodup_iff.mpr h.nodup
  get bits := by rw [get_of_perm h.nodup hperm, h.get]
  sum := by rw [sum_of_perm hperm, h.sum]

end Tells

theorem unfolded_concat (pairs : List (String × UInt64)) (bits : String) (n : UInt64) :
    unfolded (pairs ++ [(bits, n)]) = unfolded pairs + Multiset.replicate n.toNat bits := by
  rw [unfolded, List.map_append, List.sum_append, List.map_singleton, List.sum_singleton, ← unfolded]

theorem unfolded_perm {pairs' : List (String × UInt64)} (h : pairs'.Perm pairs) :
    unfolded pairs' = unfolded pairs :=
  (h.map _).sum_eq

/-- A bitstring occurs as often as is reported of it. -/
theorem count_unfolded (pairs : List (String × UInt64)) (bits : String) :
    (unfolded pairs).count bits = reported (pairs.filter fun pair => pair.1 = bits) := by
  induction pairs with
  | nil => rfl
  | cons pair pairs ih =>
    obtain ⟨b, n⟩ := pair
    rw [unfolded_cons, Multiset.count_add, Multiset.count_replicate, ih]
    by_cases hb : b = bits
    · rw [if_pos hb, List.filter_cons_of_pos (by simpa using hb), reported, reported, List.map_cons,
        List.sum_cons]
    · rw [if_neg hb, List.filter_cons_of_neg (by simpa using hb), Nat.zero_add]

/-- **Counts tell of what was inserted**, in whatever order they keep it. -/
theorem FilledWith.tells (h : c.FilledWith pairs) (hsmall : reported pairs < 2 ^ 64) :
    c.Tells (unfolded pairs) := by
  rw [← card_unfolded] at hsmall
  induction h with
  | empty => exact .empty
  | insert h bits n ih =>
    rw [unfolded_concat] at hsmall ⊢
    rw [Multiset.card_add, Multiset.card_replicate] at hsmall
    exact (ih (by omega)).insert bits hsmall
  | reorder h hperm ih => exact (ih hsmall).reorder hperm

/-- Counts list the bitstrings that were inserted. -/
theorem FilledWith.mem_keys_iff (h : c.FilledWith pairs) (bits : String) :
    bits ∈ c.entries.map Prod.fst ↔ bits ∈ pairs.map Prod.fst := by
  induction h with
  | empty => exact Iff.rfl
  | insert h other n ih =>
    rw [List.map_append, List.map_singleton, List.mem_append, List.mem_singleton, ← ih, or_comm]
    exact mem_keys_addEntry
  | reorder h hperm ih => rw [(hperm.map Prod.fst).mem_iff, ih]

/-- Nothing is listed exactly if nothing was inserted. -/
theorem FilledWith.entries_eq_nil_iff (h : c.FilledWith pairs) : c.entries = [] ↔ pairs = [] := by
  rw [← List.map_eq_nil_iff (f := Prod.fst), ← List.map_eq_nil_iff (f := Prod.fst) (l := pairs),
    List.eq_nil_iff_forall_not_mem, List.eq_nil_iff_forall_not_mem]
  simp only [h.mem_keys_iff]

/-! ## 2. Entries that differ in their order -/

theorem mem_entries_iff_get (hkeys : (c.entries.map Prod.fst).Nodup) {bits : String} {n : UInt64} :
    (bits, n) ∈ c.entries ↔ bits ∈ c.entries.map Prod.fst ∧ n = c.get bits := by
  constructor
  · intro hmem
    exact ⟨List.mem_map_of_mem hmem, (get_of_mem hkeys hmem).symm⟩
  · rintro ⟨hkey, rfl⟩
    obtain ⟨⟨b, m⟩, hmem, rfl⟩ := List.mem_map.mp hkey
    rwa [get_of_mem hkeys hmem]

/-- Counts that list the same bitstrings and agree on each have the same entries. -/
theorem entries_perm (hc : (c.entries.map Prod.fst).Nodup) (hd : (d.entries.map Prod.fst).Nodup)
    (hkeys : ∀ bits, bits ∈ d.entries.map Prod.fst ↔ bits ∈ c.entries.map Prod.fst)
    (hget : ∀ bits, d.get bits = c.get bits) : d.entries.Perm c.entries := by
  rw [List.perm_ext_iff_of_nodup (List.Nodup.of_map _ hd) (List.Nodup.of_map _ hc)]
  rintro ⟨bits, n⟩
  rw [mem_entries_iff_get hd, mem_entries_iff_get hc, hkeys, hget]

/-- **Neither the order of the insertions nor that of the entries on the way shows**, but in the
    order of the entries. -/
theorem FilledWith.perm {pairs' : List (String × UInt64)} (hc : c.FilledWith pairs)
    (hd : d.FilledWith pairs') (hpairs : pairs'.Perm pairs) (hsum : reported pairs < 2 ^ 64) :
    d.entries.Perm c.entries := by
  have hsum' : reported pairs' < 2 ^ 64 := by
    rwa [← card_unfolded, unfolded_perm hpairs, card_unfolded]
  have htells := hc.tells hsum
  have htells' := unfolded_perm hpairs ▸ hd.tells hsum'
  refine entries_perm htells.nodup htells'.nodup (fun bits => ?_) fun bits => ?_
  · rw [hd.mem_keys_iff, (hpairs.map Prod.fst).mem_iff, hc.mem_keys_iff]
  · rw [← UInt64.toNat_inj, htells'.get, htells.get]

theorem total_of_perm (hperm : d.entries.Perm c.entries) : d.total = c.total := by
  rw [← UInt64.toNat_inj, toNat_total_eq_mod, toNat_total_eq_mod, sum_of_perm hperm]

theorem sorted_of_perm (hkeys : (c.entries.map Prod.fst).Nodup)
    (hperm : d.entries.Perm c.entries) : d.sorted = c.sorted := by
  have hkeys' := (hperm.map Prod.fst).nodup_iff.mpr hkeys
  exact List.Perm.eq_of_pairwise (fun a b _ _ hab hba => absurd hab (lt_asymm hba))
    (sorted_ascending hkeys') (sorted_ascending hkeys)
    (d.sorted_perm.trans (hperm.trans c.sorted_perm.symm))

/-! ## 3. The most frequent entry -/

/-- An entry that is at least as frequent as another one and, if it is not more frequent, has no
    larger bitstring. -/
def Leads (a b : String × UInt64) : Prop := b.2 < a.2 ∨ b.2 = a.2 ∧ a.1 ≤ b.1

theorem Leads.refl (a : String × UInt64) : Leads a a := .inr ⟨rfl, le_rfl⟩

theorem Leads.trans {a b e : String × UInt64} (hab : Leads a b) (hbe : Leads b e) : Leads a e := by
  rcases hab with hlt | ⟨heq, hle⟩
  · rcases hbe with hlt' | ⟨heq', -⟩
    · exact .inl (UInt64.lt_trans hlt' hlt)
    · exact .inl (heq' ▸ hlt)
  · rcases hbe with hlt' | ⟨heq', hle'⟩
    · exact .inl (heq ▸ hlt')
    · exact .inr ⟨heq'.trans heq, hle.trans hle'⟩

theorem Leads.antisymm {a b : String × UInt64} (hab : Leads a b) (hba : Leads b a) : a = b := by
  rcases hab with hlt | ⟨heq, hle⟩
  · rcases hba with hlt' | ⟨heq', -⟩
    · exact absurd hlt (UInt64.lt_asymm hlt')
    · exact absurd (heq' ▸ hlt) (UInt64.lt_irrefl _)
  · rcases hba with hlt' | ⟨-, hle'⟩
    · exact absurd (heq ▸ hlt') (UInt64.lt_irrefl _)
    · exact Prod.ext (le_antisymm hle hle') heq.symm

/-- Of two entries the preferred one is one of them and leads both. -/
theorem preferred_spec (a b : String × UInt64) :
    (preferred a b = a ∨ preferred a b = b) ∧ Leads (preferred a b) a ∧ Leads (preferred a b) b := by
  rw [preferred]
  by_cases hab : a.2 < b.2
  · rw [if_pos hab]
    exact ⟨.inr rfl, .inl hab, .refl b⟩
  by_cases hba : b.2 < a.2
  · rw [if_neg hab, if_pos hba]
    exact ⟨.inl rfl, .refl a, .inl hba⟩
  have heq : a.2 = b.2 := UInt64.le_antisymm (UInt64.not_lt.mp hba) (UInt64.not_lt.mp hab)
  rw [if_neg hab, if_neg hba]
  by_cases hbits : b.1 < a.1
  · rw [if_pos hbits]
    exact ⟨.inr rfl, .inr ⟨heq, hbits.le⟩, .refl b⟩
  · rw [if_neg hbits]
    exact ⟨.inl rfl, .refl a, .inr ⟨heq.symm, not_lt.mp hbits⟩⟩

theorem foldl_preferred_spec (entries : List (String × UInt64)) (first : String × UInt64) :
    entries.foldl preferred first ∈ first :: entries ∧
      ∀ entry ∈ first :: entries, Leads (entries.foldl preferred first) entry := by
  induction entries generalizing first with
  | nil => exact ⟨List.mem_singleton_self first, by simpa using Leads.refl first⟩
  | cons next entries ih =>
    obtain ⟨hmem, hleads⟩ := ih (preferred first next)
    obtain ⟨hone, hfirst, hnext⟩ := preferred_spec first next
    obtain ⟨hleader, hrest⟩ := List.forall_mem_cons.mp hleads
    rw [List.foldl_cons]
    refine ⟨?_, List.forall_mem_cons.mpr ⟨hleader.trans hfirst,
      List.forall_mem_cons.mpr ⟨hleader.trans hnext, hrest⟩⟩⟩
    rcases List.mem_cons.mp hmem with hpreferred | hentry
    · rw [hpreferred]
      rcases hone with hone | hone <;> simp [hone]
    · exact List.mem_cons_of_mem _ (List.mem_cons_of_mem _ hentry)

theorem mostFrequent_eq_none_iff : c.mostFrequent = none ↔ c.entries = [] := by
  obtain ⟨entries⟩ := c
  cases entries <;> simp [mostFrequent]

/-- **The most frequent entry leads all entries**, and no other one does. -/
theorem mostFrequent_eq_some_iff {entry : String × UInt64} :
    c.mostFrequent = some entry ↔ entry ∈ c.entries ∧ ∀ other ∈ c.entries, Leads entry other := by
  obtain ⟨entries⟩ := c
  cases entries with
  | nil => simp [mostFrequent]
  | cons first entries =>
    obtain ⟨hmem, hleads⟩ := foldl_preferred_spec entries first
    rw [mostFrequent, Option.some_inj]
    constructor
    · rintro rfl
      exact ⟨hmem, hleads⟩
    · rintro ⟨hentry, hleads'⟩
      exact (hleads entry hentry).antisymm (hleads' _ hmem)

theorem mostFrequent_of_perm (hperm : d.entries.Perm c.entries) :
    d.mostFrequent = c.mostFrequent := by
  ext entry
  rw [mostFrequent_eq_some_iff, mostFrequent_eq_some_iff]
  simp only [hperm.mem_iff]

/-! ## 4. What can be asked of counts -/

/-- The most frequent entry, by the bitstrings that are listed. -/
theorem mostFrequent_eq_some_iff_get (hkeys : (c.entries.map Prod.fst).Nodup) {bits : String}
    {n : UInt64} : c.mostFrequent = some (bits, n) ↔
      (bits ∈ c.entries.map Prod.fst ∧ n = c.get bits) ∧
        ∀ other ∈ c.entries.map Prod.fst, c.get other < n ∨ c.get other = n ∧ bits ≤ other := by
  rw [mostFrequent_eq_some_iff, mem_entries_iff_get hkeys]
  refine and_congr_right fun _ => ⟨fun hleads other hother => ?_, ?_⟩
  · exact hleads (other, c.get other) ((mem_entries_iff_get hkeys).mpr ⟨hother, rfl⟩)
  · rintro hall ⟨other, m⟩ hother
    obtain ⟨hkey, rfl⟩ := (mem_entries_iff_get hkeys).mp hother
    exact hall other hkey

/-- **Counts are a multiset of outcomes.**  As long as everything inserted fits into a word, the
    count of a bitstring is the sum of what was inserted for it, and the total is the sum of
    everything.  The sorted entries are the inserted bitstrings with their counts, in strictly
    ascending order.  The most frequent one, if anything was inserted, is the bitstring with the
    largest count, and of several the smallest.  Any other order of the insertions, and of the
    entries on the way, gives the same answers. -/
theorem multiset_of_insertions (hc : c.FilledWith pairs) (hsum : reported pairs < 2 ^ 64) :
    (∀ bits, (c.get bits).toNat = reported (pairs.filter fun pair => pair.1 = bits)) ∧
    c.total.toNat = reported pairs ∧
    (c.sorted.Pairwise (fun a b => a.1 < b.1) ∧
      ∀ bits n, (bits, n) ∈ c.sorted ↔ bits ∈ pairs.map Prod.fst ∧ n = c.get bits) ∧
    ((c.mostFrequent = none ↔ pairs = []) ∧
      ∀ bits n, c.mostFrequent = some (bits, n) ↔ (bits ∈ pairs.map Prod.fst ∧ n = c.get bits) ∧
        ∀ other ∈ pairs.map Prod.fst, c.get other < n ∨ c.get other = n ∧ bits ≤ other) ∧
    ∀ (d : Counts) (pairs' : List (String × UInt64)), pairs'.Perm pairs → d.FilledWith pairs' →
      (∀ bits, d.get bits = c.get bits) ∧ d.total = c.total ∧ d.sorted = c.sorted ∧
        d.mostFrequent = c.mostFrequent := by
  have htells := hc.tells hsum
  have hlisted := hc.mem_keys_iff
  refine ⟨fun bits => ?_, ?_, ⟨sorted_ascending htells.nodup, fun bits n => ?_⟩,
    ⟨?_, fun bits n => ?_⟩, fun d pairs' hpairs hd => ?_⟩
  · rw [htells.get, count_unfolded]
  · have htotal : c.sum = reported pairs := htells.sum.trans (card_unfolded pairs)
    rw [toNat_total (htotal ▸ hsum), htotal]
  · rw [c.sorted_perm.mem_iff, mem_entries_iff_get htells.nodup, hlisted]
  · rw [mostFrequent_eq_none_iff, hc.entries_eq_nil_iff]
  · rw [mostFrequent_eq_some_iff_get htells.nodup]
    simp only [hlisted]
  · have hperm := hc.perm hd hpairs hsum
    exact ⟨get_of_perm htells.nodup hperm, total_of_perm hperm, sorted_of_perm htells.nodup hperm,
      mostFrequent_of_perm hperm⟩

/-- Two outcomes that come up equally often, one of them in two portions, and one that never
    does. -/
def tiedInsertions : List (String × UInt64) :=
  [("11", 4), ("01", 7), ("00", 3), ("10", 0), ("00", 4)]

theorem multiset_of_insertions_tied :
    (ofPairs tiedInsertions).FilledWith tiedInsertions ∧ reported tiedInsertions < 2 ^ 64 ∧
      (ofPairs tiedInsertions).mostFrequent = some ("00", 7) ∧
      (ofPairs tiedInsertions.reverse).sorted = (ofPairs tiedInsertions).sorted ∧
      (ofPairs tiedInsertions.reverse).mostFrequent = some ("00", 7) := by
  have hfilled := filledWith_ofPairs tiedInsertions
  have hsum : reported tiedInsertions < 2 ^ 64 := by decide
  obtain ⟨-, -, -, ⟨-, hmost⟩, hreordered⟩ := multiset_of_insertions hfilled hsum
  have hfirst : (ofPairs tiedInsertions).mostFrequent = some ("00", 7) :=
    (hmost "00" 7).mpr ⟨by decide, by decide⟩
  obtain ⟨-, -, hsorted, hfirst'⟩ := hreordered _ _ (List.reverse_perm _) (filledWith_ofPairs _)
  exact ⟨hfilled, hsum, hfirst, hsorted, hfirst'.trans hfirst⟩

end CircuitBroker.Counts
