/-
  CircuitBroker/Proofs/Counts/Occurrences.lean
  ============================================
  **Counts tell how often each bitstring occurred.**

  Bitstrings with numbers stand for a multiset, in which each bitstring occurs as often as its
  numbers say (`unfolded`).  Counting them gives the multiplicities of this multiset up to whole
  words (`toNat_get_ofPairs`), and so exactly its multiplicities as long as it has fewer members
  than a word has values (`tells_ofPairs`).  Counts that tell of the same multiset agree but for
  bitstrings with a count of zero (`Tells.perm`).
-/
import CircuitBroker.Proofs.Counts

namespace CircuitBroker.Counts

/-! ## 1. One more of a bitstring -/

theorem get_cons (b other : String) (m : UInt64) (entries : List (String × UInt64)) :
    get ⟨(b, m) :: entries⟩ other = if b = other then m else get ⟨entries⟩ other := by
  by_cases h : b = other
  · rw [if_pos h, get, List.find?_cons_of_pos (by simpa using h)]
  · rw [if_neg h, get, List.find?_cons_of_neg (by simpa using h), get]

theorem get_insert (c : Counts) (bits other : String) (n : UInt64) :
    (c.insert bits n).get other = if other = bits then c.get other + n else c.get other := by
  obtain ⟨entries⟩ := c
  change get ⟨addEntry bits n entries⟩ other = _
  induction entries with
  | nil =>
    rw [addEntry, get_cons]
    by_cases h : bits = other
    · rw [if_pos h, if_pos h.symm]
      exact (UInt64.zero_add n).symm
    · rw [if_neg h, if_neg (Ne.symm h)]
  | cons entry entries ih =>
    obtain ⟨b, m⟩ := entry
    rw [addEntry]
    by_cases hb : b = bits
    · subst hb
      rw [if_pos rfl, get_cons, get_cons]
      by_cases h : b = other
      · rw [if_pos h, if_pos h.symm, if_pos h]
      · rw [if_neg h, if_neg (Ne.symm h), if_neg h]
    · rw [if_neg hb, get_cons, get_cons, ih]
      by_cases h : b = other
      · subst h
        rw [if_pos rfl, if_pos rfl, if_neg hb]
      · rw [if_neg h, if_neg h]

theorem mem_keys_addEntry {bits other : String} {n : UInt64} {entries : List (String × UInt64)} :
    other ∈ (addEntry bits n entries).map Prod.fst ↔ other = bits ∨ other ∈ entries.map Prod.fst := by
  induction entries with
  | nil => simp [addEntry]
  | cons entry entries ih =>
    obtain ⟨b, m⟩ := entry
    rw [addEntry]
    by_cases hb : b = bits
    · simp [hb]
    · simp only [if_neg hb, List.map_cons, List.mem_cons, ih]
      exact or_left_comm

theorem nodup_keys_addEntry {bits : String} {n : UInt64} {entries : List (String × UInt64)}
    (h : (entries.map Prod.fst).Nodup) : ((addEntry bits n entries).map Prod.fst).Nodup := by
  induction entries with
  | nil => simp [addEntry]
  | cons entry entries ih =>
    obtain ⟨b, m⟩ := entry
    obtain ⟨hb, hrest⟩ := List.nodup_cons.mp h
    rw [addEntry]
    by_cases heq : b = bits
    · rw [if_pos heq]
      exact h
    · rw [if_neg heq, List.map_cons, List.nodup_cons]
      refine ⟨fun hmem => ?_, ih hrest⟩
      rcases mem_keys_addEntry.mp hmem with hbits | hmem
      · exact heq hbits
      · exact hb hmem

/-! ## 2. Multisets from numbers -/

variable {α β : Type}

def unfolded (numbers : List (α × UInt64)) : Multiset α :=
  (numbers.map fun (a, n) => Multiset.replicate n.toNat a).sum

@[simp] theorem unfolded_nil : unfolded ([] : List (α × UInt64)) = 0 := rfl

@[simp] theorem unfolded_cons (a : α) (n : UInt64) (numbers : List (α × UInt64)) :
    unfolded ((a, n) :: numbers) = Multiset.replicate n.toNat a + unfolded numbers := by
  rw [unfolded, List.map_cons, List.sum_cons, ← unfolded]

theorem unfolded_map (f : α → β) (numbers : List (α × UInt64)) :
    unfolded (numbers.map fun (a, n) => (f a, n)) = (unfolded numbers).map f := by
  induction numbers with
  | nil => rfl
  | cons entry numbers ih =>
    obtain ⟨a, n⟩ := entry
    rw [List.map_cons, unfolded_cons, unfolded_cons, ih, Multiset.map_add, Multiset.map_replicate]

theorem unfolded_ones (l : List α) : unfolded (l.map fun a => (a, 1)) = (l : Multiset α) := by
  induction l with
  | nil => rfl
  | cons a l ih =>
    rw [List.map_cons, unfolded_cons, ih, ← Multiset.cons_coe]
    rfl

theorem card_unfolded (pairs : List (String × UInt64)) :
    (unfolded pairs).card = reported pairs := by
  induction pairs with
  | nil => rfl
  | cons pair pairs ih =>
    obtain ⟨bits, n⟩ := pair
    rw [unfolded_cons, Multiset.card_add, Multiset.card_replicate, ih, reported, reported,
      List.map_cons, List.sum_cons]

/-! ## 3. Counting -/

theorem toNat_get_foldl_insert (pairs : List (String × UInt64)) (bits : String) (c : Counts) :
    ((pairs.foldl (fun c (bits, n) => c.insert bits n) c).get bits).toNat =
      ((c.get bits).toNat + (unfolded pairs).count bits) % 2 ^ 64 := by
  induction pairs generalizing c with
  | nil => simp [Nat.mod_eq_of_lt (c.get bits).toNat_lt]
  | cons pair pairs ih =>
    obtain ⟨b, n⟩ := pair
    rw [List.foldl_cons, ih, get_insert, unfolded_cons, Multiset.count_add,
      Multiset.count_replicate]
    by_cases h : bits = b
    · rw [if_pos h, if_pos h.symm, UInt64.toNat_add, Nat.mod_add_mod, Nat.add_assoc]
    · rw [if_neg h, if_neg (Ne.symm h), Nat.zero_add]

/-- **Each bitstring is counted as often as it occurs**, up to whole words. -/
theorem toNat_get_ofPairs (pairs : List (String × UInt64)) (bits : String) :
    ((ofPairs pairs).get bits).toNat = (unfolded pairs).count bits % 2 ^ 64 := by
  have hfold := toNat_get_foldl_insert pairs bits empty
  have hempty : (empty.get bits).toNat = 0 := rfl
  rwa [hempty, Nat.zero_add] at hfold

theorem nodup_keys_ofPairs (pairs : List (String × UInt64)) :
    ((ofPairs pairs).entries.map Prod.fst).Nodup := by
  have hfold : ∀ (pairs : List (String × UInt64)) (c : Counts), (c.entries.map Prod.fst).Nodup →
      ((pairs.foldl (fun c (bits, n) => c.insert bits n) c).entries.map Prod.fst).Nodup := by
    intro pairs
    induction pairs with
    | nil => exact fun _ h => h
    | cons pair pairs ih => exact fun c h => ih _ (nodup_keys_addEntry h)
  exact hfold pairs empty List.nodup_nil

/-! ## 4. Counts of a multiset -/

/-- Counts that say of each bitstring how often it occurs in a multiset. -/
structure Tells (c : Counts) (seen : Multiset String) : Prop where
  nodup : (c.entries.map Prod.fst).Nodup
  get : ∀ bits, (c.get bits).toNat = seen.count bits
  sum : c.sum = seen.card

/-- **Nothing is lost of a multiset that fits into a word.** -/
theorem tells_ofPairs {pairs : List (String × UInt64)} (h : (unfolded pairs).card < 2 ^ 64) :
    (ofPairs pairs).Tells (unfolded pairs) where
  nodup := nodup_keys_ofPairs pairs
  get bits := by
    rw [toNat_get_ofPairs, Nat.mod_eq_of_lt]
    exact (Multiset.count_le_card bits _).trans_lt h
  sum := by
    rw [card_unfolded] at h ⊢
    exact sum_ofPairs h

namespace Tells

variable {c c' : Counts} {seen : Multiset String}

theorem mem_entries_iff (h : c.Tells seen) {bits : String} {n : UInt64} (hn : n ≠ 0) :
    (bits, n) ∈ c.entries ↔ n.toNat = seen.count bits := by
  constructor
  · intro hmem
    rw [← get_of_mem h.nodup hmem, h.get]
  · intro hcount
    have hget : c.get bits = n := UInt64.toNat_inj.mp ((h.get bits).trans hcount.symm)
    have hkey : bits ∈ c.entries.map Prod.fst := by
      by_contra hnot
      exact hn (hget.symm.trans (get_of_notMem hnot))
    obtain ⟨⟨b, m⟩, hmem, rfl⟩ := List.mem_map.mp hkey
    rwa [← hget, get_of_mem h.nodup hmem]

/-- Counts that tell of the same multiset have the same entries, but for those of zero. -/
theorem perm (h : c.Tells seen) (h' : c'.Tells seen) :
    (c.entries.filter (·.2 ≠ 0)).Perm (c'.entries.filter (·.2 ≠ 0)) := by
  have hentries : ∀ {d : Counts}, d.Tells seen → (d.entries.filter (·.2 ≠ 0)).Nodup :=
    fun hd => (List.Nodup.of_map _ hd.nodup).filter _
  rw [List.perm_ext_iff_of_nodup (hentries h) (hentries h')]
  rintro ⟨bits, n⟩
  simp only [List.mem_filter, decide_eq_true_eq]
  constructor
  · rintro ⟨hmem, hn⟩
    exact ⟨(h'.mem_entries_iff hn).mpr ((h.mem_entries_iff hn).mp hmem), hn⟩
  · rintro ⟨hmem, hn⟩
    exact ⟨(h.mem_entries_iff hn).mpr ((h'.mem_entries_iff hn).mp hmem), hn⟩

end Tells

end CircuitBroker.Counts
