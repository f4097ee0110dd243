/-
  CircuitBroker/Proofs/Counts.lean
  ================================
  **Counts added up.**

  The total of counts is a 64-bit word; `sum` adds the same counts as natural numbers, and
  the two agree as long as the sum fits into a word (`toNat_total`).  Where the same bitstring
  is reported again and again its count may overflow too; what is lost of the sum then is a
  number of whole words (`sum_ofPairs_add`).  Where no bitstring is reported twice the counts
  list what was reported (`entries_ofPairs`).
-/
import CircuitBroker.Counts
import CircuitBroker.Proofs.Traversal
import CircuitBroker.Proofs.Word

namespace CircuitBroker

namespace Counts

def sum (c : Counts) : Nat := (c.entries.map (·.2.toNat)).sum

theorem toNat_foldl_add (entries : List (String × UInt64)) (start : UInt64) :
    (entries.foldl (fun t (_, n) => t + n) start).toNat =
      (start.toNat + (entries.map (·.2.toNat)).sum) % 2 ^ 64 := by
  induction entries generalizing start with
  | nil => simp [Nat.mod_eq_of_lt start.toNat_lt]
  | cons entry entries ih =>
    obtain ⟨bits, count⟩ := entry
    rw [List.foldl_cons, ih]
    simp only [UInt64.toNat_add, List.map_cons, List.sum_cons, Nat.mod_add_mod, Nat.add_assoc]

theorem toNat_total_eq_mod (c : Counts) : c.total.toNat = c.sum % 2 ^ 64 := by
  have hadd := toNat_foldl_add c.entries 0
  rw [UInt64.toNat_zero, Nat.zero_add] at hadd
  exact hadd

/-- The total, as a natural number, wherever the counts do not overflow a word. -/
theorem toNat_total {c : Counts} (h : c.sum < 2 ^ 64) : c.total.toNat = c.sum := by
  rw [toNat_total_eq_mod, Nat.mod_eq_of_lt h]

/-- Two words lose at most one carry when they are added. -/
theorem toNat_add_carry (m n : UInt64) :
    ∃ lost, (m + n).toNat + 2 ^ 64 * lost = m.toNat + n.toNat := by
  refine ⟨(m.toNat + n.toNat) / 2 ^ 64, ?_⟩
  rw [UInt64.toNat_add, Nat.mod_add_div]

theorem sum_addEntry (bits : String) (count : UInt64) (entries : List (String × UInt64)) :
    ∃ lost, ((addEntry bits count entries).map (·.2.toNat)).sum + 2 ^ 64 * lost =
      (entries.map (·.2.toNat)).sum + count.toNat := by
  induction entries with
  | nil => exact ⟨0, by simp [addEntry]⟩
  | cons entry entries ih =>
    obtain ⟨b, n⟩ := entry
    rw [addEntry]
    split
    · obtain ⟨lost, hlost⟩ := toNat_add_carry n count
      refine ⟨lost, ?_⟩
      simp only [List.map_cons, List.sum_cons]
      omega
    · obtain ⟨lost, hlost⟩ := ih
      refine ⟨lost, ?_⟩
      simp only [List.map_cons, List.sum_cons]
      omega

theorem sum_insert (c : Counts) (bits : String) (count : UInt64) :
    ∃ lost, (c.insert bits count).sum + 2 ^ 64 * lost = c.sum + count.toNat :=
  sum_addEntry bits count c.entries

def reported (pairs : List (String × UInt64)) : Nat := (pairs.map (·.2.toNat)).sum

/-- Counting what is reported loses nothing but whole words. -/
theorem sum_ofPairs_add (pairs : List (String × UInt64)) :
    ∃ lost, (ofPairs pairs).sum + 2 ^ 64 * lost = reported pairs := by
  have hfold : ∀ (pairs : List (String × UInt64)) (c : Counts), ∃ lost,
      (pairs.foldl (fun c (bits, n) => c.insert bits n) c).sum + 2 ^ 64 * lost =
        c.sum + reported pairs := by
    intro pairs
    induction pairs with
    | nil => exact fun c => ⟨0, rfl⟩
    | cons pair pairs ih =>
      intro c
      obtain ⟨bits, count⟩ := pair
      obtain ⟨lost, hlost⟩ := ih (c.insert bits count)
      obtain ⟨carry, hcarry⟩ := sum_insert c bits count
      refine ⟨lost + carry, ?_⟩
      simp only [reported, List.foldl_cons, List.map_cons, List.sum_cons] at hlost ⊢
      omega
  obtain ⟨lost, hlost⟩ := hfold pairs empty
  refine ⟨lost, ?_⟩
  rw [ofPairs, hlost, sum, empty, List.map_nil, List.sum_nil, Nat.zero_add]

/-- The total of what is reported, up to whole words. -/
theorem toNat_total_ofPairs (pairs : List (String × UInt64)) :
    (ofPairs pairs).total.toNat = reported pairs % 2 ^ 64 := by
  obtain ⟨lost, hlost⟩ := sum_ofPairs_add pairs
  rw [toNat_total_eq_mod, ← hlost, Nat.add_mul_mod_self_left]

/-- Counting loses nothing of what fits into a word. -/
theorem sum_ofPairs {pairs : List (String × UInt64)} (h : reported pairs < 2 ^ 64) :
    (ofPairs pairs).sum = reported pairs := by
  obtain ⟨lost, hlost⟩ := sum_ofPairs_add pairs
  omega

theorem toNat_get_le_sum (c : Counts) (bits : String) : (c.get bits).toNat ≤ c.sum := by
  unfold get
  split
  · next n hfind =>
    exact List.le_sum_of_mem (List.mem_map_of_mem (f := fun e : String × UInt64 => e.2.toNat)
      (List.mem_of_find?_eq_some hfind))
  · exact Nat.zero_le _

/-- Where the count of a bitstring stays a word nothing is lost. -/
theorem sum_insert_of_lt {c : Counts} {bits : String} {count : UInt64}
    (h : (c.get bits).toNat + count.toNat < 2 ^ 64) :
    (c.insert bits count).sum = c.sum + count.toNat := by
  obtain ⟨entries⟩ := c
  induction entries with
  | nil => simp [insert, sum, addEntry]
  | cons entry entries ih =>
    obtain ⟨b, n⟩ := entry
    simp only [insert, sum, addEntry] at ih ⊢
    split
    case isTrue hb =>
      have hget : (⟨(b, n) :: entries⟩ : Counts).get bits = n := by simp [get, hb]
      rw [hget] at h
      have hadd : (n + count).toNat = n.toNat + count.toNat := by
        rw [UInt64.toNat_add, Nat.mod_eq_of_lt h]
      simp only [List.map_cons, List.sum_cons, hadd]
      omega
    case isFalse hb =>
      have hget : (⟨(b, n) :: entries⟩ : Counts).get bits = (⟨entries⟩ : Counts).get bits := by
        simp [get, hb]
      rw [hget] at h
      simp only [List.map_cons, List.sum_cons, ih h]
      omega

/-! ### As a build adds them -/

section Build

variable [Build]

theorem total?_eq_map (c : Counts) :
    c.total? = (Word.sum (c.entries.map (·.2.toNat))).map Nat.toUInt64 := by
  unfold total?
  cases Word.sum (c.entries.map (·.2.toNat)) <;> rfl

theorem total?_eq_ok_iff {c : Counts} {total : UInt64} :
    c.total? = .ok total ↔ (c.sum < 2 ^ 64 ∨ Build.checks = false) ∧ c.total = total := by
  have hword : (c.sum % wordSize).toUInt64 = c.total := by
    rw [← UInt64.toNat_inj, toNat_total_eq_mod]
    exact Nat.mod_mod _ _
  rw [total?_eq_map, map_eq_ok]
  constructor
  · rintro ⟨word, hsum, rfl⟩
    obtain ⟨hbuild, rfl⟩ := Word.sum_eq_ok_iff.mp hsum
    exact ⟨hbuild, hword.symm⟩
  · rintro ⟨hbuild, rfl⟩
    exact ⟨_, Word.sum_eq_ok_iff.mpr ⟨hbuild, rfl⟩, hword⟩

theorem total?_eq_error_iff {c : Counts} {fault : MachineFault} :
    c.total? = .error fault ↔ (2 ^ 64 ≤ c.sum ∧ Build.checks = true) ∧ .overflow = fault := by
  rw [total?_eq_map, map_eq_error]
  exact Word.sum_eq_error_iff

theorem insert?_eq_ok_iff {c c' : Counts} {bits : String} {count : UInt64} :
    c.insert? bits count = .ok c' ↔
      ((c.get bits).toNat + count.toNat < 2 ^ 64 ∨ Build.checks = false) ∧
        c.insert bits count = c' := by
  unfold insert?
  match h : Word.add (c.get bits).toNat count.toNat with
  | .ok word =>
    have hbuild := (Word.reduce_eq_ok_iff.mp h).1
    exact ⟨fun hok => ⟨hbuild, Except.ok.inj hok⟩, fun hok => congrArg Except.ok hok.2⟩
  | .error fault =>
    obtain ⟨⟨hlarge, hchecks⟩, -⟩ := Word.reduce_eq_error_iff.mp h
    exact ⟨nofun, fun hok =>
      absurd hok.1 (not_or.mpr ⟨Nat.not_lt.mpr hlarge, by simp [hchecks]⟩)⟩

theorem insert?_eq_error {c : Counts} {bits : String} {count : UInt64} {fault : MachineFault}
    (h : c.insert? bits count = .error fault) :
    (2 ^ 64 ≤ (c.get bits).toNat + count.toNat ∧ Build.checks = true) ∧ .overflow = fault := by
  unfold insert? at h
  match hadd : Word.add (c.get bits).toNat count.toNat with
  | .ok word =>
    rw [hadd] at h
    cases h
  | .error early =>
    rw [hadd] at h
    cases h
    exact Word.reduce_eq_error_iff.mp hadd

theorem foldlM_insert?_eq_ok {pairs : List (String × UInt64)} {c c' : Counts}
    (h : pairs.foldlM (fun c (bits, n) => c.insert? bits n) c = .ok c') :
    c' = pairs.foldl (fun c (bits, n) => c.insert bits n) c ∧
      (Build.checks = true → c'.sum = c.sum + reported pairs) := by
  induction pairs generalizing c with
  | nil => cases h; exact ⟨rfl, fun _ => rfl⟩
  | cons pair pairs ih =>
    obtain ⟨bits, count⟩ := pair
    obtain ⟨c₁, hinsert, hrest⟩ := bind_eq_ok.mp h
    obtain ⟨hbuild, rfl⟩ := insert?_eq_ok_iff.mp hinsert
    obtain ⟨hall, hsum⟩ := ih hrest
    refine ⟨hall, fun hchecks => ?_⟩
    have hlt := hbuild.resolve_right (by simp [hchecks])
    rw [hsum hchecks, sum_insert_of_lt hlt]
    simp only [reported, List.map_cons, List.sum_cons]
    omega

theorem ofPairs?_eq_ok {pairs : List (String × UInt64)} {c : Counts} (h : ofPairs? pairs = .ok c) :
    c = ofPairs pairs ∧ (Build.checks = true → c.sum = reported pairs) := by
  obtain ⟨hall, hsum⟩ := foldlM_insert?_eq_ok h
  exact ⟨hall, fun hchecks => (hsum hchecks).trans (Nat.zero_add _)⟩

theorem foldlM_insert?_eq_error {pairs : List (String × UInt64)} {c : Counts} {fault : MachineFault}
    (h : pairs.foldlM (fun c (bits, n) => c.insert? bits n) c = .error fault) :
    (2 ^ 64 ≤ c.sum + reported pairs ∧ Build.checks = true) ∧ .overflow = fault := by
  induction pairs generalizing c with
  | nil => cases h
  | cons pair pairs ih =>
    obtain ⟨bits, count⟩ := pair
    have hreported : reported ((bits, count) :: pairs) = count.toNat + reported pairs := rfl
    rw [List.foldlM_cons] at h
    dsimp only at h
    match hinsert : c.insert? bits count with
    | .ok c₁ =>
      rw [hinsert] at h
      obtain ⟨⟨hlarge, hchecks⟩, hfault⟩ := ih h
      obtain ⟨-, rfl⟩ := insert?_eq_ok_iff.mp hinsert
      obtain ⟨lost, hlost⟩ := sum_insert c bits count
      exact ⟨⟨by omega, hchecks⟩, hfault⟩
    | .error early =>
      rw [hinsert] at h
      cases h
      obtain ⟨⟨hlarge, hchecks⟩, hfault⟩ := insert?_eq_error hinsert
      have hget := toNat_get_le_sum c bits
      exact ⟨⟨by omega, hchecks⟩, hfault⟩

theorem ofPairs?_eq_error {pairs : List (String × UInt64)} {fault : MachineFault}
    (h : ofPairs? pairs = .error fault) :
    (2 ^ 64 ≤ reported pairs ∧ Build.checks = true) ∧ .overflow = fault := by
  have herror := foldlM_insert?_eq_error h
  rwa [show empty.sum = 0 from rfl, Nat.zero_add] at herror

/-- What is reported is counted and added up if it fits into a word, and in any case by a build
    that does not check. -/
theorem total?_ofPairs?_of_fits {pairs : List (String × UInt64)}
    (h : reported pairs < 2 ^ 64 ∨ Build.checks = false) :
    ofPairs? pairs = .ok (ofPairs pairs) ∧ (ofPairs pairs).total? = .ok (ofPairs pairs).total := by
  constructor
  · match hpairs : ofPairs? pairs with
    | .ok c => rw [(ofPairs?_eq_ok hpairs).1]
    | .error fault =>
      obtain ⟨⟨hlarge, hchecks⟩, -⟩ := ofPairs?_eq_error hpairs
      exact absurd h (not_or.mpr ⟨Nat.not_lt.mpr hlarge, by simp [hchecks]⟩)
  · exact total?_eq_ok_iff.mpr ⟨h.imp_left fun hlt => sum_ofPairs hlt ▸ hlt, rfl⟩

/-- Otherwise the machine is at fault, where something is counted or where all is added up. -/
theorem total?_ofPairs?_of_overflow {pairs : List (String × UInt64)} (hchecks : Build.checks = true)
    (h : 2 ^ 64 ≤ reported pairs) : ofPairs? pairs >>= total? = .error .overflow := by
  match hpairs : ofPairs? pairs with
  | .ok c =>
    obtain ⟨-, hsum⟩ := ofPairs?_eq_ok hpairs
    exact total?_eq_error_iff.mpr ⟨⟨(hsum hchecks).symm ▸ h, hchecks⟩, rfl⟩
  | .error fault =>
    obtain ⟨-, rfl⟩ := ofPairs?_eq_error hpairs
    rfl

end Build

/-! ### One entry for each bitstring -/

theorem addEntry_addEntry (bits : String) (m n : UInt64) (entries : List (String × UInt64)) :
    addEntry bits n (addEntry bits m entries) = addEntry bits (m + n) entries := by
  induction entries with
  | nil => simp [addEntry]
  | cons entry entries ih =>
    obtain ⟨b, k⟩ := entry
    by_cases hb : b = bits
    · simp [addEntry, hb, UInt64.add_assoc]
    · simp [addEntry, hb, ih]

/-- A bitstring inserted twice in a row has been inserted once. -/
theorem insert_insert (c : Counts) (bits : String) (m n : UInt64) :
    (c.insert bits m).insert bits n = c.insert bits (m + n) :=
  congrArg Counts.mk (addEntry_addEntry bits m n c.entries)

theorem addEntry_of_notMem {bits : String} {entries : List (String × UInt64)}
    (h : bits ∉ entries.map Prod.fst) (count : UInt64) :
    addEntry bits count entries = entries ++ [(bits, count)] := by
  induction entries with
  | nil => rfl
  | cons entry entries ih =>
    obtain ⟨b, n⟩ := entry
    rw [List.map_cons, List.mem_cons, not_or] at h
    obtain ⟨hne, hrest⟩ := h
    rw [addEntry, if_neg (Ne.symm hne), ih hrest, List.cons_append]

theorem entries_foldl_insert {pairs : List (String × UInt64)} {c : Counts}
    (h : ((c.entries ++ pairs).map Prod.fst).Nodup) :
    (pairs.foldl (fun c (bits, n) => c.insert bits n) c).entries = c.entries ++ pairs := by
  induction pairs generalizing c with
  | nil => rw [List.foldl_nil, List.append_nil]
  | cons pair pairs ih =>
    obtain ⟨bits, count⟩ := pair
    have hnew : bits ∉ c.entries.map Prod.fst := by
      rw [List.map_append, List.nodup_append] at h
      exact fun hmem => h.2.2 bits hmem bits (by simp) rfl
    have hentries : (c.insert bits count).entries = c.entries ++ [(bits, count)] :=
      addEntry_of_notMem hnew count
    rw [List.foldl_cons, ih (by rwa [hentries, List.append_assoc, List.singleton_append]), hentries,
      List.append_assoc, List.singleton_append]

theorem entries_ofPairs {pairs : List (String × UInt64)} (h : (pairs.map Prod.fst).Nodup) :
    (ofPairs pairs).entries = pairs :=
  entries_foldl_insert h

theorem get_of_mem {c : Counts} (hkeys : (c.entries.map Prod.fst).Nodup) {bits : String}
    {n : UInt64} (h : (bits, n) ∈ c.entries) : c.get bits = n := by
  have hfind : c.entries.find? (·.1 = bits) = some (bits, n) := by
    rw [List.find?_eq_some_iff_append]
    obtain ⟨front, back, hsplit⟩ := List.append_of_mem h
    refine ⟨by simp, front, back, hsplit, fun entry hentry => ?_⟩
    rw [hsplit, List.map_append, List.nodup_append] at hkeys
    simpa using hkeys.2.2 entry.1 (List.mem_map_of_mem hentry) bits (by simp)
  rw [get, hfind]

theorem get_of_notMem {c : Counts} {bits : String} (h : bits ∉ c.entries.map Prod.fst) :
    c.get bits = 0 := by
  have hfind : c.entries.find? (·.1 = bits) = none := by
    rw [List.find?_eq_none]
    exact fun entry hentry hbits => h (List.mem_map.mpr ⟨entry, hentry, by simpa using hbits⟩)
  rw [get, hfind]

end Counts

end CircuitBroker
