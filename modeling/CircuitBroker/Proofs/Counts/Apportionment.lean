/-
  CircuitBroker/Proofs/Counts/Apportionment.lean
  ==============================================
  **Shots divided by largest remainders.**

  Over the rationals the whole parts of all shares leave over as many shots as the remainders
  add up to (`leftover_eq_sum`).  A remainder is less than one, so no fewer outcomes have one
  than there are shots left over; with the largest first, a shot goes to outcomes with a
  remainder only (`remainder_pos_of_rank_lt`).  That makes the counts sum to the shots and
  leaves a whole share as it is.

  The ranking forgets the order of the weights but for portions of one bitstring with the
  same remainder, and the shots of these are counted together.
-/
import CircuitBroker.Proofs.Counts
import CircuitBroker.Proofs.Reordering

namespace CircuitBroker

/-! ## 1. Rationals as scalars -/

/-- Exact comparisons.  The length of a vector is exact where it is rational; no share asks
    for it. -/
instance : Magnitude ℚ where
  lt x y := decide (x < y)
  le x y := decide (x ≤ y)
  max := max
  hypot x y := Rat.sqrt (x * x + y * y)
  isFinite _ := true
  tolerance := 1 / 10 ^ 9

instance : Share ℚ where
  ofNat n := n
  floor x := ⌊x⌋₊
  fraction x := Int.fract x
  compare x y := compare x y

namespace Counts

variable {weights : List (String × ℚ)} {shots : ℕ}

/-! ## 2. Shares -/

/-- What the weights add up to, the negative ones as zero. -/
def mass (weights : List (String × ℚ)) : ℚ := (weights.map fun p => max p.2 0).sum

/-- What a weight is owed of the shots, before anything is rounded. -/
def exactShare (weights : List (String × ℚ)) (shots : ℕ) (weight : ℚ) : ℚ :=
  max weight 0 / mass weights * shots

theorem nonneg_of_mem_clipped (weights : List (String × ℚ)) :
    ∀ w ∈ weights.map (fun p => max p.2 0), 0 ≤ w := by
  intro w hw
  obtain ⟨p, -, rfl⟩ := List.mem_map.mp hw
  exact le_max_right _ _

theorem mass_nonneg (weights : List (String × ℚ)) : 0 ≤ mass weights :=
  List.sum_nonneg (nonneg_of_mem_clipped weights)

theorem mass_nonpos_iff : mass weights ≤ 0 ↔ ∀ p ∈ weights, p.2 ≤ 0 := by
  constructor
  · intro h p hp
    have hsingle : max p.2 0 ≤ mass weights :=
      List.single_le_sum (nonneg_of_mem_clipped weights) _ (List.mem_map.mpr ⟨p, hp, rfl⟩)
    exact (le_max_left _ _).trans (hsingle.trans h)
  · intro h
    have hzero : weights.map (fun p => max p.2 0) = weights.map fun _ => (0 : ℚ) :=
      List.map_congr_left fun p hp => max_eq_right (h p hp)
    rw [mass, hzero]
    simp

theorem mass_pos_iff : 0 < mass weights ↔ ∃ p ∈ weights, 0 < p.2 := by
  rw [← not_le, mass_nonpos_iff]
  push Not
  rfl

theorem exactShare_nonneg (weights : List (String × ℚ)) (shots : ℕ) (w : ℚ) :
    0 ≤ exactShare weights shots w :=
  mul_nonneg (div_nonneg (le_max_right _ _) (mass_nonneg weights)) (Nat.cast_nonneg shots)

theorem exactShare_of_nonpos {w : ℚ} (h : w ≤ 0) : exactShare weights shots w = 0 := by
  rw [exactShare, max_eq_right h, zero_div, zero_mul]

/-- Different weights are owed different shares, if the smaller is owed anything. -/
theorem exactShare_lt_or_eq_zero {v w : ℚ} (hmass : 0 < mass weights) (h : v < w) :
    exactShare weights shots v < exactShare weights shots w ∨ exactShare weights shots v = 0 := by
  rcases shots.eq_zero_or_pos with rfl | hshots
  · exact .inr (by simp [exactShare])
  rcases le_or_gt v 0 with hv | hv
  · exact .inr (exactShare_of_nonpos hv)
  · refine .inl ?_
    rw [exactShare, exactShare, max_eq_left hv.le, max_eq_left (hv.trans h).le]
    gcongr

theorem sum_exactShare (hmass : 0 < mass weights) (shots : ℕ) :
    (weights.map fun p => exactShare weights shots p.2).sum = shots := by
  have hfactor : ∀ w, exactShare weights shots w = max w 0 * (shots / mass weights) := by
    intro w
    rw [exactShare]
    ring
  simp only [hfactor]
  rw [List.sum_map_mul_right, ← mass, mul_div_cancel₀ _ hmass.ne']

/-! ## 3. What apportioning computes -/

def portionOf (weights : List (String × ℚ)) (shots : ℕ) (p : String × ℚ) : Portion ℚ :=
  ⟨p.1, ⌊exactShare weights shots p.2⌋₊, Int.fract (exactShare weights shots p.2)⟩

def assigned (weights : List (String × ℚ)) (shots : ℕ) : ℕ :=
  (weights.map fun p => (portionOf weights shots p).whole).sum

def leftover (weights : List (String × ℚ)) (shots : ℕ) : ℕ := shots - assigned weights shots

def ranking (weights : List (String × ℚ)) (shots : ℕ) : List (Portion ℚ) :=
  (weights.map (portionOf weights shots)).mergeSort Portion.before

/-- The shots of a portion at its rank, when so many are left over. -/
def Portion.awarded (left rank : ℕ) (p : Portion ℚ) : ℕ :=
  if rank < left then p.whole + 1 else p.whole

def awards (left rank : ℕ) (portions : List (Portion ℚ)) : List (String × ℕ) :=
  (portions.zipIdx rank).map fun (p, rank) => (p.bits, p.awarded left rank)

def tally (pairs : List (String × ℕ)) : Counts :=
  ofPairs ((pairs.filter (0 < ·.2)).map fun (bits, n) => (bits, n.toUInt64))

/-- The counts by which shots are divided, where any weight is positive. -/
def apportioned (weights : List (String × ℚ)) (shots : ℕ) : Counts :=
  tally (awards (leftover weights shots) 0 (ranking weights shots))

theorem apportion_eq (weights : List (String × ℚ)) (shots : ℕ) :
    apportion weights shots =
      if mass weights ≤ 0 then none else some (apportioned weights shots) := by
  have htotal : (weights.map fun p => (p.1, max p.2 0)).foldl (fun t p => t + p.2) 0 =
      mass weights := by
    rw [List.foldl_map, mass, List.sum_eq_foldl, List.foldl_map]
  have hwhole : (weights.map (portionOf weights shots)).foldl (fun n p => n + p.whole) 0 =
      assigned weights shots := by
    rw [List.foldl_map, assigned, List.sum_eq_foldl, List.foldl_map]
  have hportions : (weights.map fun p => (p.1, max p.2 0)).map (fun p =>
      (⟨p.1, Share.floor (p.2 / mass weights * Share.ofNat shots),
        Share.fraction (p.2 / mass weights * Share.ofNat shots)⟩ : Portion ℚ)) =
      weights.map (portionOf weights shots) := by
    rw [List.map_map]
    rfl
  unfold apportion
  simp only [Magnitude.max, Magnitude.isFinite, Magnitude.le, htotal, hportions, hwhole]
  simp only [Bool.not_true, Bool.false_or, decide_eq_true_eq]
  rfl

/-! ## 4. What is left over -/

theorem whole_add_remainder (weights : List (String × ℚ)) (shots : ℕ) (p : String × ℚ) :
    ((portionOf weights shots p).whole : ℚ) + (portionOf weights shots p).remainder =
      exactShare weights shots p.2 := by
  rw [portionOf, natCast_floor_eq_intCast_floor (exactShare_nonneg weights shots p.2)]
  exact Int.floor_add_fract _

theorem assigned_add_sum (hmass : 0 < mass weights) (shots : ℕ) :
    (assigned weights shots : ℚ) +
      (weights.map fun p => (portionOf weights shots p).remainder).sum = shots := by
  rw [← sum_exactShare hmass shots, assigned, Nat.cast_list_sum, List.map_map, ← List.sum_map_add]
  simp only [Function.comp_apply, whole_add_remainder]

theorem sum_remainder_nonneg (weights : List (String × ℚ)) (shots : ℕ) :
    0 ≤ (weights.map fun p => (portionOf weights shots p).remainder).sum := by
  apply List.sum_nonneg
  intro r hr
  obtain ⟨p, -, rfl⟩ := List.mem_map.mp hr
  exact Int.fract_nonneg _

theorem assigned_le (hmass : 0 < mass weights) (shots : ℕ) : assigned weights shots ≤ shots := by
  have hsum := assigned_add_sum hmass shots
  have hnonneg := sum_remainder_nonneg weights shots
  have hcast : (assigned weights shots : ℚ) ≤ shots := by linarith
  exact_mod_cast hcast

/-- The remainders add up to the shots that are left over. -/
theorem leftover_eq_sum (hmass : 0 < mass weights) (shots : ℕ) :
    (leftover weights shots : ℚ) =
      (weights.map fun p => (portionOf weights shots p).remainder).sum := by
  rw [leftover, Nat.cast_sub (assigned_le hmass shots), ← assigned_add_sum hmass shots]
  ring

/-- Remainders below one add up to no more than there are positive ones. -/
theorem sum_remainder_le_countP {portions : List (Portion ℚ)}
    (h : ∀ p ∈ portions, p.remainder < 1) :
    (portions.map (·.remainder)).sum ≤ portions.countP (0 < ·.remainder) := by
  induction portions with
  | nil => simp
  | cons p portions ih =>
    obtain ⟨hp, hportions⟩ := List.forall_mem_cons.mp h
    have hrest := ih hportions
    rw [List.map_cons, List.sum_cons, List.countP_cons]
    by_cases hpos : 0 < p.remainder
    · simp only [hpos, decide_true, if_true, Nat.cast_add, Nat.cast_one]
      linarith
    · simp only [hpos, decide_false, Bool.false_eq_true, if_false, Nat.add_zero]
      linarith

/-! ## 5. The ranking -/

theorem Portion.before_iff {a b : Portion ℚ} : a.before b = true ↔
    b.remainder < a.remainder ∨ (b.remainder = a.remainder ∧ a.bits ≤ b.bits) := by
  unfold Portion.before Share.compare instShareRat
  rcases lt_trichotomy b.remainder a.remainder with h | h | h
  · simp [compare_lt_iff_lt.mpr h, h]
  · simp [h]
  · simp [compare_gt_iff_gt.mpr h, h.not_gt, h.ne']

theorem Portion.before_trans {a b c : Portion ℚ} (hab : a.before b = true)
    (hbc : b.before c = true) : a.before c = true := by
  rw [before_iff] at hab hbc ⊢
  rcases hab with hab | ⟨hab, habits⟩
  · rcases hbc with hbc | ⟨hbc, -⟩
    · exact .inl (hbc.trans hab)
    · exact .inl (hbc ▸ hab)
  · rcases hbc with hbc | ⟨hbc, hbbits⟩
    · exact .inl (hab ▸ hbc)
    · exact .inr ⟨hbc.trans hab, habits.trans hbbits⟩

theorem Portion.before_total (a b : Portion ℚ) : (a.before b || b.before a) = true := by
  rw [Bool.or_eq_true, before_iff, before_iff]
  rcases lt_trichotomy a.remainder b.remainder with h | h | h
  · exact .inr (.inl h)
  · rcases le_total a.bits b.bits with hbits | hbits
    · exact .inl (.inr ⟨h.symm, hbits⟩)
    · exact .inr (.inr ⟨h, hbits⟩)
  · exact .inl (.inl h)

theorem Portion.bits_eq_of_before {a b : Portion ℚ} (hab : a.before b = true)
    (hba : b.before a = true) : a.bits = b.bits := by
  rw [before_iff] at hab hba
  rcases hab with hab | ⟨heq, hab⟩
  · rcases hba with hba | ⟨heq, -⟩
    · exact absurd hab hba.not_gt
    · exact absurd heq hab.ne'
  · rcases hba with hba | ⟨-, hba⟩
    · exact absurd heq hba.ne'
    · exact le_antisymm hab hba

theorem ranking_perm (weights : List (String × ℚ)) (shots : ℕ) :
    (ranking weights shots).Perm (weights.map (portionOf weights shots)) :=
  List.mergeSort_perm _ _

theorem ranking_pairwise (weights : List (String × ℚ)) (shots : ℕ) :
    (ranking weights shots).Pairwise fun a b => a.before b = true := by
  apply List.pairwise_mergeSort
  · intro a b c hab hbc
    exact Portion.before_trans hab hbc
  · intro a b
    exact Portion.before_total a b

/-- A remainder is no larger than those ranked before it. -/
theorem remainder_le_of_rank_le {i j : ℕ} {p q : Portion ℚ}
    (hp : (ranking weights shots)[i]? = some p) (hq : (ranking weights shots)[j]? = some q)
    (h : i ≤ j) : q.remainder ≤ p.remainder := by
  rcases h.eq_or_lt with rfl | hlt
  · rw [Option.some.inj (hp.symm.trans hq)]
  · obtain ⟨hi, rfl⟩ := List.getElem?_eq_some_iff.mp hp
    obtain ⟨hj, rfl⟩ := List.getElem?_eq_some_iff.mp hq
    have hbefore := List.pairwise_iff_getElem.mp (ranking_pairwise weights shots) i j hi hj hlt
    rcases Portion.before_iff.mp hbefore with hlt | ⟨heq, -⟩
    · exact hlt.le
    · exact heq.le

theorem leftover_le_countP (hmass : 0 < mass weights) (shots : ℕ) :
    leftover weights shots ≤ (ranking weights shots).countP (0 < ·.remainder) := by
  have hfract : ∀ p ∈ ranking weights shots, p.remainder < 1 := by
    intro p hp
    obtain ⟨w, -, rfl⟩ := List.mem_map.mp ((ranking_perm weights shots).mem_iff.mp hp)
    exact Int.fract_lt_one _
  have hsum : ((ranking weights shots).map (·.remainder)).sum = leftover weights shots := by
    rw [((ranking_perm weights shots).map _).sum_eq, List.map_map, leftover_eq_sum hmass]
    rfl
  exact_mod_cast hsum ▸ sum_remainder_le_countP hfract

/-- **Only an outcome with a remainder gets one of the shots left over.** -/
theorem remainder_pos_of_rank_lt (hmass : 0 < mass weights) {i : ℕ} {p : Portion ℚ}
    (hp : (ranking weights shots)[i]? = some p) (h : i < leftover weights shots) :
    0 < p.remainder := by
  by_contra hzero
  -- were there no remainder at this rank, there would be none from here on
  have hnone : ((ranking weights shots).drop i).countP (0 < ·.remainder) = 0 := by
    rw [List.countP_eq_zero]
    intro q hq
    obtain ⟨j, hj⟩ := List.mem_iff_getElem?.mp hq
    rw [List.getElem?_drop] at hj
    have hle := remainder_le_of_rank_le hp hj (Nat.le_add_right i j)
    simpa using hle.trans (not_lt.mp hzero)
  have hcount := leftover_le_countP hmass shots
  rw [← List.take_append_drop i (ranking weights shots), List.countP_append, hnone] at hcount
  have htake := (List.countP_le_length (p := fun q : Portion ℚ => decide (0 < q.remainder))
    (l := (ranking weights shots).take i))
  rw [List.length_take] at htake
  omega

/-! ## 6. Shots by rank -/

@[simp]
theorem awards_nil (left rank : ℕ) : awards left rank [] = [] := rfl

@[simp]
theorem awards_cons (left rank : ℕ) (p : Portion ℚ) (portions : List (Portion ℚ)) :
    awards left rank (p :: portions) =
      (p.bits, p.awarded left rank) :: awards left (rank + 1) portions := by
  rw [awards, List.zipIdx_cons, List.map_cons, awards]

theorem keys_awards (left rank : ℕ) (portions : List (Portion ℚ)) :
    (awards left rank portions).map Prod.fst = portions.map (·.bits) := by
  induction portions generalizing rank with
  | nil => rfl
  | cons p portions ih => rw [awards_cons, List.map_cons, List.map_cons, ih]

theorem mem_awards {left i : ℕ} {p : Portion ℚ} {portions : List (Portion ℚ)}
    (h : portions[i]? = some p) : (p.bits, p.awarded left i) ∈ awards left 0 portions :=
  List.mem_map.mpr ⟨(p, i), List.mem_zipIdx_iff_getElem?.mpr h, rfl⟩

theorem sum_awards (left rank : ℕ) (portions : List (Portion ℚ)) :
    ((awards left rank portions).map Prod.snd).sum =
      (portions.map (·.whole)).sum + (min left (rank + portions.length) - min left rank) := by
  induction portions generalizing rank with
  | nil => simp
  | cons p portions ih =>
    rw [awards_cons, List.map_cons, List.sum_cons, ih, List.map_cons, List.sum_cons,
      List.length_cons]
    simp only [Portion.awarded]
    split <;> omega

theorem sum_awards_ranking (hmass : 0 < mass weights) (shots : ℕ) :
    ((awards (leftover weights shots) 0 (ranking weights shots)).map Prod.snd).sum = shots := by
  have hwhole : ((ranking weights shots).map (·.whole)).sum = assigned weights shots := by
    rw [((ranking_perm weights shots).map _).sum_eq, List.map_map]
    rfl
  have hle := assigned_le hmass shots
  -- there is a portion for every shot that is left over
  have hlength := (leftover_le_countP hmass shots).trans List.countP_le_length
  rw [sum_awards, hwhole]
  simp only [leftover] at hlength ⊢
  omega

theorem awarded_of_remainder_eq_zero (hmass : 0 < mass weights) {i : ℕ} {p : Portion ℚ}
    (hp : (ranking weights shots)[i]? = some p) (h : p.remainder = 0) :
    p.awarded (leftover weights shots) i = p.whole := by
  rw [Portion.awarded, if_neg]
  exact fun hi => (remainder_pos_of_rank_lt hmass hp hi).ne' h

theorem awarded_of_share_eq_zero (hmass : 0 < mass weights) {i : ℕ} {p : String × ℚ}
    (hp : (ranking weights shots)[i]? = some (portionOf weights shots p))
    (h : exactShare weights shots p.2 = 0) :
    (portionOf weights shots p).awarded (leftover weights shots) i = 0 := by
  have hportion : portionOf weights shots p = ⟨p.1, 0, 0⟩ := by
    rw [portionOf, h, Nat.floor_zero, Int.fract_zero]
  rw [awarded_of_remainder_eq_zero hmass hp (by rw [hportion]), hportion]

/-! ## 7. Shots by bitstring -/

theorem nodup_keys_kept {pairs : List (String × ℕ)} (hkeys : (pairs.map Prod.fst).Nodup) :
    (((pairs.filter (0 < ·.2)).map fun (bits, n) => (bits, n.toUInt64)).map Prod.fst).Nodup := by
  rw [List.map_map]
  exact hkeys.sublist (List.filter_sublist.map Prod.fst)

theorem entries_tally {pairs : List (String × ℕ)} (hkeys : (pairs.map Prod.fst).Nodup) :
    (tally pairs).entries = (pairs.filter (0 < ·.2)).map fun (bits, n) => (bits, n.toUInt64) :=
  entries_ofPairs (nodup_keys_kept hkeys)

theorem mem_keys_tally_iff {pairs : List (String × ℕ)} (hkeys : (pairs.map Prod.fst).Nodup)
    {bits : String} {n : ℕ} (h : (bits, n) ∈ pairs) :
    bits ∈ (tally pairs).entries.map Prod.fst ↔ 0 < n := by
  rw [entries_tally hkeys, List.map_map]
  constructor
  · intro hmem
    obtain ⟨pair, hpair, hbits⟩ := List.mem_map.mp hmem
    obtain ⟨hin, hpos⟩ := List.mem_filter.mp hpair
    have hsame : pair = (bits, n) := List.inj_on_of_nodup_map hkeys hin h hbits
    simpa [hsame] using hpos
  · intro hpos
    exact List.mem_map.mpr ⟨(bits, n), List.mem_filter.mpr ⟨h, by simpa using hpos⟩, rfl⟩

theorem get_tally {pairs : List (String × ℕ)} (hkeys : (pairs.map Prod.fst).Nodup)
    {bits : String} {n : ℕ} (h : (bits, n) ∈ pairs) (hn : n < 2 ^ 64) :
    ((tally pairs).get bits).toNat = n := by
  rcases n.eq_zero_or_pos with rfl | hpos
  · rw [get_of_notMem ((mem_keys_tally_iff hkeys h).not.mpr (Nat.lt_irrefl 0)), UInt64.toNat_zero]
  · have hentry : (bits, n.toUInt64) ∈ (tally pairs).entries := by
      rw [entries_tally hkeys]
      exact List.mem_map.mpr ⟨(bits, n), List.mem_filter.mpr ⟨h, by simpa using hpos⟩, rfl⟩
    have hentries : ((tally pairs).entries.map Prod.fst).Nodup := by
      rw [entries_tally hkeys]
      exact nodup_keys_kept hkeys
    rw [get_of_mem hentries hentry]
    exact UInt64.toNat_ofNat_of_lt' hn

theorem sum_tally {pairs : List (String × ℕ)} (h : (pairs.map Prod.snd).sum < 2 ^ 64) :
    (tally pairs).sum = (pairs.map Prod.snd).sum := by
  have hreported : reported ((pairs.filter (0 < ·.2)).map fun (bits, n) => (bits, n.toUInt64)) =
      (pairs.map Prod.snd).sum := by
    induction pairs with
    | nil => rfl
    | cons pair pairs ih =>
      obtain ⟨bits, n⟩ := pair
      rw [List.map_cons, List.sum_cons] at h ⊢
      have hrest := ih (by omega)
      rcases n.eq_zero_or_pos with rfl | hpos
      · rw [List.filter_cons_of_neg (by simp), hrest, Nat.zero_add]
      · rw [List.filter_cons_of_pos (by simpa using hpos), ← hrest]
        simp only [reported, List.map_cons, List.sum_cons]
        have hn : n < 2 ^ 64 := by omega
        rw [Nat.toUInt64_eq, UInt64.toNat_ofNat_of_lt' hn]
  rw [tally, sum_ofPairs (hreported ▸ h), hreported]

/-- Every weight has its portion at some rank, and gets the shots awarded there. -/
theorem exists_rank (hmass : 0 < mass weights) (hshots : shots < 2 ^ 64)
    (hkeys : (weights.map Prod.fst).Nodup) {p : String × ℚ} (hp : p ∈ weights) :
    ∃ rank, (ranking weights shots)[rank]? = some (portionOf weights shots p) ∧
      ((apportioned weights shots).get p.1).toNat =
        (portionOf weights shots p).awarded (leftover weights shots) rank ∧
      (p.1 ∈ (apportioned weights shots).entries.map Prod.fst ↔
        0 < (portionOf weights shots p).awarded (leftover weights shots) rank) := by
  have hportion : portionOf weights shots p ∈ ranking weights shots :=
    (ranking_perm weights shots).mem_iff.mpr (List.mem_map_of_mem hp)
  obtain ⟨rank, hrank⟩ := List.mem_iff_getElem?.mp hportion
  have hnodup : ((awards (leftover weights shots) 0 (ranking weights shots)).map
      Prod.fst).Nodup := by
    rw [keys_awards, ((ranking_perm weights shots).map _).nodup_iff, List.map_map]
    exact hkeys
  have haward : (p.1, (portionOf weights shots p).awarded (leftover weights shots) rank) ∈
      awards (leftover weights shots) 0 (ranking weights shots) := mem_awards hrank
  have hle : (portionOf weights shots p).awarded (leftover weights shots) rank ≤ shots := by
    have hsingle := List.single_le_sum (fun _ _ => Nat.zero_le _) _
      (List.mem_map_of_mem (f := Prod.snd) haward)
    rwa [sum_awards_ranking hmass] at hsingle
  exact ⟨rank, hrank, get_tally hnodup haward (hle.trans_lt hshots),
    mem_keys_tally_iff hnodup haward⟩

/-! ## 8. The order of the weights -/

def place (c : Counts) (bits : String) (n : ℕ) : Counts :=
  if 0 < n then c.insert bits n.toUInt64 else c

theorem place_place (c : Counts) (bits : String) (m n : ℕ) :
    (c.place bits m).place bits n = c.place bits (m + n) := by
  unfold place
  rcases m.eq_zero_or_pos with rfl | hm
  · simp
  · rcases n.eq_zero_or_pos with rfl | hn
    · simp
    · rw [if_pos hm, if_pos hn, if_pos (by omega), insert_insert, Nat.toUInt64_eq, Nat.toUInt64_eq,
        Nat.toUInt64_eq, UInt64.ofNat_add]

def placeNext (left : ℕ) (s : ℕ × Counts) (p : Portion ℚ) : ℕ × Counts :=
  (s.1 + 1, s.2.place p.bits (p.awarded left s.1))

theorem foldl_awards (left rank : ℕ) (portions : List (Portion ℚ)) (c : Counts) :
    (((awards left rank portions).filter (0 < ·.2)).map
        fun (bits, n) => (bits, n.toUInt64)).foldl (fun c (bits, n) => c.insert bits n) c =
      (portions.foldl (placeNext left) (rank, c)).2 := by
  induction portions generalizing rank c with
  | nil => rfl
  | cons p portions ih =>
    rw [awards_cons, List.foldl_cons, placeNext, ← ih]
    by_cases hpos : 0 < p.awarded left rank
    · rw [List.filter_cons_of_pos (by simpa using hpos), List.map_cons, List.foldl_cons, place,
        if_pos hpos]
    · rw [List.filter_cons_of_neg (by simpa using hpos), place, if_neg hpos]

/-- Two portions of one bitstring may be placed in either order. -/
theorem placeNext_comm (left : ℕ) {a b : Portion ℚ} (h : a.bits = b.bits) (s : ℕ × Counts) :
    placeNext left (placeNext left s a) b = placeNext left (placeNext left s b) a := by
  have hsum : a.awarded left s.1 + b.awarded left (s.1 + 1) =
      b.awarded left s.1 + a.awarded left (s.1 + 1) := by
    unfold Portion.awarded
    split <;> split <;> omega
  simp only [placeNext, h, place_place, hsum]

theorem mass_perm {weights' : List (String × ℚ)} (h : weights'.Perm weights) :
    mass weights' = mass weights :=
  (h.map _).sum_eq

theorem portionOf_perm {weights' : List (String × ℚ)} (h : weights'.Perm weights) (shots : ℕ) :
    portionOf weights' shots = portionOf weights shots := by
  funext p
  simp only [portionOf, exactShare, mass_perm h]

theorem leftover_perm {weights' : List (String × ℚ)} (h : weights'.Perm weights) (shots : ℕ) :
    leftover weights' shots = leftover weights shots := by
  rw [leftover, leftover, assigned, assigned, portionOf_perm h, (h.map _).sum_eq]

/-- Two rankings differ in the order of portions of the same bitstring. -/
theorem ranking_reordered {weights' : List (String × ℚ)} (h : weights'.Perm weights) (shots : ℕ) :
    Reordered (fun a b => a.before b = true ∧ b.before a = true) (ranking weights' shots)
      (ranking weights shots) := by
  refine .of_pairwise ?_ (ranking_pairwise weights' shots) (ranking_pairwise weights shots)
  have hportions : (weights'.map (portionOf weights' shots)).Perm
      (weights.map (portionOf weights shots)) := by
    rw [portionOf_perm h]
    exact h.map _
  exact (ranking_perm weights' shots).trans (hportions.trans (ranking_perm weights shots).symm)

theorem apportioned_perm {weights' : List (String × ℚ)} (h : weights'.Perm weights) (shots : ℕ) :
    apportioned weights' shots = apportioned weights shots := by
  have hcomm : ∀ a ∈ ranking weights' shots, ∀ b ∈ ranking weights' shots,
      (a.before b = true ∧ b.before a = true) → ∀ s,
        placeNext (leftover weights shots) (placeNext (leftover weights shots) s a) b =
          placeNext (leftover weights shots) (placeNext (leftover weights shots) s b) a := by
    intro a _ b _ hab
    exact placeNext_comm _ (Portion.bits_eq_of_before hab.1 hab.2)
  have hfold := (ranking_reordered h shots).foldl_eq hcomm (0, empty)
  rw [apportioned, apportioned, tally, tally, ofPairs, ofPairs, foldl_awards, foldl_awards,
    leftover_perm h, hfold]

/-! ## 9. Largest remainders -/

/-- What it means to divide shots fairly by weights of different bitstrings. -/
structure Fair (weights : List (String × ℚ)) (shots : ℕ) (counts : Counts) : Prop where
  /-- A share is rounded down or up. -/
  rounded : ∀ p ∈ weights, (counts.get p.1).toNat = ⌊exactShare weights shots p.2⌋₊ ∨
    (counts.get p.1).toNat = ⌊exactShare weights shots p.2⌋₊ + 1
  /-- A whole share is met. -/
  exact_of_whole : ∀ p ∈ weights, (∃ k : ℤ, exactShare weights shots p.2 = k) →
    ((counts.get p.1).toNat : ℚ) = exactShare weights shots p.2
  /-- What has no weight does not come up. -/
  absent : ∀ p ∈ weights, p.2 ≤ 0 → p.1 ∉ counts.entries.map Prod.fst
  /-- More weight never gets fewer shots. -/
  monotone : ∀ p ∈ weights, ∀ q ∈ weights, p.2 < q.2 →
    (counts.get p.1).toNat ≤ (counts.get q.1).toNat

theorem whole_le_awarded (left rank : ℕ) (p : Portion ℚ) : p.whole ≤ p.awarded left rank := by
  unfold Portion.awarded
  split <;> omega

theorem awarded_le (left rank : ℕ) (p : Portion ℚ) : p.awarded left rank ≤ p.whole + 1 := by
  unfold Portion.awarded
  split <;> omega

theorem awarded_le_awarded {i j : ℕ} {p q : String × ℚ}
    (hi : (ranking weights shots)[i]? = some (portionOf weights shots p))
    (hj : (ranking weights shots)[j]? = some (portionOf weights shots q))
    (h : exactShare weights shots p.2 < exactShare weights shots q.2) :
    (portionOf weights shots p).awarded (leftover weights shots) i ≤
      (portionOf weights shots q).awarded (leftover weights shots) j := by
  have hwhole : (portionOf weights shots p).whole ≤ (portionOf weights shots q).whole :=
    Nat.floor_mono h.le
  rcases hwhole.lt_or_eq with hlt | heq
  · exact (awarded_le _ _ _).trans (hlt.trans_le (whole_le_awarded _ _ _))
  · -- of two shares with the same whole part the larger is ranked first
    have hremainder : (portionOf weights shots p).remainder <
        (portionOf weights shots q).remainder := by
      rw [← whole_add_remainder, ← whole_add_remainder, heq] at h
      exact lt_of_add_lt_add_left h
    have hrank : j < i := by
      by_contra hle
      exact (remainder_le_of_rank_le hi hj (not_lt.mp hle)).not_gt hremainder
    unfold Portion.awarded
    rw [heq]
    split <;> split <;> omega

theorem fair_apportioned (hmass : 0 < mass weights) (hshots : shots < 2 ^ 64)
    (hkeys : (weights.map Prod.fst).Nodup) : Fair weights shots (apportioned weights shots) where
  rounded p hp := by
    obtain ⟨rank, -, hget, -⟩ := exists_rank hmass hshots hkeys hp
    rw [hget, Portion.awarded]
    split
    · exact .inr rfl
    · exact .inl rfl
  exact_of_whole p hp hwhole := by
    obtain ⟨k, hk⟩ := hwhole
    obtain ⟨rank, hrank, hget, -⟩ := exists_rank hmass hshots hkeys hp
    have hremainder : (portionOf weights shots p).remainder = 0 := by
      rw [portionOf, hk, Int.fract_intCast]
    rw [hget, awarded_of_remainder_eq_zero hmass hrank hremainder, ← whole_add_remainder,
      hremainder, add_zero]
  absent p hp hnonpos := by
    obtain ⟨rank, hrank, -, hmem⟩ := exists_rank hmass hshots hkeys hp
    rw [hmem, awarded_of_share_eq_zero hmass hrank (exactShare_of_nonpos hnonpos)]
    exact Nat.lt_irrefl 0
  monotone p hp q hq hlt := by
    obtain ⟨i, hi, hgeti, -⟩ := exists_rank hmass hshots hkeys hp
    obtain ⟨j, hj, hgetj, -⟩ := exists_rank hmass hshots hkeys hq
    rw [hgeti, hgetj]
    rcases exactShare_lt_or_eq_zero hmass hlt with hshare | hshare
    · exact awarded_le_awarded hi hj hshare
    · rw [awarded_of_share_eq_zero hmass hi hshare]
      exact Nat.zero_le _

/-- **Shots are divided by largest remainders.**  There are counts unless no weight is
    positive; they sum to the shots, are fair to weights of different bitstrings, and do not
    depend on the order of the weights. -/
theorem apportion_by_largest_remainder (weights : List (String × ℚ)) {shots : ℕ}
    (hshots : shots < 2 ^ 64) :
    (apportion weights shots = none ↔ ∀ p ∈ weights, p.2 ≤ 0) ∧
    ((∃ p ∈ weights, 0 < p.2) → ∃ counts, apportion weights shots = some counts ∧
      counts.sum = shots ∧ counts.total.toNat = shots ∧
      ((weights.map Prod.fst).Nodup → Fair weights shots counts)) ∧
    ∀ weights' : List (String × ℚ), weights'.Perm weights →
      apportion weights' shots = apportion weights shots := by
  refine ⟨?_, fun hpositive => ?_, fun weights' hperm => ?_⟩
  · rw [apportion_eq, ← mass_nonpos_iff]
    split <;> simp_all
  · have hmass := mass_pos_iff.mpr hpositive
    have hsum : (apportioned weights shots).sum = shots := by
      rw [apportioned, sum_tally (by rwa [sum_awards_ranking hmass]), sum_awards_ranking hmass]
    refine ⟨apportioned weights shots, ?_, hsum, ?_, fair_apportioned hmass hshots⟩
    · rw [apportion_eq, if_neg hmass.not_ge]
    · rw [toNat_total (hsum.trans_lt hshots), hsum]
  · rw [apportion_eq, apportion_eq, mass_perm hperm, apportioned_perm hperm]

/-- Seven shots for three equal weights and a negative one: the shot left over goes to the
    smallest bitstring. -/
theorem apportion_by_largest_remainder_thirds :
    apportion [("10", (1 / 3 : ℚ)), ("11", -1), ("01", 1 / 3), ("00", 1 / 3)] 7 =
      some ⟨[("00", 3), ("01", 2), ("10", 2)]⟩ ∧
    Fair [("10", (1 / 3 : ℚ)), ("11", -1), ("01", 1 / 3), ("00", 1 / 3)] 7
      ⟨[("00", 3), ("01", 2), ("10", 2)]⟩ := by
  have hcounts : apportion [("10", (1 / 3 : ℚ)), ("11", -1), ("01", 1 / 3), ("00", 1 / 3)] 7 =
      some ⟨[("00", 3), ("01", 2), ("10", 2)]⟩ := by cbv
  have hlaw := apportion_by_largest_remainder
    [("10", (1 / 3 : ℚ)), ("11", -1), ("01", 1 / 3), ("00", 1 / 3)] (by decide : 7 < 2 ^ 64)
  obtain ⟨counts, hsome, -, -, hfair⟩ := hlaw.2.1 ⟨("00", 1 / 3), by simp, by norm_num⟩
  rw [hcounts] at hsome
  obtain rfl := Option.some.inj hsome
  exact ⟨hcounts, hfair (by decide)⟩

end Counts

end CircuitBroker
