/-
  CircuitBroker/Proofs/Statevector/Index.lean
  ===========================================
  **Indices of a state as assignments of bits to qubits.**

  A gate looks at an index twice: it reads the bits of its targets as a row number
  (`localIndex`) and writes a column number back to them (`replaceBits`).  The two are
  inverse to each other, and everything said about them here is said bit by bit, so that
  later proofs never open a mask, a shift or a fold.  The last section ties them to the
  masks and offsets a simulation computes with.
-/
import CircuitBroker.Simulation.Statevector
import Mathlib

namespace CircuitBroker.Statevector

/-! ### One bit -/

def setBit (index q : Nat) (b : Bool) : Nat :=
  if b then index ||| 2 ^ q else (index ||| 2 ^ q) ^^^ 2 ^ q

@[simp] theorem testBit_setBit (index q r : Nat) (b : Bool) :
    (setBit index q b).testBit r = if r = q then b else index.testBit r := by
  by_cases h : r = q
  · subst h
    cases b <;> simp [setBit]
  · have hne : ¬ q = r := fun hq => h hq.symm
    cases b <;> simp [setBit, Nat.testBit_two_pow_of_ne hne, h]

theorem setBit_lt {index q n : Nat} (b : Bool) (hq : q < n) (hi : index < 2 ^ n) :
    setBit index q b < 2 ^ n := by
  have hpow : 2 ^ q < 2 ^ n := Nat.pow_lt_pow_right (by decide) hq
  have hor : index ||| 2 ^ q < 2 ^ n := Nat.or_lt_two_pow hi hpow
  cases b
  · exact Nat.xor_lt_two_pow hor hpow
  · exact hor

theorem add_two_pow_of_testBit {index q : Nat} (h : index.testBit q = false) :
    index + 2 ^ q = setBit index q true := by
  have hlow : index % 2 ^ (q + 1) < 2 ^ q := by
    by_contra hge
    have hbit : (index % 2 ^ (q + 1)).testBit q = true :=
      Nat.testBit_of_two_pow_le_and_two_pow_add_one_gt (Nat.le_of_not_lt hge)
        (Nat.mod_lt _ (by positivity))
    rw [Nat.testBit_mod_two_pow, h] at hbit
    simp at hbit
  have hsplit : 2 ^ (q + 1) * (index / 2 ^ (q + 1)) + index % 2 ^ (q + 1) = index :=
    Nat.div_add_mod index _
  have hsum : index % 2 ^ (q + 1) + 2 ^ q < 2 ^ (q + 1) := by
    have hpow : 2 ^ (q + 1) = 2 ^ q + 2 ^ q := by ring
    omega
  apply Nat.eq_of_testBit_eq
  intro r
  rw [testBit_setBit]
  -- below `q + 1` the sum happens in the remainder, above it nothing changes
  conv_lhs => rw [← hsplit, Nat.add_assoc, Nat.testBit_two_pow_mul_add _ hsum]
  conv_rhs => rw [← hsplit, Nat.testBit_two_pow_mul_add _ (Nat.mod_lt _ (by positivity))]
  by_cases hr : r < q + 1
  · rw [if_pos hr, if_pos hr, Nat.add_comm]
    by_cases hq : r = q
    · subst hq
      rw [if_pos rfl, Nat.testBit_two_pow_add_eq, Nat.testBit_lt_two_pow hlow]
      rfl
    · rw [if_neg hq, Nat.testBit_two_pow_add_gt (by omega)]
  · rw [if_neg hr, if_neg hr, if_neg (by omega)]

/-! ### Reading and writing the bits of some qubits -/

/-- The bits of some qubits as a number, the first qubit the most significant. -/
def localIndex : List Nat → Nat → Nat
  | [], _ => 0
  | q :: qs, index => (if index.testBit q then 2 ^ qs.length else 0) + localIndex qs index

/-- The index with the bits of some qubits replaced by those of a number, the first qubit
    taking the most significant. -/
def replaceBits : List Nat → Nat → Nat → Nat
  | [], _, index => index
  | q :: qs, value, index => setBit (replaceBits qs value index) q (value.testBit qs.length)

variable {targets others controls : List Nat} {value index n : Nat}

@[simp] theorem testBit_replaceBits_cons (q : Nat) (qs : List Nat) (value index r : Nat) :
    (replaceBits (q :: qs) value index).testBit r =
      if r = q then value.testBit qs.length else (replaceBits qs value index).testBit r :=
  testBit_setBit ..

theorem testBit_replaceBits_of_notMem {r : Nat} (h : r ∉ targets) :
    (replaceBits targets value index).testBit r = index.testBit r := by
  induction targets with
  | nil => rfl
  | cons q qs ih =>
    rw [List.mem_cons, not_or] at h
    rw [testBit_replaceBits_cons, if_neg h.1, ih h.2]

/-- What a written bit reads depends on the number alone. -/
theorem testBit_replaceBits_of_mem {r : Nat} (h : r ∈ targets) (other : Nat) :
    (replaceBits targets value index).testBit r =
      (replaceBits targets value other).testBit r := by
  induction targets with
  | nil => cases h
  | cons q qs ih =>
    rw [testBit_replaceBits_cons, testBit_replaceBits_cons]
    by_cases hr : r = q
    · rw [if_pos hr, if_pos hr]
    · rw [if_neg hr, if_neg hr, ih ((List.mem_cons.mp h).resolve_left hr)]

theorem testBit_replaceBits_zero (targets : List Nat) (index r : Nat) :
    (replaceBits targets 0 index).testBit r = (!decide (r ∈ targets) && index.testBit r) := by
  induction targets with
  | nil => simp [replaceBits]
  | cons q qs ih =>
    rw [testBit_replaceBits_cons, ih, Nat.zero_testBit]
    by_cases h : r = q
    · simp [h]
    · simp [h]

theorem replaceBits_zero_of_clear (h : ∀ q ∈ targets, index.testBit q = false) :
    replaceBits targets 0 index = index := by
  apply Nat.eq_of_testBit_eq
  intro r
  rw [testBit_replaceBits_zero]
  by_cases hr : r ∈ targets
  · simp [hr, h r hr]
  · simp [hr]

theorem replaceBits_lt (h : ∀ q ∈ targets, q < n) (hi : index < 2 ^ n) :
    replaceBits targets value index < 2 ^ n := by
  induction targets with
  | nil => exact hi
  | cons q qs ih =>
    exact setBit_lt _ (h q List.mem_cons_self) (ih fun r hr => h r (List.mem_cons_of_mem q hr))

theorem localIndex_lt (targets : List Nat) (index : Nat) :
    localIndex targets index < 2 ^ targets.length := by
  induction targets with
  | nil => simp [localIndex]
  | cons q qs ih =>
    rw [localIndex, List.length_cons, pow_succ]
    split <;> omega

theorem localIndex_congr {other : Nat}
    (h : ∀ q ∈ targets, index.testBit q = other.testBit q) :
    localIndex targets index = localIndex targets other := by
  induction targets with
  | nil => rfl
  | cons q qs ih =>
    rw [localIndex, localIndex, h q List.mem_cons_self,
      ih fun r hr => h r (List.mem_cons_of_mem q hr)]

/-- A number is read back as it was written. -/
theorem localIndex_replaceBits_mod (h : targets.Nodup) :
    localIndex targets (replaceBits targets value index) = value % 2 ^ targets.length := by
  induction targets with
  | nil => simp [localIndex, Nat.mod_one]
  | cons q qs ih =>
    obtain ⟨hq, hqs⟩ := List.nodup_cons.mp h
    have hrest : localIndex qs (replaceBits (q :: qs) value index) =
        localIndex qs (replaceBits qs value index) := by
      apply localIndex_congr
      intro r hr
      have hne : r ≠ q := by rintro rfl; exact hq hr
      rw [testBit_replaceBits_cons, if_neg hne]
    rw [localIndex, hrest, ih hqs, testBit_replaceBits_cons, if_pos rfl, List.length_cons,
      Nat.mod_pow_succ, Nat.testBit_eq_decide_div_mod_eq]
    rcases Nat.mod_two_eq_zero_or_one (value / 2 ^ qs.length) with h0 | h1
    · simp [h0]
    · simp [h1, Nat.add_comm]

theorem localIndex_replaceBits (h : targets.Nodup) (hv : value < 2 ^ targets.length) :
    localIndex targets (replaceBits targets value index) = value := by
  rw [localIndex_replaceBits_mod h, Nat.mod_eq_of_lt hv]

/-- The most significant bit of a row number is the first target. -/
theorem testBit_localIndex_cons (q : Nat) (qs : List Nat) (index : Nat) :
    (localIndex (q :: qs) index).testBit qs.length = index.testBit q := by
  have hlt : localIndex qs index < 2 ^ qs.length := localIndex_lt qs index
  rw [localIndex]
  by_cases h : index.testBit q
  · rw [if_pos h, Nat.testBit_two_pow_add_eq, Nat.testBit_lt_two_pow hlt, h]
    rfl
  · rw [if_neg h, Nat.zero_add, Nat.testBit_lt_two_pow hlt]
    simpa using h

/-- Only the bits a number has places for matter when it is written. -/
theorem replaceBits_congr {w : Nat}
    (h : ∀ j < targets.length, value.testBit j = w.testBit j) :
    replaceBits targets value index = replaceBits targets w index := by
  induction targets with
  | nil => rfl
  | cons q qs ih =>
    rw [replaceBits, replaceBits, h qs.length (by simp),
      ih fun j hj => h j (by simp only [List.length_cons]; omega)]

@[simp] theorem replaceBits_localIndex (targets : List Nat) (index : Nat) :
    replaceBits targets (localIndex targets index) index = index := by
  induction targets with
  | nil => rfl
  | cons q qs ih =>
    have hrest : replaceBits qs (localIndex (q :: qs) index) index = index := by
      rw [replaceBits_congr (w := localIndex qs index), ih]
      intro j hj
      rw [localIndex]
      split
      · exact Nat.testBit_two_pow_add_gt hj _
      · rw [Nat.zero_add]
    apply Nat.eq_of_testBit_eq
    intro r
    rw [testBit_replaceBits_cons, testBit_localIndex_cons, hrest]
    split
    · next hr => rw [hr]
    · rfl

theorem replaceBits_replaceBits (targets : List Nat) (value other index : Nat) :
    replaceBits targets value (replaceBits targets other index) =
      replaceBits targets value index := by
  apply Nat.eq_of_testBit_eq
  intro r
  by_cases h : r ∈ targets
  · exact testBit_replaceBits_of_mem h _
  · rw [testBit_replaceBits_of_notMem h, testBit_replaceBits_of_notMem h,
      testBit_replaceBits_of_notMem h]

/-- Writing to one index gives another exactly if they agree outside the qubits and the number
    is what the other reads there. -/
theorem replaceBits_eq_iff {other : Nat} (h : targets.Nodup) (hv : value < 2 ^ targets.length) :
    replaceBits targets value index = other ↔
      replaceBits targets 0 index = replaceBits targets 0 other ∧
        value = localIndex targets other := by
  constructor
  · rintro rfl
    rw [replaceBits_replaceBits, localIndex_replaceBits h hv]
    exact ⟨rfl, rfl⟩
  · rintro ⟨hagree, rfl⟩
    rw [← replaceBits_replaceBits targets _ 0 index, hagree, replaceBits_replaceBits,
      replaceBits_localIndex]

theorem replaceBits_comm (h : List.Disjoint targets others) (value other index : Nat) :
    replaceBits targets value (replaceBits others other index) =
      replaceBits others other (replaceBits targets value index) := by
  apply Nat.eq_of_testBit_eq
  intro r
  by_cases ht : r ∈ targets
  · have ho : r ∉ others := fun ho => h ht ho
    rw [testBit_replaceBits_of_notMem ho]
    exact testBit_replaceBits_of_mem ht _
  · rw [testBit_replaceBits_of_notMem ht]
    by_cases ho : r ∈ others
    · exact testBit_replaceBits_of_mem ho _
    · rw [testBit_replaceBits_of_notMem ho, testBit_replaceBits_of_notMem ho,
        testBit_replaceBits_of_notMem ht]

theorem localIndex_replaceBits_of_disjoint (h : List.Disjoint targets others)
    (value index : Nat) :
    localIndex targets (replaceBits others value index) = localIndex targets index :=
  localIndex_congr fun _ hq => testBit_replaceBits_of_notMem fun ho => h hq ho

theorem all_testBit_replaceBits (h : List.Disjoint controls targets) (value index : Nat) :
    controls.all (replaceBits targets value index).testBit = controls.all index.testBit := by
  rw [Bool.eq_iff_iff, List.all_eq_true, List.all_eq_true]
  have hq : ∀ q ∈ controls, (replaceBits targets value index).testBit q = index.testBit q :=
    fun q hq => testBit_replaceBits_of_notMem fun ht => h hq ht
  constructor
  · intro hall q hmem
    rw [← hq q hmem, hall q hmem]
  · intro hall q hmem
    rw [hq q hmem, hall q hmem]

/-- An index that agrees with another outside some qubits becomes the other when the bits
    there are copied over. -/
theorem replaceBits_localIndex_of_agree {other : Nat}
    (h : ∀ r, r ∉ targets → index.testBit r = other.testBit r) :
    replaceBits targets (localIndex targets other) index = other := by
  conv_rhs => rw [← replaceBits_localIndex targets other]
  apply Nat.eq_of_testBit_eq
  intro r
  by_cases hr : r ∈ targets
  · exact testBit_replaceBits_of_mem hr _
  · rw [testBit_replaceBits_of_notMem hr, testBit_replaceBits_of_notMem hr, h r hr]

/-! ### Two lists of qubits read as one -/

theorem localIndex_append (controls targets : List Nat) (index : Nat) :
    localIndex (controls ++ targets) index =
      localIndex controls index * 2 ^ targets.length + localIndex targets index := by
  induction controls with
  | nil => simp [localIndex]
  | cons q qs ih =>
    rw [List.cons_append, localIndex, localIndex, ih, List.length_append, pow_add]
    split <;> ring

theorem replaceBits_append (controls targets : List Nat) (value index : Nat) :
    replaceBits (controls ++ targets) value index =
      replaceBits controls (value / 2 ^ targets.length) (replaceBits targets value index) := by
  induction controls with
  | nil => rfl
  | cons q qs ih =>
    rw [List.cons_append, replaceBits, replaceBits, ih, List.length_append,
      Nat.testBit_div_two_pow]

theorem replaceBits_mod (targets : List Nat) (value index : Nat) :
    replaceBits targets (value % 2 ^ targets.length) index = replaceBits targets value index := by
  apply replaceBits_congr
  intro j hj
  rw [Nat.testBit_mod_two_pow]
  simp [hj]

/-- Qubits that all read one spell the largest number. -/
theorem localIndex_of_all (h : targets.all index.testBit = true) :
    localIndex targets index + 1 = 2 ^ targets.length := by
  induction targets with
  | nil => rfl
  | cons q qs ih =>
    rw [List.all_cons, Bool.and_eq_true] at h
    rw [localIndex, if_pos h.1, Nat.add_assoc, ih h.2, List.length_cons, pow_succ]
    ring

theorem localIndex_of_not_all (h : ¬ targets.all index.testBit = true) :
    localIndex targets index + 1 < 2 ^ targets.length := by
  induction targets with
  | nil => exact absurd rfl h
  | cons q qs ih =>
    have hpow : 2 ^ (q :: qs).length = 2 ^ qs.length + 2 ^ qs.length := by
      rw [List.length_cons, pow_succ]; ring
    have hlt : localIndex qs index < 2 ^ qs.length := localIndex_lt qs index
    rw [localIndex]
    by_cases hq : index.testBit q
    · have hqs : ¬ qs.all index.testBit = true := by
        intro hqs
        exact h (by rw [List.all_cons, hq, hqs]; rfl)
      have := ih hqs
      rw [if_pos hq]
      omega
    · rw [if_neg hq]
      omega

/-! ### Masks and offsets -/

private theorem testBit_foldl_mask {r : Nat} (qubits : List Nat) :
    ∀ start : Nat, qubits.Nodup → (∀ q ∈ qubits, start.testBit q = false) →
      (qubits.foldl (fun m q => m + 1 <<< q) start).testBit r =
        (decide (r ∈ qubits) || start.testBit r) := by
  induction qubits with
  | nil => intro start _ _; simp
  | cons q qs ih =>
    intro start hnodup hclear
    obtain ⟨hq, hqs⟩ := List.nodup_cons.mp hnodup
    have hset : start + 1 <<< q = setBit start q true := by
      rw [Nat.one_shiftLeft]
      exact add_two_pow_of_testBit (hclear q List.mem_cons_self)
    rw [List.foldl_cons, hset, ih _ hqs, testBit_setBit]
    · by_cases hr : r = q
      · simp [hr]
      · simp [hr]
    · intro p hp
      have hne : p ≠ q := by rintro rfl; exact hq hp
      rw [testBit_setBit, if_neg hne]
      exact hclear p (List.mem_cons_of_mem q hp)

theorem testBit_mask {qubits : List Nat} (h : qubits.Nodup) (r : Nat) :
    (mask qubits).testBit r = decide (r ∈ qubits) := by
  rw [mask, testBit_foldl_mask qubits 0 h fun q _ => Nat.zero_testBit q, Nat.zero_testBit,
    Bool.or_false]

/-- The bases of a gate: its targets read zero and its controls one. -/
theorem isBase_eq (ht : targets.Nodup) (hc : controls.Nodup) (index : Nat) :
    isBase targets controls index =
      (targets.all (!index.testBit ·) && controls.all index.testBit) := by
  rw [isBase, Bool.eq_iff_iff, Bool.and_eq_true, Bool.and_eq_true, beq_iff_eq, beq_iff_eq,
    List.all_eq_true, List.all_eq_true, Nat.eq_iff_testBit_eq, Nat.eq_iff_testBit_eq]
  simp only [Nat.testBit_and, testBit_mask ht, testBit_mask hc, Nat.zero_testBit]
  constructor
  · rintro ⟨hzero, hone⟩
    refine ⟨fun q hq => ?_, fun q hq => ?_⟩
    · simpa [hq] using hzero q
    · simpa [hq] using hone q
  · rintro ⟨hzero, hone⟩
    refine ⟨fun q => ?_, fun q => ?_⟩
    · by_cases hq : q ∈ targets
      · simpa [hq] using hzero q hq
      · simp [hq]
    · by_cases hq : q ∈ controls
      · simpa [hq] using hone q hq
      · simp [hq]

/-- The fold that sums the offset of a column writes the bits of the column to zero.  `done`
    are the targets before these, of the `total` there are. -/
private theorem foldl_offset (value total : Nat) (targets : List Nat) :
    ∀ done start : Nat, total = done + targets.length → targets.Nodup →
      (∀ q ∈ targets, start.testBit q = false) →
      (targets.zipIdx done).foldl
          (fun o (q, j) => if value.testBit (total - 1 - j) then o + 1 <<< q else o) start =
        replaceBits targets value start := by
  induction targets with
  | nil => intro done start _ _ _; rfl
  | cons q qs ih =>
    intro done start htotal hnodup hclear
    obtain ⟨hq, hqs⟩ := List.nodup_cons.mp hnodup
    have hplace : total - 1 - done = qs.length := by
      rw [List.length_cons] at htotal; omega
    have hset : (if value.testBit (total - 1 - done) then start + 1 <<< q else start) =
        setBit start q (value.testBit qs.length) := by
      rw [hplace]
      by_cases hv : value.testBit qs.length
      · rw [if_pos hv, hv, Nat.one_shiftLeft]
        exact add_two_pow_of_testBit (hclear q List.mem_cons_self)
      · have hv : value.testBit qs.length = false := by simpa using hv
        rw [hv, if_neg Bool.false_ne_true]
        apply Nat.eq_of_testBit_eq
        intro r
        rw [testBit_setBit]
        split
        · next hr => rw [hr, hclear q List.mem_cons_self]
        · rfl
    simp only [List.zipIdx_cons, List.foldl_cons]
    rw [hset, ih (done + 1) _ (by rw [List.length_cons] at htotal; omega) hqs]
    · -- setting the first bit before the others is the same as setting it last
      apply Nat.eq_of_testBit_eq
      intro r
      rw [testBit_replaceBits_cons]
      by_cases hr : r = q
      · subst hr
        rw [testBit_replaceBits_of_notMem hq, testBit_setBit, if_pos rfl, if_pos rfl]
      · rw [if_neg hr]
        by_cases hmem : r ∈ qs
        · exact testBit_replaceBits_of_mem hmem _
        · rw [testBit_replaceBits_of_notMem hmem, testBit_replaceBits_of_notMem hmem,
            testBit_setBit, if_neg hr]
    · intro p hp
      have hne : p ≠ q := by rintro rfl; exact hq hp
      rw [testBit_setBit, if_neg hne]
      exact hclear p (List.mem_cons_of_mem q hp)

theorem offsets_eq (h : targets.Nodup) :
    offsets targets =
      (List.range (2 ^ targets.length)).map fun value => replaceBits targets value 0 := by
  rw [offsets, Nat.one_shiftLeft]
  apply List.map_congr_left
  intro value _
  exact foldl_offset value targets.length targets 0 0 (by omega) h
    fun q _ => Nat.zero_testBit q

/-- Adding an offset to a base writes the column number to the targets. -/
theorem or_replaceBits_zero {base : Nat} (h : ∀ q ∈ targets, base.testBit q = false)
    (value : Nat) : base ||| replaceBits targets value 0 = replaceBits targets value base := by
  apply Nat.eq_of_testBit_eq
  intro r
  rw [Nat.testBit_or]
  by_cases hr : r ∈ targets
  · rw [h r hr, Bool.false_or]
    exact testBit_replaceBits_of_mem hr _
  · rw [testBit_replaceBits_of_notMem hr, testBit_replaceBits_of_notMem hr, Nat.zero_testBit,
      Bool.or_false]

end CircuitBroker.Statevector
