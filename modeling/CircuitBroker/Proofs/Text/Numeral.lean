/-
  CircuitBroker/Proofs/Text/Numeral.lean
  ======================================
  **Numerals are read as the numbers they spell.**

  `Spells` says which number a row of digits stands for without reading it: leading zeros
  and letters of either case are allowed.  Reading such a row gives its number
  (`digits?_of_spells`), and reading it below a bound gives the number or nothing
  (`read?_of_spells`).

  Nothing else is read, but for a plus sign that may stand before the digits
  (`read?_eq_some_iff`).
-/
import CircuitBroker.Text.Numeral
import Mathlib

namespace CircuitBroker.Numeral

/-- Whether a character is the digit of a value, a letter in either case. -/
def IsDigit (c : Char) (d : Nat) : Prop := c = d.digitChar ∨ c = d.digitChar.toUpper

/-- Whether some characters are the digits of a number, the most significant first. -/
def Spells (base : Nat) (text : List Char) (n : Nat) : Prop :=
  ∃ digits, digits ≠ [] ∧ (∀ d ∈ digits, d < base) ∧ List.Forall₂ IsDigit text digits ∧
    Nat.ofDigits base digits.reverse = n

variable {base : Nat} {text : List Char} {n : Nat}

theorem digit?_of_isDigit {c : Char} {d : Nat} (hbase : base ≤ 16) (hd : d < base)
    (h : IsDigit c d) : digit? base c = some d := by
  have hsixteen : d < 16 := Nat.lt_of_lt_of_le hd hbase
  unfold IsDigit at h
  interval_cases d <;> rcases h with rfl | rfl <;> exact if_pos hd

theorem isDigit_ne {c : Char} {d : Nat} (hd : d < 16) (h : IsDigit c d) : c ≠ '+' ∧ c ≠ 'x' := by
  unfold IsDigit at h
  interval_cases d <;> rcases h with rfl | rfl <;> decide

/-- No digit is a sign or the mark of a base. -/
theorem ne_of_mem_spells (hbase : base ≤ 16) (h : Spells base text n) :
    ∀ c ∈ text, c ≠ '+' ∧ c ≠ 'x' := by
  obtain ⟨digits, -, hlt, hdigits, -⟩ := h
  induction hdigits with
  | nil => simp
  | cons hdigit _ ih =>
    obtain ⟨hd, hlt⟩ := List.forall_mem_cons.mp hlt
    exact List.forall_mem_cons.mpr ⟨isDigit_ne (Nat.lt_of_lt_of_le hd hbase) hdigit, ih hlt⟩

theorem plus_notMem_of_spells (hbase : base ≤ 16) (h : Spells base text n) : '+' ∉ text :=
  fun hmem => (ne_of_mem_spells hbase h '+' hmem).1 rfl

theorem foldlM_digit? (hbase : base ≤ 16) {digits : List Nat} (h : List.Forall₂ IsDigit text digits)
    (hlt : ∀ d ∈ digits, d < base) (start : Nat) :
    text.foldlM (fun n c => (digit? base c).map (n * base + ·)) start =
      some (digits.foldl (fun n d => n * base + d) start) := by
  induction h generalizing start with
  | nil => rfl
  | cons hdigit _ ih =>
    obtain ⟨hd, hlt⟩ := List.forall_mem_cons.mp hlt
    rw [List.foldlM_cons, digit?_of_isDigit hbase hd hdigit]
    exact ih hlt _

theorem foldl_digits (digits : List Nat) :
    digits.foldl (fun n d => n * base + d) 0 = Nat.ofDigits base digits.reverse := by
  rw [Nat.ofDigits_eq_foldr, List.foldr_reverse]
  simp only [Nat.cast_id, Nat.add_comm, Nat.mul_comm]

theorem digits?_of_spells (hbase : base ≤ 16) (h : Spells base text n) :
    digits? base text = some n := by
  obtain ⟨digits, hne, hlt, hdigits, rfl⟩ := h
  rw [← foldl_digits, ← foldlM_digit? hbase hdigits hlt]
  cases hdigits with
  | nil => exact absurd rfl hne
  | cons => rfl

theorem afterPlus_of_spells (hbase : base ≤ 16) (h : Spells base text n) : afterPlus text = text := by
  unfold afterPlus
  split
  · exact absurd List.mem_cons_self (plus_notMem_of_spells hbase h)
  · rfl

/-- A number below a bound is read off its digits, and a larger one is not read. -/
theorem read?_of_spells {bound : Nat} {s : String} (hbase : base ≤ 16) (h : Spells base s.toList n) :
    read? base bound s = if n < bound then some n else none := by
  unfold read?
  rw [afterPlus_of_spells hbase h, digits?_of_spells hbase h]
  rfl

/-- The digits of a number, after any zeros, spell it. -/
theorem spells_digits (hbase : 1 < base) (hbase' : base ≤ 16) (zeros : Nat)
    (hne : zeros ≠ 0 ∨ n ≠ 0) :
    Spells base (List.replicate zeros '0' ++ (Nat.digits base n).reverse.map Nat.digitChar) n := by
  refine ⟨List.replicate zeros 0 ++ (Nat.digits base n).reverse, ?_, ?_, ?_, ?_⟩
  · intro hnil
    obtain ⟨hzeros, hdigits⟩ := List.append_eq_nil_iff.mp hnil
    rw [List.replicate_eq_nil_iff] at hzeros
    rw [List.reverse_eq_nil_iff, Nat.digits_eq_nil_iff_eq_zero] at hdigits
    exact hne.elim (· hzeros) (· hdigits)
  · intro d hd
    rcases List.mem_append.mp hd with hd | hd
    · rw [List.eq_of_mem_replicate hd]
      omega
    · exact Nat.digits_lt_base hbase (List.mem_reverse.mp hd)
  · refine List.rel_append ?_ ?_
    · exact List.forall₂_iff_get.mpr (by simp [IsDigit])
    · rw [List.forall₂_map_left_iff]
      exact List.forall₂_same.mpr fun d _ => .inl rfl
  · rw [List.reverse_append, List.reverse_reverse, List.reverse_replicate, Nat.ofDigits_append,
      Nat.ofDigits_digits, Nat.ofDigits_replicate_zero, Nat.mul_zero, Nat.add_zero]

/-! ### Nothing else is read -/

theorem isDigit_of_between {c low high : Char} {offset : Nat} (h : low ≤ c ∧ c ≤ high)
    (hall : ∀ k, low.toNat ≤ k → k ≤ high.toNat → IsDigit (Char.ofNat k) (k - offset)) :
    IsDigit c (c.toNat - offset) := by
  have hc := hall c.toNat h.1 h.2
  rwa [Char.ofNat_toNat] at hc

theorem isDigit_of_digit? {c : Char} {d : Nat} (h : digit? base c = some d) :
    d < base ∧ IsDigit c d := by
  simp only [digit?, Option.ite_none_right_eq_some, Option.some.injEq] at h
  obtain ⟨hlt, rfl⟩ := h
  refine ⟨hlt, ?_⟩
  split_ifs at hlt ⊢ with hdigit hlower hupper
  · refine isDigit_of_between hdigit fun k hlow hhigh => ?_
    unfold IsDigit
    change 48 ≤ k at hlow
    change k ≤ 57 at hhigh
    interval_cases k <;> decide
  · refine isDigit_of_between hlower fun k hlow hhigh => ?_
    unfold IsDigit
    change 97 ≤ k at hlow
    change k ≤ 102 at hhigh
    interval_cases k <;> decide
  · refine isDigit_of_between hupper fun k hlow hhigh => ?_
    unfold IsDigit
    change 65 ≤ k at hlow
    change k ≤ 70 at hhigh
    interval_cases k <;> decide
  · exact absurd hlt (lt_irrefl base)

theorem spells_of_foldlM_digit? {start : Nat}
    (h : text.foldlM (fun n c => (digit? base c).map (n * base + ·)) start = some n) :
    ∃ digits, (∀ d ∈ digits, d < base) ∧ List.Forall₂ IsDigit text digits ∧
      digits.foldl (fun n d => n * base + d) start = n := by
  induction text generalizing start with
  | nil => exact ⟨[], by simp, .nil, Option.some.inj h⟩
  | cons c text ih =>
    rw [List.foldlM_cons] at h
    obtain ⟨next, hnext, hrest⟩ := Option.bind_eq_some_iff.mp h
    obtain ⟨d, hd, rfl⟩ := Option.map_eq_some_iff.mp hnext
    obtain ⟨hlt, hdigit⟩ := isDigit_of_digit? hd
    obtain ⟨digits, hdigits, hall, rfl⟩ := ih hrest
    exact ⟨d :: digits, List.forall_mem_cons.mpr ⟨hlt, hdigits⟩, .cons hdigit hall, rfl⟩

theorem digits?_eq_some_iff (hbase : base ≤ 16) :
    digits? base text = some n ↔ Spells base text n := by
  refine ⟨fun h => ?_, digits?_of_spells hbase⟩
  cases text with
  | nil => cases h
  | cons c text =>
    obtain ⟨digits, hlt, hall, rfl⟩ := spells_of_foldlM_digit? h
    refine ⟨digits, ?_, hlt, hall, (foldl_digits digits).symm⟩
    rintro rfl
    cases hall

def SpellsAfterPlus (base : Nat) (text : List Char) (n : Nat) : Prop :=
  Spells base text n ∨ ∃ digits, text = '+' :: digits ∧ Spells base digits n

theorem spells_afterPlus_iff (hbase : base ≤ 16) :
    Spells base (afterPlus text) n ↔ SpellsAfterPlus base text n := by
  unfold afterPlus SpellsAfterPlus
  split
  · rename_i digits
    constructor
    · intro h
      exact .inr ⟨digits, rfl, h⟩
    · rintro (h | ⟨_, hdigits, h⟩)
      · exact absurd List.mem_cons_self (plus_notMem_of_spells hbase h)
      · cases hdigits
        exact h
  · rename_i hplus
    refine ⟨.inl, ?_⟩
    rintro (h | ⟨digits, hdigits, -⟩)
    · exact h
    · exact absurd hdigits (hplus digits)

theorem spellsAfterPlus_iff_of_notMem (hplus : '+' ∉ text) :
    SpellsAfterPlus base text n ↔ Spells base text n := by
  refine or_iff_left ?_
  rintro ⟨digits, rfl, -⟩
  exact hplus List.mem_cons_self

/-- **Exactly the numerals below a bound are read**, with or without a plus sign. -/
theorem read?_eq_some_iff {bound : Nat} {s : String} (hbase : base ≤ 16) :
    read? base bound s = some n ↔ SpellsAfterPlus base s.toList n ∧ n < bound := by
  rw [← spells_afterPlus_iff hbase, ← digits?_eq_some_iff hbase]
  unfold read?
  constructor
  · intro h
    obtain ⟨number, hnumber, hbound⟩ := Option.bind_eq_some_iff.mp h
    split at hbound
    · rename_i hlt
      cases hbound
      exact ⟨hnumber, hlt⟩
    · cases hbound
  · rintro ⟨hnumber, hlt⟩
    exact Option.bind_eq_some_iff.mpr ⟨n, hnumber, if_pos hlt⟩

end CircuitBroker.Numeral
