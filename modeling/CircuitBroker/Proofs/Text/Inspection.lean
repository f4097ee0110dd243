/-
  CircuitBroker/Proofs/Text/Inspection.lean
  =========================================
  **A string in quotes says which string it is.**

  A character is escaped by a letter, by its number, or not at all, and none of these codes is the
  beginning of another (`Code.unique`).  So quoted strings are different if the strings are
  (`quote_injective`).
-/
import CircuitBroker.Proofs.Text.Numeral
import CircuitBroker.Text.Inspection

namespace CircuitBroker.Inspection

/-! ## 1. Numbers in base sixteen -/

theorem spells_toDigits (n : Nat) : Numeral.Spells 16 (Nat.toDigits 16 n) n := by
  induction n using Nat.strong_induction_on with
  | h n ih =>
    rw [Nat.toDigits_eq_if (by decide)]
    split
    case isTrue hsmall =>
      exact ⟨[n], by simp, by simpa using hsmall, .cons (.inl rfl) .nil, by simp⟩
    case isFalse hlarge =>
      obtain ⟨digits, -, hlt, hdigits, hvalue⟩ := ih (n / 16) (by omega)
      refine ⟨digits ++ [n % 16], by simp, ?_, ?_, ?_⟩
      · intro d hd
        rcases List.mem_append.mp hd with hd | hd
        · exact hlt d hd
        · rw [List.mem_singleton.mp hd]
          exact Nat.mod_lt n (by decide)
      · exact List.rel_append hdigits (.cons (.inl rfl) .nil)
      · rw [List.reverse_append, List.reverse_singleton, List.singleton_append, Nat.ofDigits_cons,
          hvalue]
        exact Nat.mod_add_div n 16

theorem toDigits_injective : Function.Injective (Nat.toDigits 16) := by
  intro m n h
  have hm := Numeral.digits?_of_spells le_rfl (spells_toDigits m)
  have hn := Numeral.digits?_of_spells le_rfl (spells_toDigits n)
  rw [h, hn] at hm
  exact (Option.some.inj hm).symm

/-- The brace behind a number is no digit of it. -/
theorem brace_notMem_toDigits (n : Nat) : '\x7d' ∉ Nat.toDigits 16 n := by
  obtain ⟨digits, -, hlt, hdigits, -⟩ := spells_toDigits n
  have hdigit : ∀ d < 16, ¬ Numeral.IsDigit '\x7d' d := by
    intro d hd
    unfold Numeral.IsDigit
    interval_cases d <;> decide
  intro hmem
  obtain ⟨position, hposition, hbrace⟩ := List.getElem_of_mem hmem
  have hposition' : position < digits.length := hdigits.length_eq ▸ hposition
  have hread := hdigits.get hposition hposition'
  rw [List.get_eq_getElem, hbrace] at hread
  exact hdigit _ (hlt _ (List.get_mem digits ⟨position, hposition'⟩)) hread

theorem takeWhile_toDigits (n : Nat) (rest : List Char) :
    (Nat.toDigits 16 n ++ '\x7d' :: rest).takeWhile (· ≠ '\x7d') = Nat.toDigits 16 n := by
  rw [List.takeWhile_append_of_pos]
  · simp
  · intro c hc
    simpa using ne_of_mem_of_not_mem hc (brace_notMem_toDigits n)

/-! ## 2. Codes of characters -/

/-- Characters with a letter that stands for them behind a backslash. -/
def lettered : List (Char × Char) :=
  [('"', '"'), ('\\', '\\'), ('\n', 'n'), ('\r', 'r'), ('\t', 't'), ('\x00', '0')]

/-- How a character can stand inside quotes. -/
inductive Code (c : Char) : List Char → Prop
  | letter {l : Char} (h : (c, l) ∈ lettered) : Code c ['\\', l]
  | number : Code c ('\\' :: 'u' :: '\x7b' :: (Nat.toDigits 16 c.toNat ++ ['\x7d']))
  | plain (h : c ≠ '\\') : Code c [c]

theorem code_escapeChar (c : Char) : Code c (escapeChar c).toList := by
  unfold escapeChar
  split_ifs with hquote hback hline hreturn htab hzero hhidden
  · exact .letter (l := '"') (by simp [lettered, hquote])
  · exact .letter (l := '\\') (by simp [lettered, hback])
  · exact .letter (l := 'n') (by simp [lettered, hline])
  · exact .letter (l := 'r') (by simp [lettered, hreturn])
  · exact .letter (l := 't') (by simp [lettered, htab])
  · obtain rfl : c = '\x00' := Char.toNat_inj.mp hzero
    exact .letter (l := '0') (by simp [lettered])
  · have htext : ("\\u\x7b" ++ hexText c.toNat ++ "\x7d").toList =
        '\\' :: 'u' :: '\x7b' :: (Nat.toDigits 16 c.toNat ++ ['\x7d']) := by
      simp [hexText]
    rw [htext]
    exact .number
  · have htext : (String.singleton c).toList = [c] := by simp
    rw [htext]
    exact .plain hback

theorem Code.ne_nil {c : Char} {code : List Char} (h : Code c code) : code ≠ [] := by
  cases h <;> simp

/-- **No code is the beginning of another**: what a text begins with is told apart from the
    rest. -/
theorem Code.unique {c d : Char} {code code' rest rest' : List Char} (h : Code c code)
    (h' : Code d code') (heq : code ++ rest = code' ++ rest') : c = d ∧ rest = rest' := by
  have hletter : ∀ p ∈ lettered, p.2 ≠ 'u' ∧ ∀ q ∈ lettered, p.2 = q.2 → p.1 = q.1 := by decide
  cases h with
  | letter hl =>
    cases h' with
    | letter hl' =>
      simp only [List.cons_append, List.nil_append, List.cons.injEq, true_and] at heq
      exact ⟨(hletter _ hl).2 _ hl' heq.1, heq.2⟩
    | number =>
      simp only [List.cons_append, List.cons.injEq, true_and] at heq
      exact absurd heq.1 (hletter _ hl).1
    | plain hd =>
      simp only [List.cons_append, List.nil_append, List.cons.injEq] at heq
      exact absurd heq.1.symm hd
  | number =>
    cases h' with
    | letter hl' =>
      simp only [List.cons_append, List.cons.injEq, true_and] at heq
      exact absurd heq.1.symm (hletter _ hl').1
    | number =>
      simp only [List.cons_append, List.append_assoc, List.nil_append, List.cons.injEq,
        true_and] at heq
      have hdigits := congrArg (List.takeWhile (· ≠ '\x7d')) heq
      rw [takeWhile_toDigits, takeWhile_toDigits] at hdigits
      rw [hdigits, List.append_cancel_left_eq, List.cons_eq_cons] at heq
      exact ⟨Char.toNat_inj.mp (toDigits_injective hdigits), heq.2⟩
    | plain hd =>
      simp only [List.cons_append, List.nil_append, List.cons.injEq] at heq
      exact absurd heq.1.symm hd
  | plain hc =>
    have hhead : c = '\\' ∨ c = d ∧ rest = rest' := by
      cases h' <;> simp only [List.cons_append, List.nil_append, List.cons.injEq] at heq
      · exact .inl heq.1
      · exact .inl heq.1
      · exact .inr heq
    exact hhead.resolve_left hc

/-! ## 3. Strings -/

theorem toList_quote (s : String) :
    (quote s).toList = '"' :: (s.toList.flatMap fun c => (escapeChar c).toList) ++ ['"'] := by
  simp [quote, List.flatMap_map]

theorem escaped_injective {chars chars' : List Char}
    (h : (chars.flatMap fun c => (escapeChar c).toList) =
      chars'.flatMap fun c => (escapeChar c).toList) : chars = chars' := by
  have hne : ∀ c, (escapeChar c).toList ≠ [] := fun c => (code_escapeChar c).ne_nil
  induction chars generalizing chars' with
  | nil =>
    cases chars' with
    | nil => rfl
    | cons c chars' =>
      rw [List.flatMap_nil, List.flatMap_cons] at h
      exact absurd (List.append_eq_nil_iff.mp h.symm).1 (hne c)
  | cons c chars ih =>
    cases chars' with
    | nil =>
      rw [List.flatMap_nil, List.flatMap_cons] at h
      exact absurd (List.append_eq_nil_iff.mp h).1 (hne c)
    | cons d chars' =>
      rw [List.flatMap_cons, List.flatMap_cons] at h
      obtain ⟨rfl, hrest⟩ := (code_escapeChar c).unique (code_escapeChar d) h
      rw [ih hrest]

/-- **Strings with the same text in quotes are the same.** -/
theorem quote_injective : Function.Injective quote := by
  intro s t h
  have hlist := congrArg String.toList h
  rw [toList_quote, toList_quote, List.append_cancel_right_eq, List.cons_eq_cons] at hlist
  exact String.toList_inj.mp (escaped_injective hlist.2)

/-! ## 4. Fields -/

theorem optional_injective {α : Type} {shown : α → String} (h : Function.Injective shown) :
    Function.Injective (optional shown) := by
  have hsome : ∀ a, optional shown (some a) ≠ optional shown none := by
    intro a heq
    have hlist := congrArg String.toList heq
    simp [optional, tagged] at hlist
  intro a b heq
  cases a with
  | none =>
    cases b with
    | none => rfl
    | some b => exact absurd heq.symm (hsome b)
  | some a =>
    cases b with
    | none => exact absurd heq (hsome a)
    | some b =>
      have hlist := congrArg String.toList heq
      simp only [optional, tagged, String.toList_append, List.append_cancel_left_eq,
        List.append_cancel_right_eq] at hlist
      rw [h (String.toList_inj.mp hlist)]

/-- What stands before an item of a list and what stands behind it do not depend on it. -/
theorem exists_intercalate_append (separator : List Char) (before after : List (List Char)) :
    ∃ left right, ∀ item,
      separator.intercalate (before ++ item :: after) = left ++ item ++ right := by
  induction before with
  | nil =>
    cases after with
    | nil => exact ⟨[], [], fun item => by simp⟩
    | cons next after =>
      exact ⟨[], separator ++ separator.intercalate (next :: after), fun item => by
        simp [List.intercalate_cons_cons]⟩
  | cons first before ih =>
    obtain ⟨left, right, hitem⟩ := ih
    refine ⟨first ++ separator ++ left, right, fun item => ?_⟩
    rw [List.cons_append, List.intercalate_cons_of_ne_nil (by simp), hitem]
    simp

/-- **A field that is shown tells its text**: with all other fields alike, records are shown alike
    only if this one is. -/
theorem record_field_injective (name field : String) (before after : List (String × String))
    {value value' : String} (h : record name (before ++ (field, value) :: after) =
      record name (before ++ (field, value') :: after)) : value = value' := by
  have hlist := congrArg String.toList h
  obtain ⟨left, right, hitem⟩ := exists_intercalate_append ", ".toList
    (before.map fun f => (f.1 ++ ": " ++ f.2).toList)
    (after.map fun f => (f.1 ++ ": " ++ f.2).toList)
  simp only [record, String.toList_append, String.toList_intercalate, List.map_append,
    List.map_cons, List.map_map, List.append_cancel_left_eq, List.append_cancel_right_eq,
    Function.comp_def] at hlist hitem
  rw [hitem, hitem, List.append_cancel_right_eq, List.append_cancel_left_eq,
    List.append_cancel_left_eq] at hlist
  exact String.toList_inj.mp hlist

end CircuitBroker.Inspection
