/-
  CircuitBroker/Proofs/Json/RoundTrip.lean
  ========================================
  **What is written is read back.**

  A number is read the same whatever follows it (`Number.read?_append`), a string is read as
  itself (`string?_quote`), and so every value is read off its text, by induction on the
  value, if its numbers are (`Legible.reads`).  Naturals of 64 bits always are
  (`Number.readsBack_natural`); whether a double is, is a matter of that double.
-/
import CircuitBroker.Json.Parser
import CircuitBroker.Json.Printer
import Mathlib

namespace CircuitBroker.Json

/-! ## 1. Numbers -/

/-- A text that does not go on with a number. -/
def EndsNumber (rest : List Char) : Prop :=
  ∀ c ∈ rest.head?, c.isDigit = false ∧ c ≠ '.' ∧ c ≠ 'e' ∧ c ≠ 'E'

variable {rest : List Char}

theorem takeWhile_isDigit_append (hends : EndsNumber rest) (cs : List Char) :
    (cs ++ rest).takeWhile Char.isDigit = cs.takeWhile Char.isDigit := by
  induction cs with
  | nil =>
    cases rest with
    | nil => rfl
    | cons c rest => simp [(hends c rfl).1]
  | cons c cs ih => simp [List.takeWhile_cons, ih]

theorem dropWhile_isDigit_append (hends : EndsNumber rest) (cs : List Char) :
    (cs ++ rest).dropWhile Char.isDigit = cs.dropWhile Char.isDigit ++ rest := by
  induction cs with
  | nil =>
    cases rest with
    | nil => rfl
    | cons c rest => simp [(hends c rfl).1]
  | cons c cs ih =>
    rw [List.cons_append, List.dropWhile_cons, List.dropWhile_cons, ih]
    split <;> rfl

namespace Number

variable {negative plus : Bool} {significand : Nat} {start : Int} {plain j : Json} {cs : List Char}

theorem exponent?_append (h : exponent? negative significand start plus cs = some (j, []))
    (hends : EndsNumber rest) :
    exponent? negative significand start plus (cs ++ rest) = some (j, rest) := by
  unfold exponent? at h ⊢
  rw [takeWhile_isDigit_append hends, dropWhile_isDigit_append hends]
  dsimp only at h ⊢
  split at h
  · cases h
  · next hdigits =>
    rw [if_neg hdigits]
    injection h with h
    injection h with hj htail
    rw [hj, htail, List.nil_append]

theorem signedExponent?_append (h : signedExponent? negative significand start cs = some (j, []))
    (hends : EndsNumber rest) :
    signedExponent? negative significand start (cs ++ rest) = some (j, rest) := by
  unfold signedExponent? at h
  split at h
  · exact exponent?_append h hends
  · exact exponent?_append h hends
  · next hplus hminus =>
    rcases cs with _ | ⟨c, cs⟩
    · cases h
    · have hsign : signedExponent? negative significand start (c :: cs ++ rest) =
          exponent? negative significand start true (c :: cs ++ rest) := by
        unfold signedExponent?
        split
        · next heq => cases heq; exact absurd rfl (hplus cs)
        · next heq => cases heq; exact absurd rfl (hminus cs)
        · rfl
      rw [hsign]
      exact exponent?_append h hends

theorem scaledBy?_append (h : scaledBy? negative significand start plain cs = some (j, []))
    (hends : EndsNumber rest) :
    scaledBy? negative significand start plain (cs ++ rest) = some (j, rest) := by
  unfold scaledBy? at h
  split at h
  · exact signedExponent?_append h hends
  · exact signedExponent?_append h hends
  · cases h
    cases rest with
    | nil => rfl
    | cons c rest =>
      obtain ⟨-, -, he, hE⟩ := hends c rfl
      rw [List.nil_append, scaledBy?]
      · rintro cs ⟨⟩
        exact he rfl
      · rintro cs ⟨⟩
        exact hE rfl

theorem fraction?_append {left : Nat} (h : fraction? negative significand left cs = some (j, []))
    (hends : EndsNumber rest) :
    fraction? negative significand left (cs ++ rest) = some (j, rest) := by
  unfold fraction? at h ⊢
  rw [takeWhile_isDigit_append hends, dropWhile_isDigit_append hends]
  dsimp only at h ⊢
  split at h
  · cases h
  · next hdigits =>
    rw [if_neg hdigits]
    exact scaledBy?_append h hends

theorem afterWhole?_append {left : Nat}
    (h : afterWhole? negative significand left cs = some (j, [])) (hends : EndsNumber rest) :
    afterWhole? negative significand left (cs ++ rest) = some (j, rest) := by
  unfold afterWhole? at h
  split at h
  · exact fraction?_append h hends
  · next hpoint =>
    rw [afterWhole?]
    · exact scaledBy?_append h hends
    · intro tail heq
      rcases cs with _ | ⟨c, cs⟩
      · rw [List.nil_append] at heq
        exact (hends '.' (by rw [heq]; rfl)).2.1 rfl
      · cases heq
        exact hpoint cs rfl

theorem unsigned?_append (h : unsigned? negative cs = some (j, [])) (hends : EndsNumber rest) :
    unsigned? negative (cs ++ rest) = some (j, rest) := by
  unfold unsigned? at h ⊢
  rw [takeWhile_isDigit_append hends, dropWhile_isDigit_append hends]
  dsimp only at h ⊢
  split at h
  · cases h
  · next hwhole =>
    rw [if_neg hwhole]
    exact afterWhole?_append h hends

/-- **A number is read the same whatever follows it**, as long as that does not go on with it. -/
theorem read?_append (h : read? cs = some (j, [])) (hends : EndsNumber rest) :
    read? (cs ++ rest) = some (j, rest) := by
  unfold read? at h
  split at h
  · exact unsigned?_append h hends
  · next hsign =>
    rcases cs with _ | ⟨c, cs⟩
    · cases h
    · rw [read?]
      · exact unsigned?_append h hends
      · intro tail heq
        cases heq
        exact hsign cs rfl

/-- A number begins with its sign or with a digit. -/
theorem exists_cons_of_read? (h : read? cs = some (j, rest)) :
    ∃ c tail, cs = c :: tail ∧ (c = '-' ∨ c.isDigit = true) := by
  unfold read? at h
  split at h
  · next tail => exact ⟨_, tail, rfl, .inl rfl⟩
  · rcases cs with _ | ⟨c, cs⟩
    · cases h
    · refine ⟨c, cs, rfl, .inr ?_⟩
      by_contra hdigit
      unfold unsigned? at h
      simp [hdigit] at h

/-! ### Naturals -/

theorem le_foldl_digits (cs : List Char) : ∀ s : Nat, s ≤ Nat.ofDigitChars 10 cs s := by
  induction cs with
  | nil => exact fun s => Nat.le_refl s
  | cons c cs ih =>
    intro s
    have hnext := ih (10 * s + (c.toNat - '0'.toNat))
    have hstep : s ≤ 10 * s + (c.toNat - '0'.toNat) := by omega
    exact Nat.le_trans hstep hnext

/-- Digits of a number below `2 ^ 64` are all taken. -/
theorem accumulate_eq (cs : List Char) : ∀ s : Nat, Nat.ofDigitChars 10 cs s < UInt64.size →
    accumulate s cs = (Nat.ofDigitChars 10 cs s, cs.length, 0) := by
  induction cs with
  | nil => exact fun s _ => rfl
  | cons c cs ih =>
    intro s h
    have hnext : 10 * s + (c.toNat - 48) < UInt64.size :=
      Nat.lt_of_le_of_lt (le_foldl_digits cs _) h
    have htail : accumulate (10 * s + (c.toNat - 48)) cs =
        (Nat.ofDigitChars 10 (c :: cs) s, cs.length, 0) := ih _ h
    rw [accumulate]
    dsimp only
    rw [if_pos hnext, htail, List.length_cons]

/-- No number but zero begins with a zero. -/
theorem head?_toDigits_ne {n : Nat} (h : 0 < n) : (Nat.toDigits 10 n).head? ≠ some '0' := by
  induction n using Nat.strongRecOn with
  | ind n ih =>
    rw [Nat.toDigits_eq_if (by decide)]
    split
    · next hlt => interval_cases n <;> decide
    · next hge =>
      have hprefix := ih (n / 10) (by omega) (by omega)
      rw [List.head?_append_of_ne_nil _ Nat.toDigits_ne_nil]
      exact hprefix

theorem length_toDigits_of_head? {n : Nat} (h : (Nat.toDigits 10 n).head? = some '0') :
    (Nat.toDigits 10 n).length = 1 := by
  rcases Nat.eq_zero_or_pos n with rfl | hpos
  · rfl
  · exact absurd h (head?_toDigits_ne hpos)

/-- What it takes for a number to be read back: that this is so where it stands alone. -/
def ReadsBack (n : Number) : Prop := read? n.render.toList = some (.number n, [])

theorem readsBack_natural {n : Nat} (h : n < UInt64.size) : (natural n).ReadsBack := by
  have hdigits : ∀ c ∈ Nat.toDigits 10 n, c.isDigit = true := fun c hc =>
    Nat.isDigit_of_mem_toDigits (by decide) (by decide) hc
  have hvalue : Nat.ofDigitChars 10 (Nat.toDigits 10 n) 0 = n := Nat.ofDigitChars_ten_toDigits
  have hunsigned : unsigned? false (Nat.toDigits 10 n) = some (.number (.natural n), []) := by
    unfold unsigned?
    rw [List.takeWhile_eq_self_iff.mpr hdigits, List.dropWhile_eq_nil_iff.mpr hdigits]
    dsimp only
    rw [accumulate_eq _ _ (hvalue.symm ▸ h), hvalue, if_neg]
    · rfl
    · simpa [Nat.toDigits_ne_nil] using length_toDigits_of_head?
  have htext : (natural n).render.toList = Nat.toDigits 10 n := by
    rw [render, Nat.toString_eq_repr, Nat.toList_repr]
  rw [ReadsBack, htext, read?]
  · exact hunsigned
  · intro tail heq
    have hsign := hdigits '-' (by rw [heq]; exact List.mem_cons_self)
    exact absurd hsign (by decide)

/-- Not every double is read back: what is read is rounded more than once. -/
example : ¬ (real (Float.ofBits 4636053709268338981)).ReadsBack := by
  intro h
  have hbits := congrArg (Option.map fun r => r.1.toFloat?.map Float.toBits) h
  exact absurd hbits (by decide +kernel)

end Number

/-! ## 2. Strings -/

/-- The control characters that are escaped by their number. -/
theorem escape?_control {n : Nat} (h : n < 32) (cs : List Char) :
    escape? ('u' :: '0' :: '0' :: hexDigit (n / 16) :: hexDigit n :: cs) =
      some (some (Char.ofNat n), cs) := by
  interval_cases n <;> rfl

/-- One character of a string, as it was written. -/
theorem stringChars?_escapeChar (fuel : Nat) (done : List Char) (c : Char) (cs : List Char) :
    stringChars? (fuel + 1) (some done) ((escapeChar c).toList ++ cs) =
      stringChars? fuel (some (c :: done)) cs := by
  have hc : Char.ofNat c.toNat = c := Char.ofNat_toNat c
  -- the short escapes, those by number, and the characters that stand for themselves
  unfold escapeChar
  split
  · next h => rw [h]; rfl
  split
  · next h => rw [h]; rfl
  split
  · next h => rw [h]; rfl
  split
  · next h => rw [h]; rfl
  split
  · next h => rw [h]; rfl
  split
  · next h => rw [← hc, h]; rfl
  split
  · next h => rw [← hc, h]; rfl
  split
  · next h =>
    have hescape := escape?_control h cs
    rw [hc] at hescape
    have htext : ("\\u00" ++ String.ofList [hexDigit (c.toNat / 16), hexDigit c.toNat]).toList ++ cs =
        '\\' :: 'u' :: '0' :: '0' :: hexDigit (c.toNat / 16) :: hexDigit c.toNat :: cs := by
      simp
    rw [htext, stringChars?, hescape]
    rfl
  · next hquote hback _ _ _ _ _ hcontrol =>
    have htext : (String.singleton c).toList ++ cs = c :: cs := by simp
    rw [htext, stringChars?]
    · rw [if_neg hcontrol]
      rfl
    · exact hquote
    · exact hback

theorem length_pos_escapeChar (c : Char) : 0 < (escapeChar c).toList.length := by
  unfold escapeChar
  repeat' split
  all_goals simp

/-- The characters of a string, as they were written. -/
theorem stringChars?_escaped (chars : List Char) : ∀ (fuel : Nat) (done rest : List Char),
    (chars.flatMap fun c => (escapeChar c).toList).length < fuel →
    stringChars? fuel (some done)
        ((chars.flatMap fun c => (escapeChar c).toList) ++ '"' :: rest) =
      some (some (chars.reverse ++ done), rest) := by
  induction chars with
  | nil =>
    intro fuel done rest hfuel
    cases fuel with
    | zero => cases hfuel
    | succ fuel => rfl
  | cons c chars ih =>
    intro fuel done rest hfuel
    have hlength := length_pos_escapeChar c
    rw [List.flatMap_cons, List.length_append] at hfuel
    cases fuel with
    | zero => cases hfuel
    | succ fuel =>
      rw [List.flatMap_cons, List.append_assoc, stringChars?_escapeChar,
        ih fuel (c :: done) rest (by omega)]
      simp

theorem toList_quote (s : String) :
    (quote s).toList = '"' :: (s.toList.flatMap fun c => (escapeChar c).toList) ++ ['"'] := by
  simp [quote, List.flatMap_map]

/-- **A quoted string is read as itself.** -/
theorem string?_quote (s : String) (rest : List Char) :
    ∃ cs, (quote s).toList ++ rest = '"' :: cs ∧ string? cs = some (some s, rest) := by
  refine ⟨(s.toList.flatMap fun c => (escapeChar c).toList) ++ '"' :: rest, ?_, ?_⟩
  · rw [toList_quote]
    simp
  · rw [string?, stringChars?_escaped]
    · simp
    · rw [List.length_append]
      omega

/-! ## 3. Values -/

/-- The values that a text can stand for: all their numbers are read back. -/
inductive Legible : Json → Prop
  | null : Legible .null
  | bool (b : Bool) : Legible (.bool b)
  | number {n : Number} (h : n.ReadsBack) : Legible (.number n)
  | string (s : String) : Legible (.string s)
  | array {items : List Json} (h : ∀ j ∈ items, Legible j) : Legible (.array items)
  | object {fields : List (String × Json)} (h : ∀ f ∈ fields, Legible f.2) : Legible (.object fields)

theorem Legible.ofNat {n : Nat} (h : n < UInt64.size) : (Json.ofNat n).Legible :=
  .number (Number.readsBack_natural h)

theorem Legible.map {α : Type} {write : α → Json} {xs : List α} (h : ∀ x ∈ xs, (write x).Legible) :
    (Json.array (xs.map write)).Legible :=
  .array (List.forall_mem_map.mpr h)

def letters (j : Json) : List Char := (compress j).toList

def fieldLetters (f : String × Json) : List Char := (quote f.1).toList ++ ':' :: f.2.letters

/-- A value is read off its text, whatever follows it. -/
def Reads (j : Json) : Prop :=
  ∀ fuel rest, j.letters.length ≤ fuel → EndsNumber rest →
    value? fuel (j.letters ++ rest) = some (j, rest)

theorem toList_compressList (items : List Json) :
    (compressList items).map String.toList = items.map letters := by
  induction items with
  | nil => rfl
  | cons j items ih => rw [compressList, List.map_cons, ih, List.map_cons, letters]

theorem toList_compressFields (fields : List (String × Json)) :
    (compressFields fields).map String.toList = fields.map fieldLetters := by
  induction fields with
  | nil => rfl
  | cons f fields ih =>
    obtain ⟨name, j⟩ := f
    rw [compressFields, List.map_cons, ih, List.map_cons, fieldLetters]
    simp [letters]

theorem letters_array (items : List Json) :
    letters (.array items) = '[' :: ([','].intercalate (items.map letters) ++ [']']) := by
  rw [letters, compress, String.toList_append, String.toList_append, String.toList_intercalate,
    toList_compressList]
  rfl

theorem letters_object (fields : List (String × Json)) :
    letters (.object fields) = '{' :: ([','].intercalate (fields.map fieldLetters) ++ ['}']) := by
  rw [letters, compress, String.toList_append, String.toList_append, String.toList_intercalate,
    toList_compressFields]
  rfl

theorem skipBlanks_cons {c : Char} {cs : List Char} (h : isBlank c = false) :
    skipBlanks (c :: cs) = c :: cs := by
  rw [skipBlanks, List.dropWhile_cons, h]
  rfl

theorem Number.first_ne {c d : Char} (h : c = '-' ∨ c.isDigit = true)
    (hd : d ≠ '-' ∧ d.isDigit = false) : c ≠ d := by
  rintro rfl
  rcases h with rfl | h
  · exact hd.1 rfl
  · rw [hd.2] at h
    cases h

theorem Number.isBlank_first {c : Char} (h : c = '-' ∨ c.isDigit = true) : isBlank c = false := by
  have hspace := first_ne (d := ' ') h (by decide)
  have hline := first_ne (d := '\n') h (by decide)
  have htab := first_ne (d := '\t') h (by decide)
  have hreturn := first_ne (d := '\r') h (by decide)
  simp [isBlank, hspace, hline, htab, hreturn]

/-- A written value begins with a character that is no blank and closes no array. -/
theorem Legible.exists_cons {j : Json} (h : j.Legible) :
    ∃ c tail, j.letters = c :: tail ∧ isBlank c = false ∧ c ≠ ']' := by
  cases h with
  | null => exact ⟨'n', _, rfl, rfl, by decide⟩
  | bool b => cases b <;> exact ⟨_, _, rfl, rfl, by decide⟩
  | number h =>
    obtain ⟨c, tail, htext, hc⟩ := Number.exists_cons_of_read? h
    exact ⟨c, tail, htext, Number.isBlank_first hc, Number.first_ne hc (by decide)⟩
  | string s => exact ⟨'"', _, toList_quote s, rfl, by decide⟩
  | array => exact ⟨'[', _, letters_array _, rfl, by decide⟩
  | object => exact ⟨'{', _, letters_object _, rfl, by decide⟩

/-- A reader of a written value has at least one step to take. -/
theorem Legible.reads_of_succ {j : Json} (hj : j.Legible)
    (h : ∀ fuel rest, j.letters.length ≤ fuel + 1 → EndsNumber rest →
      value? (fuel + 1) (j.letters ++ rest) = some (j, rest)) : j.Reads := by
  intro fuel rest hfuel hends
  cases fuel with
  | zero =>
    obtain ⟨c, tail, htext, -⟩ := hj.exists_cons
    rw [htext] at hfuel
    cases hfuel
  | succ fuel => exact h fuel rest hfuel hends

/-- What is neither a word nor a string nor a container is a number. -/
theorem value?_of_number {cs rest : List Char} {j : Json} (h : Number.read? cs = some (j, rest))
    (fuel : Nat) : value? (fuel + 1) cs = some (j, rest) := by
  obtain ⟨c, tail, rfl, hc⟩ := Number.exists_cons_of_read? h
  rw [value?, skipBlanks_cons (Number.isBlank_first hc)]
  split
  all_goals first
    | exact h
    | next heq =>
      cases heq
      exact absurd rfl (Number.first_ne hc (by decide))

section Containers

/-- A text that goes on with a comma or a closing bracket does not go on with a number. -/
theorem endsNumber_cons {c : Char} (h : c.isDigit = false ∧ c ≠ '.' ∧ c ≠ 'e' ∧ c ≠ 'E')
    (rest : List Char) : EndsNumber (c :: rest) := by
  rintro d ⟨⟩
  exact h

variable {fuel : Nat} {cs rest rest' : List Char} {name : String} {j : Json}

theorem items?_of_comma {done : List Json} (h : value? fuel cs = some (j, ',' :: rest)) :
    items? (fuel + 1) done cs = items? fuel (j :: done) rest := by
  rw [items?, h]
  rfl

theorem items?_of_close {done : List Json} (h : value? fuel cs = some (j, ']' :: rest)) :
    items? (fuel + 1) done cs = some (.array (j :: done).reverse, rest) := by
  rw [items?, h]
  rfl

/-- Once the name of a field and its value are read the next character decides. -/
theorem fields?_of_value {done : List (String × Json)} {c : Char}
    (hname : string? cs = some (some name, ':' :: rest))
    (hvalue : value? fuel rest = some (j, c :: rest')) (hblank : isBlank c = false) :
    fields? (fuel + 1) (some done) ('"' :: cs) =
      if c = ',' then fields? fuel (some ((name, j) :: done)) rest'
      else if c = '}' then some (.object ((name, j) :: done).reverse, rest') else none := by
  rw [fields?, skipBlanks_cons rfl]
  split
  · next heq =>
    cases heq
    rw [hname]
    dsimp only
    rw [skipBlanks_cons rfl]
    split
    · next heq =>
      cases heq
      rw [hvalue]
      dsimp only
      rw [skipBlanks_cons hblank]
      split
      · next heq => cases heq; rfl
      · next heq => cases heq; rfl
      · next hcomma hclose =>
        rw [if_neg fun hc => hcomma rest' (congrArg (· :: rest') hc),
          if_neg fun hc => hclose rest' (congrArg (· :: rest') hc)]
    · next hcolon => exact absurd rfl (hcolon rest)
  · next hquote => exact absurd rfl (hquote cs)

theorem fields?_of_comma {done : List (String × Json)}
    (hname : string? cs = some (some name, ':' :: rest))
    (hvalue : value? fuel rest = some (j, ',' :: rest')) :
    fields? (fuel + 1) (some done) ('"' :: cs) = fields? fuel (some ((name, j) :: done)) rest' := by
  rw [fields?_of_value hname hvalue rfl, if_pos rfl]

theorem fields?_of_close {done : List (String × Json)}
    (hname : string? cs = some (some name, ':' :: rest))
    (hvalue : value? fuel rest = some (j, '}' :: rest')) :
    fields? (fuel + 1) (some done) ('"' :: cs) =
      some (.object ((name, j) :: done).reverse, rest') := by
  rw [fields?_of_value hname hvalue rfl, if_neg (by decide), if_pos rfl]

/-- The items of an array, as they were written, the first of them coming next. -/
theorem items?_letters {items : List Json} (hne : items ≠ []) (hread : ∀ j ∈ items, j.Reads) :
    ∀ (fuel : Nat) (done : List Json) (rest : List Char),
      ([','].intercalate (items.map letters)).length < fuel →
      items? fuel done ([','].intercalate (items.map letters) ++ ']' :: rest) =
        some (.array (done.reverse ++ items), rest) := by
  induction items with
  | nil => exact absurd rfl hne
  | cons j items ih =>
    obtain ⟨hj, hitems⟩ := List.forall_mem_cons.mp hread
    intro fuel done rest hfuel
    rcases fuel with _ | fuel
    · cases hfuel
    by_cases hlast : items = []
    · subst hlast
      rw [List.map_singleton, List.intercalate_singleton] at hfuel ⊢
      rw [items?_of_close (hj fuel (']' :: rest) (Nat.le_of_lt_succ hfuel)
        (endsNumber_cons (by decide) rest))]
      simp
    · rw [List.map_cons, List.intercalate_cons_of_ne_nil (mt List.map_eq_nil_iff.mp hlast)] at hfuel ⊢
      rw [List.length_append, List.length_append, List.length_singleton] at hfuel
      rw [List.append_assoc, List.append_assoc, List.singleton_append,
        items?_of_comma (hj fuel _ (by omega) (endsNumber_cons (by decide) _)),
        ih hlast hitems fuel (j :: done) rest (by omega)]
      simp

/-- The fields of an object, as they were written, the first of them coming next. -/
theorem fields?_letters {fields : List (String × Json)} (hne : fields ≠ [])
    (hread : ∀ f ∈ fields, f.2.Reads) :
    ∀ (fuel : Nat) (done : List (String × Json)) (rest : List Char),
      ([','].intercalate (fields.map fieldLetters)).length < fuel →
      fields? fuel (some done) ([','].intercalate (fields.map fieldLetters) ++ '}' :: rest) =
        some (.object (done.reverse ++ fields), rest) := by
  induction fields with
  | nil => exact absurd rfl hne
  | cons f fields ih =>
    obtain ⟨hf, hfields⟩ := List.forall_mem_cons.mp hread
    intro fuel done rest hfuel
    rcases fuel with _ | fuel
    · cases hfuel
    by_cases hlast : fields = []
    · subst hlast
      rw [List.map_singleton, List.intercalate_singleton, fieldLetters] at hfuel ⊢
      rw [List.length_append, List.length_cons] at hfuel
      obtain ⟨cs, hquote, hname⟩ := string?_quote f.1 (':' :: (f.2.letters ++ '}' :: rest))
      rw [List.append_assoc, List.cons_append, hquote, fields?_of_close hname
        (hf fuel ('}' :: rest) (by omega) (endsNumber_cons (by decide) rest))]
      simp
    · rw [List.map_cons, List.intercalate_cons_of_ne_nil (mt List.map_eq_nil_iff.mp hlast),
        fieldLetters] at hfuel ⊢
      rw [List.length_append, List.length_append, List.length_append, List.length_cons,
        List.length_singleton] at hfuel
      obtain ⟨cs, hquote, hname⟩ := string?_quote f.1 (':' :: (f.2.letters ++
        ',' :: ([','].intercalate (fields.map fieldLetters) ++ '}' :: rest)))
      rw [List.append_assoc, List.append_assoc, List.append_assoc, List.singleton_append,
        List.cons_append, hquote,
        fields?_of_comma hname (hf fuel _ (by omega) (endsNumber_cons (by decide) _)),
        ih hlast hfields fuel (f :: done) rest (by omega)]
      simp

theorem value?_of_items {c : Char} (hblank : isBlank c = false) (hc : c ≠ ']') :
    value? (fuel + 1) ('[' :: c :: cs) = items? fuel [] (c :: cs) := by
  rw [value?, skipBlanks_cons rfl]
  split
  -- of the characters a value may begin with, the bracket is the fifth
  case h_5 heq =>
    cases heq
    rw [skipBlanks_cons hblank]
    split
    · next heq =>
      cases heq
      exact absurd rfl hc
    · rfl
  case h_7 hbracket _ => exact absurd rfl (hbracket _)
  all_goals next heq => simp at heq

theorem exists_intercalate (l : List Char) (ls : List (List Char)) :
    ∃ tail, [','].intercalate (l :: ls) = l ++ tail := by
  cases ls with
  | nil => exact ⟨[], by rw [List.intercalate_singleton, List.append_nil]⟩
  | cons l' ls => exact ⟨_, by rw [List.intercalate_cons_cons, List.append_assoc]⟩

theorem reads_array {items : List Json} (hitems : ∀ j ∈ items, j.Legible)
    (hread : ∀ j ∈ items, j.Reads) : (Json.array items).Reads := by
  refine (Legible.array hitems).reads_of_succ fun fuel rest hfuel _ => ?_
  rw [letters_array] at hfuel ⊢
  cases items with
  | nil => rfl
  | cons j items =>
    rw [List.length_cons, List.length_append, List.length_singleton] at hfuel
    have hinner := items?_letters (List.cons_ne_nil j items) hread fuel [] rest (by omega)
    -- the first item tells that the array does not end here
    obtain ⟨c, tail, htext, hblank, hc⟩ := (hitems j List.mem_cons_self).exists_cons
    obtain ⟨others, hothers⟩ := exists_intercalate j.letters (items.map letters)
    rw [List.map_cons, hothers, htext, List.cons_append, List.cons_append] at hinner ⊢
    rw [List.cons_append, List.cons_append, List.append_assoc, value?_of_items hblank hc]
    exact hinner

theorem reads_object {fields : List (String × Json)} (hfields : ∀ f ∈ fields, f.2.Legible)
    (hread : ∀ f ∈ fields, f.2.Reads) : (Json.object fields).Reads := by
  refine (Legible.object hfields).reads_of_succ fun fuel rest hfuel _ => ?_
  rw [letters_object] at hfuel ⊢
  cases fields with
  | nil => rfl
  | cons f fields =>
    rw [List.length_cons, List.length_append, List.length_singleton] at hfuel
    have hinner := fields?_letters (List.cons_ne_nil f fields) hread fuel [] rest (by omega)
    obtain ⟨others, hothers⟩ := exists_intercalate (fieldLetters f) (fields.map fieldLetters)
    rw [List.map_cons, hothers, fieldLetters, toList_quote, List.cons_append, List.cons_append,
      List.cons_append, List.cons_append] at hinner ⊢
    rw [List.cons_append, List.cons_append, List.append_assoc]
    exact hinner

theorem reads_string (s : String) : (Json.string s).Reads := by
  refine (Legible.string s).reads_of_succ fun fuel rest _ _ => ?_
  obtain ⟨cs, hquote, hstring⟩ := string?_quote s rest
  have htext : letters (.string s) ++ rest = '"' :: cs := hquote
  rw [htext, value?, skipBlanks_cons rfl]
  change (string? cs).map _ = _
  rw [hstring]
  rfl

/-- **A written value is read back**, whatever follows it. -/
theorem Legible.reads {j : Json} (h : j.Legible) : j.Reads := by
  induction h with
  | null => exact Legible.null.reads_of_succ fun _ _ _ _ => rfl
  | bool b => exact (Legible.bool b).reads_of_succ fun _ _ _ _ => by cases b <;> rfl
  | number h =>
    exact (Legible.number h).reads_of_succ fun fuel _ _ hends =>
      value?_of_number (Number.read?_append h hends) fuel
  | string s => exact reads_string s
  | array hitems ih => exact reads_array hitems ih
  | object hfields ih => exact reads_object hfields ih

end Containers

/-- **The text of a legible value is read as that value**, and nothing follows it. -/
theorem readPrefix?_compress {j : Json} (h : j.Legible) :
    readPrefix? (compress j) = some (j, []) := by
  have hread := h.reads (2 * j.letters.length + 2) [] (by omega) nofun
  rw [List.append_nil] at hread
  exact hread

/-! ## 4. Data -/

theorem lt_of_toNatBelow? {bound n : Nat} {j : Json} (h : j.toNatBelow? bound = some n) :
    n < bound := by
  unfold toNatBelow? at h
  split at h
  · next m =>
    by_cases hlt : m < bound
    · rw [if_pos hlt] at h
      cases h
      exact hlt
    · rw [if_neg hlt] at h
      cases h
  · cases h

/-- A list is read if all its items are. -/
theorem listOf?_map {α : Type} {read : Json → Option α} {write : α → Json} {xs : List α}
    (h : ∀ x ∈ xs, read (write x) = some x) :
    (Json.array (xs.map write)).listOf? read = some xs := by
  change (xs.map write).mapM read = some xs
  induction xs with
  | nil => rfl
  | cons x xs ih =>
    obtain ⟨hx, hxs⟩ := List.forall_mem_cons.mp h
    rw [List.map_cons, List.mapM_cons, hx, ih hxs]
    rfl

end CircuitBroker.Json
