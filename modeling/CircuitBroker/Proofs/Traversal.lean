/-
  CircuitBroker/Proofs/Traversal.lean
  ===================================
  **Traversals that can fail, when they do not.**

  A successful `mapM` relates its input to its output entry by entry, and a successful
  `foldlM` whose steps each add something is a plain fold over what was added.

  Where each entry is either refused for a reason of its own or goes through, the first refusal
  decides the outcome of the whole (`foldlM_settled`, `mapM_settled`).
-/
import Mathlib

namespace CircuitBroker

variable {ε α β σ : Type}

theorem bind_eq_ok {x : Except ε α} {f : α → Except ε β} {b : β} :
    x >>= f = .ok b ↔ ∃ a, x = .ok a ∧ f a = .ok b := by
  cases x with
  | error e => simp [bind, Except.bind]
  | ok a => simp [bind, Except.bind]

theorem map_eq_ok {x : Except ε α} {f : α → β} {b : β} :
    x.map f = .ok b ↔ ∃ a, x = .ok a ∧ f a = b := by
  cases x with
  | error e => simp [Except.map]
  | ok a => simp [Except.map]

theorem exists_map_eq_ok {x : Except ε α} {f : α → β} :
    (∃ b, x.map f = .ok b) ↔ ∃ a, x = .ok a := by
  cases x with
  | error e => simp [Except.map]
  | ok a => simp [Except.map]

theorem map_eq_error {x : Except ε α} {f : α → β} {e : ε} : x.map f = .error e ↔ x = .error e := by
  cases x with
  | error e' => simp [Except.map]
  | ok a => simp [Except.map]

theorem mapM_eq_ok_iff {f : α → Except ε β} {l : List α} :
    ∀ {r : List β}, l.mapM f = .ok r ↔ List.Forall₂ (fun a b => f a = .ok b) l r := by
  induction l with
  | nil =>
    intro r
    rw [List.mapM_nil, List.forall₂_nil_left_iff]
    exact ⟨fun h => (Except.ok.inj h).symm, fun h => h ▸ rfl⟩
  | cons a l ih =>
    intro r
    rw [List.mapM_cons, bind_eq_ok, List.forall₂_cons_left_iff]
    constructor
    · rintro ⟨b, hb, hrest⟩
      obtain ⟨bs, hbs, hr⟩ := bind_eq_ok.mp hrest
      exact ⟨b, bs, hb, ih.mp hbs, (Except.ok.inj hr).symm⟩
    · rintro ⟨b, bs, hb, hbs, rfl⟩
      exact ⟨b, hb, bind_eq_ok.mpr ⟨bs, ih.mpr hbs, rfl⟩⟩

theorem exists_mapM_ok {f : α → Except ε β} {l : List α} (h : ∀ a ∈ l, ∃ b, f a = .ok b) :
    ∃ bs, l.mapM f = .ok bs := by
  induction l with
  | nil => exact ⟨[], rfl⟩
  | cons a l ih =>
    obtain ⟨b, hb⟩ := h a List.mem_cons_self
    obtain ⟨bs, hbs⟩ := ih fun c hc => h c (List.mem_cons_of_mem a hc)
    exact ⟨b :: bs, mapM_eq_ok_iff.mpr (.cons hb (mapM_eq_ok_iff.mp hbs))⟩

theorem exists_of_mapM_eq_ok {f : α → Except ε β} {l : List α} {r : List β} (h : l.mapM f = .ok r) :
    ∀ a ∈ l, ∃ b, f a = .ok b := by
  have hrel := mapM_eq_ok_iff.mp h
  clear h
  induction hrel with
  | nil => simp
  | @cons a b l r hab _ ih => exact List.forall_mem_cons.mpr ⟨⟨b, hab⟩, ih⟩

/-- A traversal that fails fails for the reason of one of its entries. -/
theorem exists_of_mapM_eq_error {f : α → Except ε β} {l : List α} {e : ε}
    (h : l.mapM f = .error e) : ∃ a ∈ l, f a = .error e := by
  induction l with
  | nil => cases h
  | cons a l ih =>
    rw [List.mapM_cons] at h
    cases ha : f a with
    | error e' =>
      rw [ha] at h
      cases h
      exact ⟨a, List.mem_cons_self, ha⟩
    | ok b =>
      cases hl : l.mapM f with
      | ok bs =>
        rw [ha, hl] at h
        cases h
      | error e' =>
        rw [ha, hl] at h
        cases h
        obtain ⟨c, hc, hfc⟩ := ih hl
        exact ⟨c, List.mem_cons_of_mem a hc, hfc⟩

/-- A traversal that refuses some entries, all for one reason. -/
theorem mapM_refusing (refused : α → Prop) [DecidablePred refused] (e : ε) (g : α → β) (l : List α) :
    (l.mapM fun a => if refused a then .error e else .ok (g a)) =
      if ∃ a ∈ l, refused a then (.error e : Except ε (List β)) else .ok (l.map g) := by
  induction l with
  | nil => rfl
  | cons a l ih =>
    rw [List.mapM_cons, ih]
    by_cases ha : refused a
    · have hany : ∃ b ∈ a :: l, refused b := ⟨a, List.mem_cons_self, ha⟩
      rw [if_pos ha, if_pos hany]
      rfl
    · simp only [List.exists_mem_cons_iff, ha, false_or, if_false]
      split <;> rfl

theorem flatMap_flatten_eq {γ : Type} {f : α → List γ} {g : β → List γ} {l : List α}
    {parts : List (List β)} (h : List.Forall₂ (fun a part => part.flatMap g = f a) l parts) :
    parts.flatten.flatMap g = l.flatMap f := by
  induction h with
  | nil => rfl
  | cons hpart _ ih => rw [List.flatten_cons, List.flatMap_append, hpart, ih, List.flatMap_cons]

theorem forall_mem_of_forall₂ {P : α → β → Prop} {Q : β → Prop} (hPQ : ∀ a b, P a b → Q b)
    {l : List α} {l' : List β} (h : List.Forall₂ P l l') : ∀ b ∈ l', Q b := by
  induction h with
  | nil => intro b hb; cases hb
  | cons hab _ ih => exact List.forall_mem_cons.mpr ⟨hPQ _ _ hab, ih⟩

/-- A traversal each of whose steps, where `I` holds, either fails or adds one thing that
    stands in `P` to the entry it was made from. -/
theorem foldlM_forall₂ {f : σ → α → Except ε σ} {g : σ → β → σ} {P : α → β → Prop}
    {I : σ → Prop} {l : List α}
    (hstep : ∀ a ∈ l, ∀ s s', I s → f s a = .ok s' → ∃ b, s' = g s b ∧ P a b ∧ I s') :
    ∀ {s t : σ}, I s → l.foldlM f s = .ok t → ∃ bs, t = bs.foldl g s ∧ List.Forall₂ P l bs := by
  induction l with
  | nil =>
    intro s t _ h
    exact ⟨[], (Except.ok.inj h).symm, .nil⟩
  | cons a l ih =>
    intro s t hs h
    rw [List.foldlM_cons] at h
    obtain ⟨s', hs', hrest⟩ := bind_eq_ok.mp h
    obtain ⟨b, rfl, hb, hinv⟩ := hstep a List.mem_cons_self s s' hs hs'
    obtain ⟨bs, rfl, hbs⟩ := ih (fun c hc => hstep c (List.mem_cons_of_mem a hc)) hinv hrest
    exact ⟨b :: bs, rfl, .cons hb hbs⟩

/-- A traversal each of whose steps, where `I` holds, adds one thing that stands in `P` to the
    entry it was made from. -/
theorem exists_foldlM_forall₂ {f : σ → α → Except ε σ} {g : σ → β → σ} {P : α → β → Prop}
    {I : σ → Prop} {l : List α}
    (hstep : ∀ a ∈ l, ∀ s, I s → ∃ b, f s a = .ok (g s b) ∧ P a b ∧ I (g s b)) :
    ∀ {s : σ}, I s → ∃ bs, l.foldlM f s = .ok (bs.foldl g s) ∧ List.Forall₂ P l bs := by
  induction l with
  | nil => exact fun _ => ⟨[], rfl, .nil⟩
  | cons a l ih =>
    intro s hs
    obtain ⟨b, hb, hP, hnext⟩ := hstep a List.mem_cons_self s hs
    obtain ⟨bs, hbs, hrest⟩ := ih (fun c hc => hstep c (List.mem_cons_of_mem a hc)) hnext
    refine ⟨b :: bs, ?_, .cons hP hrest⟩
    rw [List.foldlM_cons]
    exact bind_eq_ok.mpr ⟨g s b, hb, hbs⟩

/-- A traversal whose steps succeed and keep what holds before it. -/
theorem exists_foldlM_invariant {f : σ → α → Except ε σ} {I : σ → Prop} {l : List α}
    (hstep : ∀ a ∈ l, ∀ s, I s → ∃ s', f s a = .ok s' ∧ I s') :
    ∀ {s : σ}, I s → ∃ t, l.foldlM f s = .ok t ∧ I t := by
  induction l with
  | nil => exact fun {s} hs => ⟨s, rfl, hs⟩
  | cons a l ih =>
    intro s hs
    obtain ⟨s', hs', hnext⟩ := hstep a List.mem_cons_self s hs
    obtain ⟨t, ht, hend⟩ := ih (fun b hb => hstep b (List.mem_cons_of_mem a hb)) hnext
    exact ⟨t, by rw [List.foldlM_cons]; exact bind_eq_ok.mpr ⟨s', hs', ht⟩, hend⟩

/-- What holds before a traversal, and is carried on by each step to the entries done so far,
    holds of the whole list in the end. -/
theorem foldlM_prefix {f : σ → α → Except ε σ} {I : List α → σ → Prop} {l : List α} {s t : σ}
    (hinit : I [] s)
    (hstep : ∀ a ∈ l, ∀ done s s', I done s → f s a = .ok s' → I (done ++ [a]) s')
    (h : l.foldlM f s = .ok t) : I l t := by
  suffices hgen : ∀ (rest : List α), (∀ a ∈ rest, a ∈ l) → ∀ done s, I done s →
      rest.foldlM f s = .ok t → I (done ++ rest) t from
    hgen l (fun _ ha => ha) [] s hinit h
  intro rest
  induction rest with
  | nil =>
    intro _ done s hs h
    rw [List.append_nil]
    exact Except.ok.inj h ▸ hs
  | cons a rest ih =>
    intro hmem done s hs h
    rw [List.foldlM_cons] at h
    obtain ⟨s', hs', hrest⟩ := bind_eq_ok.mp h
    have hnext := hstep a (hmem a List.mem_cons_self) done s s' hs hs'
    have hdone := ih (fun b hb => hmem b (List.mem_cons_of_mem a hb)) (done ++ [a]) s' hnext hrest
    rwa [List.append_assoc] at hdone

/-! ### The first refusal -/

/-- An outcome that a refusal decides: its reason if there is one, a result if there is none. -/
def Settled (refusal : Option ε) (outcome : Except ε α) : Prop :=
  match refusal with
  | some e => outcome = .error e
  | none => ∃ a, outcome = .ok a

namespace Settled

variable {refusal : Option ε} {outcome : Except ε α}

theorem ok_iff (h : Settled refusal outcome) : (∃ a, outcome = .ok a) ↔ refusal = none := by
  cases refusal with
  | none => exact ⟨fun _ => rfl, fun _ => h⟩
  | some e =>
    constructor
    · rintro ⟨a, ha⟩
      cases (show outcome = .error e from h).symm.trans ha
    · intro hnone
      cases hnone

theorem error_iff (h : Settled refusal outcome) {e : ε} : outcome = .error e ↔ refusal = some e := by
  cases refusal with
  | none =>
    obtain ⟨a, rfl⟩ := h
    exact ⟨nofun, nofun⟩
  | some e' =>
    rw [show outcome = .error e' from h]
    rw [Except.error.injEq, Option.some.injEq]

theorem map (h : Settled refusal outcome) (f : α → β) : Settled refusal (outcome.map f) := by
  cases refusal with
  | none =>
    obtain ⟨a, rfl⟩ := h
    exact ⟨f a, rfl⟩
  | some e =>
    rw [show outcome = .error e from h]
    rfl

end Settled

variable {refuse : α → Option ε} {l : List α}

theorem foldlM_settled {f : σ → α → Except ε σ}
    (hstep : ∀ a ∈ l, ∀ s, Settled (refuse a) (f s a)) :
    ∀ s, Settled (l.findSome? refuse) (l.foldlM f s) := by
  induction l with
  | nil => exact fun s => ⟨s, rfl⟩
  | cons a l ih =>
    intro s
    have ha := hstep a List.mem_cons_self s
    rw [List.findSome?_cons, List.foldlM_cons]
    cases hrefuse : refuse a with
    | none =>
      rw [hrefuse] at ha
      obtain ⟨s', hs'⟩ := ha
      rw [hs']
      exact ih (fun b hb => hstep b (List.mem_cons_of_mem a hb)) s'
    | some e =>
      rw [hrefuse] at ha
      rw [show f s a = .error e from ha]
      rfl

theorem mapM_settled {f : α → Except ε β} (hstep : ∀ a ∈ l, Settled (refuse a) (f a)) :
    Settled (l.findSome? refuse) (l.mapM f) := by
  induction l with
  | nil => exact ⟨[], rfl⟩
  | cons a l ih =>
    have ha := hstep a List.mem_cons_self
    have hrest := ih fun b hb => hstep b (List.mem_cons_of_mem a hb)
    rw [List.findSome?_cons, List.mapM_cons]
    cases hrefuse : refuse a with
    | none =>
      rw [hrefuse] at ha
      obtain ⟨b, hb⟩ := ha
      rw [hb]
      exact hrest.map (b :: ·)
    | some e =>
      rw [hrefuse] at ha
      rw [show f a = .error e from ha]
      rfl

end CircuitBroker
