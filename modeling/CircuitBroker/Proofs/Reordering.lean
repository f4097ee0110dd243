/-
  CircuitBroker/Proofs/Reordering.lean
  ====================================
  **Reorderings that keep dependent things in order.**

  `Reordered indep` relates two lists that differ by exchanging neighbours that are
  independent.  Whatever a list does one entry after the other is the same for a
  reordered list, if independent entries may be done in either order
  (`Reordered.foldl_eq`), and a reordering of one list can be carried out on every list
  that matches it entry by entry (`Reordered.forall₂`).
-/
import Mathlib

namespace CircuitBroker

variable {α β σ : Type}

/-- Lists that differ by exchanging independent neighbours. -/
inductive Reordered (indep : α → α → Prop) : List α → List α → Prop
  | refl (l : List α) : Reordered indep l l
  | cons (a : α) {l l' : List α} (h : Reordered indep l l') : Reordered indep (a :: l) (a :: l')
  | swap {a b : α} (l : List α) (h : indep a b) : Reordered indep (a :: b :: l) (b :: a :: l)
  | trans {l l' l'' : List α} (h : Reordered indep l l') (h' : Reordered indep l' l'') :
      Reordered indep l l''

namespace Reordered

variable {indep : α → α → Prop} {l l' : List α}

theorem append_left (front : List α) (h : Reordered indep l l') :
    Reordered indep (front ++ l) (front ++ l') := by
  induction front with
  | nil => exact h
  | cons a front ih => exact .cons a ih

theorem append_right (h : Reordered indep l l') (back : List α) :
    Reordered indep (l ++ back) (l' ++ back) := by
  induction h with
  | refl l => exact .refl _
  | cons a _ ih => exact .cons a ih
  | swap l hab => exact .swap _ hab
  | trans _ _ ih ih' => exact .trans ih ih'

/-- An entry may be put off until after entries it is independent of. -/
theorem move_back {a : α} (h : ∀ b ∈ l, indep a b) : Reordered indep (a :: l) (l ++ [a]) := by
  induction l with
  | nil => exact .refl _
  | cons b l ih =>
    have hrest := ih fun c hc => h c (List.mem_cons_of_mem b hc)
    exact .trans (.swap l (h b List.mem_cons_self)) (.cons b hrest)

theorem append_comm (h : ∀ a ∈ l, ∀ b ∈ l', indep a b) : Reordered indep (l ++ l') (l' ++ l) := by
  induction l with
  | nil => rw [List.append_nil]; exact .refl _
  | cons a l ih =>
    have hrest := ih fun b hb => h b (List.mem_cons_of_mem a hb)
    have hfirst := (move_back (h a List.mem_cons_self)).append_right l
    rw [List.append_assoc] at hfirst
    exact .trans (.cons a hrest) hfirst

theorem symm (hsymm : ∀ {a b : α}, indep a b → indep b a) (h : Reordered indep l l') :
    Reordered indep l' l := by
  induction h with
  | refl l => exact .refl l
  | cons a _ ih => exact .cons a ih
  | swap l hab => exact .swap l (hsymm hab)
  | trans _ _ ih ih' => exact .trans ih' ih

theorem perm (h : Reordered indep l l') : l.Perm l' := by
  induction h with
  | refl l => exact .refl l
  | cons a _ ih => exact ih.cons a
  | swap l _ => exact .swap _ _ l
  | trans _ _ ih ih' => exact ih.trans ih'

/-- Two rankings of the same entries differ in the order of entries that may go either way. -/
theorem of_pairwise {before : α → α → Prop} (hperm : l.Perm l') (hl : l.Pairwise before)
    (hl' : l'.Pairwise before) : Reordered (fun a b => before a b ∧ before b a) l l' := by
  induction l generalizing l' with
  | nil => rw [hperm.nil_eq]; exact .refl _
  | cons a l ih =>
    -- what the second ranking has in front of `a` comes after it in the first
    obtain ⟨front, back, rfl⟩ := List.append_of_mem (hperm.mem_iff.mp List.mem_cons_self)
    have hrest : l.Perm (front ++ back) := (hperm.trans List.perm_middle).cons_inv
    obtain ⟨hfirst, htail⟩ := List.pairwise_cons.mp hl
    have hties : ∀ b ∈ front, before a b ∧ before b a := by
      intro b hb
      have hlater := hfirst b (hrest.mem_iff.mpr (List.mem_append_left back hb))
      have hearlier := (List.pairwise_append.mp hl').2.2 b hb a List.mem_cons_self
      exact ⟨hlater, hearlier⟩
    have hordered : (front ++ back).Pairwise before :=
      hl'.sublist (List.Sublist.append_left (List.sublist_cons_self a back) front)
    have hback : Reordered (fun a b => before a b ∧ before b a) (a :: front) (front ++ [a]) :=
      move_back hties
    have hplaced := hback.append_right back
    rw [List.append_assoc] at hplaced
    exact .trans (.cons a (ih hrest htail hordered)) hplaced

theorem flatMap {indep' : β → β → Prop} {f : α → List β}
    (hindep : ∀ a ∈ l, ∀ b ∈ l, indep a b → ∀ c ∈ f a, ∀ d ∈ f b, indep' c d)
    (h : Reordered indep l l') : Reordered indep' (l.flatMap f) (l'.flatMap f) := by
  induction h with
  | refl l => exact .refl _
  | cons a _ ih =>
    have hrest := ih fun b hb c hc =>
      hindep b (List.mem_cons_of_mem a hb) c (List.mem_cons_of_mem a hc)
    exact hrest.append_left (f a)
  | @swap a b l hab =>
    have hpair := hindep a (by simp) b (by simp) hab
    simp only [List.flatMap_cons, ← List.append_assoc]
    exact (append_comm hpair).append_right _
  | trans h _ ih ih' =>
    exact .trans (ih hindep) (ih' fun a ha b hb =>
      hindep a (h.perm.mem_iff.mpr ha) b (h.perm.mem_iff.mpr hb))

/-- **A run does not see a reordering**, if two independent entries of the list may be done
    in either order. -/
theorem foldl_eq {f : σ → α → σ}
    (hcomm : ∀ a ∈ l, ∀ b ∈ l, indep a b → ∀ s, f (f s a) b = f (f s b) a)
    (h : Reordered indep l l') : ∀ s, l.foldl f s = l'.foldl f s := by
  induction h with
  | refl l => exact fun s => rfl
  | cons a _ ih =>
    intro s
    have hrest := ih fun b hb c hc =>
      hcomm b (List.mem_cons_of_mem a hb) c (List.mem_cons_of_mem a hc)
    exact hrest (f s a)
  | @swap a b l hab =>
    intro s
    have hpair := hcomm a (by simp) b (by simp) hab s
    rw [List.foldl_cons, List.foldl_cons, List.foldl_cons, List.foldl_cons, hpair]
  | trans h _ ih ih' =>
    intro s
    have hsecond := ih' fun a ha b hb =>
      hcomm a (h.perm.mem_iff.mpr ha) b (h.perm.mem_iff.mpr hb)
    rw [ih hcomm s, hsecond s]

/-- A list matched entry by entry with one that is reordered can be reordered with it. -/
theorem forall₂ {J : β → β → Prop} {P : β → α → Prop}
    (hindep : ∀ {a b : α} {c d : β}, P c a → P d b → indep a b → J c d)
    (h : Reordered indep l l') :
    ∀ {k : List β}, List.Forall₂ P k l → ∃ k', Reordered J k k' ∧ List.Forall₂ P k' l' := by
  induction h with
  | refl l => exact fun {k} hk => ⟨k, .refl k, hk⟩
  | cons a _ ih =>
    rintro _ (_ | @⟨c, _, k, _, hc, hrest⟩)
    obtain ⟨k', hk', hmatch⟩ := ih hrest
    exact ⟨c :: k', .cons c hk', .cons hc hmatch⟩
  | swap l hab =>
    rintro _ (_ | @⟨c, _, _, _, hc, _ | @⟨d, _, k, _, hd, hrest⟩⟩)
    exact ⟨d :: c :: k, .swap k (hindep hc hd hab), .cons hd (.cons hc hrest)⟩
  | trans _ _ ih ih' =>
    intro k hk
    obtain ⟨k', hk', hmatch⟩ := ih hk
    obtain ⟨k'', hk'', hmatch'⟩ := ih' hmatch
    exact ⟨k'', .trans hk' hk'', hmatch'⟩

end Reordered

end CircuitBroker
