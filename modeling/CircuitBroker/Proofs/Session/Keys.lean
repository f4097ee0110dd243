/-
  CircuitBroker/Proofs/Session/Keys.lean
  ======================================
  **Every outcome of a comparison has a key of its own.**

  A key that is taken gets the first number that makes it free; there always is one, since
  different numbers make different keys (`freeKey_notMem`).  So the keys of a comparison are
  distinct (`nodup_freshKeys`), and each leads to the outcome that was inserted under it
  (`get?_of_getElem?`).  Where no key has a number sign of its own, the number is that of the
  executions so far which asked for the key (`getElem?_freshKeys`).
-/
import CircuitBroker.Session.Comparison
import Mathlib

namespace CircuitBroker

namespace Comparison

/-! ## 1. Free keys -/

theorem toList_candidate_succ (key : String) (n : Nat) :
    (candidate key (n + 1)).toList = key.toList ++ '#' :: (toString (n + 2)).toList := by
  simp [candidate]

theorem candidate_injective (key : String) : Function.Injective (candidate key) := by
  intro m n h
  have hlist := congrArg String.toList h
  cases m with
  | zero =>
    cases n with
    | zero => rfl
    | succ n => simp [candidate] at hlist
  | succ m =>
    cases n with
    | zero => simp [candidate] at hlist
    | succ n =>
      rw [toList_candidate_succ, toList_candidate_succ, List.append_cancel_left_eq,
        List.cons_eq_cons] at hlist
      have hnumber : toString (m + 2) = toString (n + 2) := String.toList_inj.mp hlist.2
      have hsame : m + 2 = n + 2 := Nat.repr_inj.mp hnumber
      omega

theorem find?_freeKey (taken : List String) (key : String) :
    ∃ name, ((List.range (taken.length + 1)).map (candidate key)).find? (!taken.contains ·) =
      some name := by
  rw [← Option.isSome_iff_exists, List.find?_isSome]
  by_contra hnone
  -- all candidates taken would be more distinct names than are taken
  have hall : (List.range (taken.length + 1)).map (candidate key) ⊆ taken := by
    intro name hname
    by_contra hfree
    exact hnone ⟨name, hname, by simpa using hfree⟩
  have hnodup := (List.nodup_range (n := taken.length + 1)).map (candidate_injective key)
  have hle := (hnodup.subperm hall).length_le
  simp at hle

/-- **The first name that is not taken.**  The number at its end is at most one more than there
    are names, so counting up to it never leaves a word as long as the names do not. -/
theorem exists_freeKey (taken : List String) (key : String) :
    ∃ k ≤ taken.length, freeKey taken key = candidate key k ∧ candidate key k ∉ taken ∧
      ∀ j < k, candidate key j ∈ taken := by
  obtain ⟨name, hname⟩ := find?_freeKey taken key
  have hfirst := hname
  rw [List.find?_map, Option.map_eq_some_iff] at hfirst
  obtain ⟨k, hk, rfl⟩ := hfirst
  obtain ⟨hfree, hmem, hbefore⟩ := List.find?_range_eq_some.mp hk
  refine ⟨k, Nat.le_of_lt_succ (List.mem_range.mp hmem), by rw [freeKey, hname]; rfl, ?_, ?_⟩
  · simpa using hfree
  · exact fun j hj => by simpa using hbefore j hj

theorem freeKey_notMem (taken : List String) (key : String) : freeKey taken key ∉ taken := by
  obtain ⟨k, -, heq, hfree, -⟩ := exists_freeKey taken key
  rwa [heq]

def freshKeys : List String → List String → List String
  | _, [] => []
  | taken, key :: keys => freeKey taken key :: freshKeys (taken ++ [freeKey taken key]) keys

theorem length_freshKeys (taken keys : List String) :
    (freshKeys taken keys).length = keys.length := by
  induction keys generalizing taken with
  | nil => rfl
  | cons key keys ih => rw [freshKeys, List.length_cons, List.length_cons, ih]

theorem insertAll_append (c : Comparison)
    (first second : List (String × Except ExecutionFailure ExecutionResult)) :
    (c.insertAll first).insertAll second = c.insertAll (first ++ second) := by
  rw [insertAll, insertAll, insertAll, List.foldl_append]

theorem entries_insertAll (outcomes : List (String × Except ExecutionFailure ExecutionResult))
    (c : Comparison) : (c.insertAll outcomes).entries = c.entries ++
      (freshKeys (c.entries.map (·.1)) (outcomes.map (·.1))).zip (outcomes.map (·.2)) := by
  induction outcomes generalizing c with
  | nil => simp [insertAll, freshKeys]
  | cons o os ih =>
    have hrest := ih (c.insert o.1 o.2)
    rw [insertAll, List.foldl_cons]
    refine hrest.trans ?_
    simp [insert, freshKeys]

/-- **No two outcomes are inserted under one key.** -/
theorem nodup_freshKeys (keys : List String) {taken : List String} (h : taken.Nodup) :
    (taken ++ freshKeys taken keys).Nodup := by
  induction keys generalizing taken with
  | nil => simpa [freshKeys] using h
  | cons key keys ih =>
    have hnodup : (taken ++ [freeKey taken key]).Nodup := by
      rw [List.nodup_append]
      refine ⟨h, List.nodup_singleton _, ?_⟩
      rintro name hname _ hfree rfl
      rw [List.mem_singleton] at hfree
      exact freeKey_notMem taken key (hfree ▸ hname)
    have hrest := ih hnodup
    rwa [List.append_assoc] at hrest

/-- The key of an outcome leads to it. -/
theorem get?_of_getElem? {names : List String}
    {outcomes : List (Except ExecutionFailure ExecutionResult)} (h : names.Nodup) {j : Nat}
    {name : String} {outcome : Except ExecutionFailure ExecutionResult}
    (hname : names[j]? = some name) (houtcome : outcomes[j]? = some outcome) :
    (⟨names.zip outcomes⟩ : Comparison).get? name = some outcome := by
  induction names generalizing outcomes j with
  | nil => cases hname
  | cons first names ih =>
    obtain ⟨hfirst, hnames⟩ := List.nodup_cons.mp h
    cases outcomes with
    | nil => cases houtcome
    | cons o os =>
      cases j with
      | zero =>
        cases hname
        cases houtcome
        simp [get?]
      | succ j =>
        rw [List.getElem?_cons_succ] at hname houtcome
        have hne : first ≠ name := by
          rintro rfl
          exact hfirst (List.mem_of_getElem? hname)
        have hrest := ih hnames hname houtcome
        simpa [get?, hne] using hrest

/-! ## 2. Keys without a number sign -/

/-- A key that does not look as if it had a number. -/
def Plain (key : String) : Prop := '#' ∉ key.toList

theorem takeWhile_candidate {key : String} (h : Plain key) (n : Nat) :
    (candidate key n).toList.takeWhile (· != '#') = key.toList := by
  have hkey : ∀ c ∈ key.toList, (c != '#') = true := by
    intro c hc
    rw [bne_iff_ne]
    rintro rfl
    exact h hc
  cases n with
  | zero => exact List.takeWhile_eq_self_iff.mpr hkey
  | succ n =>
    rw [toList_candidate_succ, List.takeWhile_append_of_pos hkey]
    simp

theorem candidate_inj {key key' : String} (h : Plain key) (h' : Plain key') {m n : Nat} :
    candidate key m = candidate key' n ↔ key = key' ∧ m = n := by
  constructor
  · intro heq
    have hkeys : key.toList = key'.toList := by
      rw [← takeWhile_candidate h m, heq, takeWhile_candidate h']
    obtain rfl := String.toList_inj.mp hkeys
    exact ⟨rfl, candidate_injective key heq⟩
  · rintro ⟨rfl, rfl⟩
    rfl

/-- The names that are taken are those of the keys before, each with its numbers from the first
    on. -/
structure Numbered (before taken : List String) : Prop where
  length : taken.length = before.length
  mem : ∀ key n, Plain key → (candidate key n ∈ taken ↔ n < before.count key)

theorem freeKey_of_numbered {before taken : List String} (h : Numbered before taken) {key : String}
    (hkey : Plain key) : freeKey taken key = candidate key (before.count key) := by
  obtain ⟨k, -, heq, hfree, hbefore⟩ := exists_freeKey taken key
  -- all lower numbers are taken by keys before, and this one is not
  have hle : k ≤ before.count key := Nat.not_lt.mp fun hlt =>
    absurd ((h.mem key _ hkey).mp (hbefore _ hlt)) (lt_irrefl _)
  have hge : before.count key ≤ k := Nat.not_lt.mp fun hlt => hfree ((h.mem key k hkey).mpr hlt)
  rw [heq, Nat.le_antisymm hle hge]

theorem Numbered.append {before taken : List String} (h : Numbered before taken) {key : String}
    (hkey : Plain key) :
    Numbered (before ++ [key]) (taken ++ [candidate key (before.count key)]) := by
  refine ⟨by simp [h.length], fun key' n hkey' => ?_⟩
  rw [List.mem_append, List.mem_singleton, h.mem key' n hkey', candidate_inj hkey' hkey,
    List.count_append, List.count_singleton]
  by_cases hsame : key = key'
  · subst hsame
    simp
    omega
  · simp [hsame, Ne.symm hsame]

/-- **A key gets the number of the executions so far that asked for it.** -/
theorem getElem?_freshKeys {keys before taken : List String} (h : Numbered before taken)
    (hplain : ∀ key ∈ keys, Plain key) (j : Nat) :
    (freshKeys taken keys)[j]? =
      keys[j]?.map fun key => candidate key ((before ++ keys.take j).count key) := by
  induction keys generalizing before taken j with
  | nil => rfl
  | cons key keys ih =>
    obtain ⟨hkey, hkeys⟩ := List.forall_mem_cons.mp hplain
    rw [freshKeys, freeKey_of_numbered h hkey]
    cases j with
    | zero => simp
    | succ j =>
      have hrest := ih (h.append hkey) hkeys j
      simpa using hrest

end Comparison

/-! ## 3. Keys of executions -/

theorem Backend.name_injective : Function.Injective Backend.name := by
  intro b b' h
  cases b <;> cases b' <;> first | rfl | exact absurd h (by decide)

theorem Backend.ne_of_mem_name (b : Backend) : ∀ c ∈ b.name.toList, c ≠ '@' ∧ c ≠ '#' := by
  cases b <;> simp [name]

namespace ExecutionSettings

theorem toList_key (e : ExecutionSettings) : e.key.toList =
    e.backend.name.toList ++ (e.device.map fun device => '@' :: device.toList).getD [] := by
  unfold key
  cases e.device <;> simp

theorem takeWhile_key (e : ExecutionSettings) :
    e.key.toList.takeWhile (· != '@') = e.backend.name.toList := by
  have hname : ∀ c ∈ e.backend.name.toList, (c != '@') = true := fun c hc =>
    bne_iff_ne.mpr (e.backend.ne_of_mem_name c hc).1
  rw [toList_key, List.takeWhile_append_of_pos hname]
  cases e.device <;> simp

/-- Executions with one key are executions on one backend. -/
theorem backend_of_key {e e' : ExecutionSettings} (h : e.key = e'.key) : e.backend = e'.backend := by
  apply Backend.name_injective
  rw [← String.toList_inj, ← takeWhile_key, h, takeWhile_key]

theorem plain_key {e : ExecutionSettings}
    (h : ∀ device, e.device = some device → '#' ∉ device.toList) : Comparison.Plain e.key := by
  intro hmem
  rw [toList_key, List.mem_append] at hmem
  rcases hmem with hname | hdevice
  · exact (e.backend.ne_of_mem_name _ hname).2 rfl
  · cases hd : e.device with
    | none => simp [hd] at hdevice
    | some device => exact h device hd (by simpa [hd] using hdevice)

end ExecutionSettings

end CircuitBroker
