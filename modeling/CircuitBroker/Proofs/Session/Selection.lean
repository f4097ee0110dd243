/-
  CircuitBroker/Proofs/Session/Selection.lean
  ===========================================
  **A comparison leaves the backend selected that it tried last.**

  A conversion selects its backend before anything can go wrong, and stays selected if something
  does (`backend_convert`).  So after a comparison the backend of the last execution is
  selected, which is the one translated last only if that execution can be translated.  A plain
  drawing that follows is for the backend tried last: where it could not be translated, it fails
  again (`compare_selected`).
-/
import CircuitBroker.Proofs.Session.Comparison

namespace CircuitBroker.Session

variable {σ : Type} {log : List Conversion} {s : Session σ}

/-! ## 1. What is selected -/

theorem backend_convert (s : Session σ) (b : Backend) : (s.convert b).2.backend = b := by
  unfold convert
  dsimp only
  split
  · rfl
  · split <;> rfl

theorem backend_convertAll (bs : List Backend) (s : Session σ) :
    (s.convertAll bs).2.backend = bs.getLast?.getD s.backend := by
  induction bs generalizing s with
  | nil => rfl
  | cons b bs ih => rw [convertAll, ih, backend_convert, List.getLast?_cons, Option.getD_some]

/-- The backend of the last of some executions, and the selected one if there is none. -/
def triedLast (s : Session σ) (executions : List ExecutionSettings) : Backend :=
  (executions.getLast?.map (·.backend)).getD s.backend

/-- The backend of the last execution for which the circuit can be translated, and the selected
    one if there is none. -/
def translatedLast (s : Session σ) (executions : List ExecutionSettings) : Backend :=
  ((executions.filter fun e => (s.translated e.backend).isOk).getLast?.map (·.backend)).getD
    s.backend

theorem triedLast_append (s : Session σ) (executions : List ExecutionSettings)
    (e : ExecutionSettings) : s.triedLast (executions ++ [e]) = e.backend := by
  simp [triedLast]

theorem translatedLast_append (s : Session σ) (executions : List ExecutionSettings)
    (e : ExecutionSettings) : s.translatedLast (executions ++ [e]) =
      if (s.translated e.backend).isOk then e.backend else s.translatedLast executions := by
  rw [translatedLast, List.filter_append, List.filter_singleton]
  cases (s.translated e.backend).isOk with
  | true => simp
  | false => simp [translatedLast]

/-- It is selected for an execution that can be translated, or because there is none. -/
theorem translatedLast_spec (s : Session σ) (executions : List ExecutionSettings) :
    (∃ e ∈ executions, s.translatedLast executions = e.backend ∧
      (s.translated e.backend).isOk = true) ∨
    s.translatedLast executions = s.backend ∧
      ∀ e ∈ executions, (s.translated e.backend).isOk = false := by
  induction executions using List.reverseRecOn with
  | nil => exact .inr ⟨rfl, by simp⟩
  | append_singleton executions e ih =>
    rw [translatedLast_append]
    split
    · next h => exact .inl ⟨e, List.mem_append_right _ (List.mem_singleton_self e), rfl, h⟩
    · next h =>
      obtain ⟨e', he', hselected, hsome⟩ | ⟨hselected, hnone⟩ := ih
      · exact .inl ⟨e', List.mem_append_left _ he', hselected, hsome⟩
      · exact .inr ⟨hselected, List.forall_mem_append.mpr
          ⟨hnone, List.forall_mem_singleton.mpr (Bool.eq_false_of_not_eq_true h)⟩⟩

/-- **What was tried last is what was translated last** if it could be translated; if it could not,
    only where nothing could and it was selected before. -/
theorem triedLast_eq_translatedLast_iff (s : Session σ) (executions : List ExecutionSettings) :
    s.triedLast executions = s.translatedLast executions ↔
      ∀ last ∈ executions.getLast?, (s.translated last.backend).isOk = true ∨
        s.backend = last.backend ∧ ∀ e ∈ executions, (s.translated e.backend).isOk = false := by
  cases executions using List.reverseRecOn with
  | nil => exact ⟨fun _ => by simp, fun _ => rfl⟩
  | append_singleton executions e =>
    have hspec := s.translatedLast_spec (executions ++ [e])
    simp only [List.getLast?_concat, Option.mem_some_iff, forall_eq', triedLast_append]
    constructor
    · intro h
      rw [← h] at hspec
      obtain ⟨e', -, hselected, hsome⟩ | ⟨hselected, hnone⟩ := hspec
      · exact .inl (hselected ▸ hsome)
      · exact .inr ⟨hselected.symm, hnone⟩
    · rintro (h | ⟨hselected, hnone⟩)
      · rw [translatedLast_append, if_pos h]
      · obtain ⟨e', he', -, hsome⟩ | ⟨hbefore, -⟩ := hspec
        · rw [hnone e' he'] at hsome
          cases hsome
        · exact (hbefore.trans hselected).symm

/-! ## 2. Comparisons -/

/-- **After a comparison the backend tried last is selected.**  It is the one translated last, as
    it should be, exactly if the last execution can be translated, or if none can and its
    backend was selected before.  A drawing that follows is of the same circuit for the backend
    tried last, and fails as its translation did. -/
theorem compare_selected (h : History log s) (executions : List ExecutionSettings) (now : Instant)
    (world : σ) :
    let after := (s.compare executions now world).2.1
    after.backend = s.triedLast executions ∧
    (after.backend = s.translatedLast executions ↔
      ∀ last ∈ executions.getLast?, (s.translated last.backend).isOk = true ∨
        s.backend = last.backend ∧ ∀ e ∈ executions, (s.translated e.backend).isOk = false) ∧
    after.draw.1 = (s.translated (s.triedLast executions)).bind (·.text.mapError .machine) := by
  intro after
  have hafter : after = (s.convertAll (executions.map (·.backend))).2 :=
    SessionCall.compare_session s executions now world
  have hselected : after.backend = s.triedLast executions := by
    rw [hafter, backend_convertAll, List.getLast?_map, triedLast]
  refine ⟨hselected, ?_, ?_⟩
  · rw [hselected, triedLast_eq_translatedLast_iff]
  · have hremembers : after.Remembers := (h.call (.compare executions now world)).sound.remembers
    have hdraw : after.draw.1 = (after.convert after.backend).1.bind (·.text.mapError .machine) :=
      rfl
    have hsame : s.SameWorkshop after := by
      rw [hafter, ← SessionCall.prepareAll_session]
      exact (prepareAll_eq h.sound.remembers executions).2
    rw [hdraw, convert_eq_translated hremembers, hselected, translated, translated,
      hsame.registry, hsame.circuit]

/-- A flip under two controls that asks for ancillas, which only an assembly program can give. -/
def chained : Session Unit :=
  ofCircuit (.full .offline none) ⟨7, 24⟩
    ⟨3, [⟨.mcxvchain, [[0, 1], [2]], [.count 2, .flag false]⟩, ⟨.measureAll, [], []⟩]⟩

theorem history_chained : History [] chained := .start _ _ _

theorem translated_chained :
    (chained.translated .qiskit).isOk = true ∧ (chained.translated .cirq).isOk = false :=
  ⟨rfl, rfl⟩

theorem compare_selected_chained :
    let after := (chained.compare [.new .cirq, .new .qiskit] 0 ()).2.1
    History [] chained ∧ after.backend = .qiskit ∧
      after.backend = chained.translatedLast [.new .cirq, .new .qiskit] := by
  obtain ⟨htried, htranslated, -⟩ :=
    compare_selected history_chained [.new .cirq, .new .qiskit] 0 ()
  refine ⟨history_chained, htried, htranslated.mpr fun last hlast => ?_⟩
  cases hlast
  exact .inl translated_chained.1

/-- With the executions the other way round, a backend is left selected that nothing was
    translated for. -/
theorem chained_selects_untranslated :
    (chained.compare [.new .qiskit, .new .cirq] 0 ()).2.1.backend = .cirq ∧
      chained.translatedLast [.new .qiskit, .new .cirq] = .qiskit := by
  constructor
  · rw [SessionCall.compare_session, backend_convertAll]
    rfl
  · obtain ⟨hqiskit, hcirq⟩ := translated_chained
    have hnew : ∀ b, (ExecutionSettings.new b).backend = b := fun _ => rfl
    simp [translatedLast, hnew, hqiskit, hcirq]

end CircuitBroker.Session
