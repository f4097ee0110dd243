/-
  CircuitBroker/Proofs/Session/Comparison.lean
  ============================================
  **A comparison holds what every execution would give alone.**

  What is remembered of translations has no say in how executions are prepared
  (`prepareAll_eq`), executions that run at the same time come out as each would alone
  (`Dispatcher.settle_apart`), and none loses its entry to another (`Comparison.freshKeys`).
  So each execution has an entry of its own with the outcome it would have on a new session of
  the same circuit (`compare_isolated`), in whatever company.
-/
import CircuitBroker.Proofs.Execution.Isolation
import CircuitBroker.Proofs.Session.Keys
import CircuitBroker.Proofs.Session.Translations

namespace CircuitBroker

variable {σ τ : Type}

namespace Session

open Dispatcher Comparison

/-! ## 1. Preparing -/

/-- What an execution needs, if it can be had. -/
def prepared (s : Session σ) (e : ExecutionSettings) : Except ExecutionFailure (Launch σ) := do
  let native ← s.translated e.backend
  return (← s.registry.get e.backend, native, e.request)

/-- The outcome of an execution on a new session of the same circuit. -/
def alone (s : Session σ) (e : ExecutionSettings) (now : Instant) (world : σ) :
    Except ExecutionFailure ExecutionResult :=
  ((ofCircuit s.registry s.dispatcher.simulator s.circuit).execute e.request now world).1

/-- Sessions that prepare executions in the same way. -/
structure SameWorkshop (s s' : Session σ) : Prop where
  circuit : s'.circuit = s.circuit
  registry : s'.registry = s.registry
  dispatcher : s'.dispatcher = s.dispatcher

theorem sameWorkshop_convert {s : Session σ} (hs : s.Remembers) (b : Backend) :
    s.SameWorkshop (s.convert b).2 := by
  obtain ⟨-, _, -, hconvert⟩ | ⟨-, _, -, hconvert⟩ | ⟨-, _, -, hconvert⟩ := convert_cases hs b <;>
    rw [hconvert] <;> exact ⟨rfl, rfl, rfl⟩

theorem SameWorkshop.prepared_eq {s s' : Session σ} (h : s.SameWorkshop s')
    (e : ExecutionSettings) : s'.prepared e = s.prepared e := by
  unfold prepared translated
  rw [h.circuit, h.registry]

theorem prepare_eq {s : Session σ} (hs : s.Remembers) (e : ExecutionSettings) :
    (s.prepare e.request).1 = s.prepared e := by
  have hregistry := (sameWorkshop_convert hs e.backend).registry
  have hconvert := convert_eq_translated hs e.backend
  unfold prepare prepared
  rw [← hconvert]
  change (do
    let native ← (s.convert e.backend).1
    return (← (s.convert e.backend).2.registry.get e.backend, native, e.request)) = _
  rw [hregistry]

/-- **Executions are prepared as if nothing were remembered.** -/
theorem prepareAll_eq {s : Session σ} (hs : s.Remembers) (executions : List ExecutionSettings) :
    (s.prepareAll executions).1 = executions.map (fun e => (e.key, s.prepared e)) ∧
      s.SameWorkshop (s.prepareAll executions).2 := by
  induction executions generalizing s with
  | nil => exact ⟨rfl, rfl, rfl, rfl⟩
  | cons e es ih =>
    have hsame := sameWorkshop_convert hs e.backend
    obtain ⟨hrest, hlast⟩ := ih (remembers_convert hs e.backend)
    refine ⟨?_, hlast.circuit.trans hsame.circuit, hlast.registry.trans hsame.registry,
      hlast.dispatcher.trans hsame.dispatcher⟩
    change (e.key, (s.prepare e.request).1) :: ((s.convert e.backend).2.prepareAll es).1 = _
    rw [hrest, prepare_eq hs, List.map_cons]
    exact congrArg _ (List.map_congr_left fun e' _ => by rw [hsame.prepared_eq])

theorem alone_eq (s : Session σ) (e : ExecutionSettings) (now : Instant) (world : σ) :
    s.alone e now world = match s.prepared e with
      | .error x => .error x
      | .ok l => (s.dispatcher.execute l.1 l.2.1 l.2.2 now world).1 := by
  have hnew : (ofCircuit s.registry s.dispatcher.simulator s.circuit).Remembers := nofun
  have hsame : (ofCircuit s.registry s.dispatcher.simulator s.circuit).prepared e = s.prepared e :=
    rfl
  have hprepare := prepare_eq hnew e
  rw [hsame] at hprepare
  have hdispatcher := (sameWorkshop_convert hnew e.backend).dispatcher
  unfold alone execute
  rcases h : (ofCircuit s.registry s.dispatcher.simulator s.circuit).prepare e.request
    with ⟨x | ⟨adapter, native, request⟩, s'⟩
  · rw [h] at hprepare
    rw [← hprepare]
  · rw [h] at hprepare
    rw [← hprepare]
    have hlast : s'.dispatcher = s.dispatcher := by
      have hs' : s' = ((ofCircuit s.registry s.dispatcher.simulator s.circuit).convert e.backend).2 :=
        (congrArg Prod.snd h).symm
      rw [hs', hdispatcher]
      rfl
    dsimp only
    rw [hlast]

/-! ## 2. Who is asked for what -/

def accepts (s : Session σ) (x : ExecutionSettings × Nat) : Bool := (s.prepared x.1).isOk

/-- The executions with their places, in the order in which their outcomes are inserted: first
    those that cannot be prepared, then the others. -/
def inserted (s : Session σ) (executions : List ExecutionSettings) :
    List (ExecutionSettings × Nat) :=
  executions.zipIdx.filter (!s.accepts ·) ++ executions.zipIdx.filter s.accepts

def TaskCalls (s : Session σ) (e : ExecutionSettings) (P : CallProperty σ) : Prop :=
  ∀ l, s.prepared e = .ok l → LaunchCalls l P

/-- The calls about the task of each execution are answered from a part of the world of its
    own, which the calls about the other tasks leave alone. -/
structure Isolated (s : Session σ) (executions : List ExecutionSettings)
    (view : Nat → σ → τ) : Prop where
  own : ∀ i e, executions[i]? = some e → s.TaskCalls e (confined (view i))
  others : ∀ i j e, i ≠ j → executions[i]? = some e → s.TaskCalls e (sparing (view j))

theorem map_filterMap_eq_map_filter {α β γ : Type} {f : α → Option β} {p : α → Bool} {g : β → γ}
    {h : α → γ} {xs : List α} (hsome : ∀ x ∈ xs, p x = true → ∃ y, f x = some y ∧ g y = h x)
    (hnone : ∀ x ∈ xs, p x = false → f x = none) :
    (xs.filterMap f).map g = (xs.filter p).map h := by
  induction xs with
  | nil => rfl
  | cons x xs ih =>
    obtain ⟨hsomeHead, hsomeTail⟩ := List.forall_mem_cons.mp hsome
    obtain ⟨hnoneHead, hnoneTail⟩ := List.forall_mem_cons.mp hnone
    cases hp : p x with
    | false => rw [List.filterMap_cons_none (hnoneHead hp), List.filter_cons_of_neg (by simp [hp]),
        ih hsomeTail hnoneTail]
    | true =>
      obtain ⟨y, hy, hgh⟩ := hsomeHead hp
      rw [List.filterMap_cons_some hy, List.filter_cons_of_pos hp, List.map_cons, List.map_cons,
        hgh, ih hsomeTail hnoneTail]

/-- What is launched for the executions that can be prepared, each with its part of the
    world. -/
def launches (s : Session σ) (executions : List ExecutionSettings) (view : Nat → σ → τ) :
    List (Launch σ × (σ → τ)) :=
  executions.zipIdx.filterMap fun x => (s.prepared x.1).toOption.map (·, view x.2)

theorem prepared_of_launch {s : Session σ} {view : Nat → σ → τ} {x : ExecutionSettings × Nat}
    {y : Launch σ × (σ → τ)} (h : (s.prepared x.1).toOption.map (·, view x.2) = some y) :
    s.prepared x.1 = .ok y.1 ∧ y.2 = view x.2 := by
  cases hprepared : s.prepared x.1 with
  | error e => simp [hprepared, Except.toOption] at h
  | ok l =>
    simp only [hprepared, Except.toOption, Option.map_some, Option.some.injEq] at h
    subst h
    exact ⟨rfl, rfl⟩

theorem apart_launches {s : Session σ} {executions : List ExecutionSettings} {view : Nat → σ → τ}
    (h : s.Isolated executions view) : Apart LaunchCalls (s.launches executions view) := by
  constructor
  · intro y hy
    obtain ⟨x, hx, hxy⟩ := List.mem_filterMap.mp hy
    obtain ⟨hprepared, hview⟩ := prepared_of_launch hxy
    rw [hview]
    exact h.own x.2 x.1 (List.mem_zipIdx_iff_getElem?.mp hx) _ hprepared
  · have hplaces : executions.zipIdx.Pairwise fun x x' => x.2 ≠ x'.2 := by
      rw [← List.pairwise_map (R := (· ≠ ·))]
      exact List.nodup_zipIdx_map_snd executions
    refine List.Pairwise.filterMap _ ?_ (List.Pairwise.and_mem.mp hplaces)
    rintro x x' ⟨hx, hx', hne⟩ y hy y' hy'
    obtain ⟨hprepared, hview⟩ := prepared_of_launch hy
    obtain ⟨hprepared', hview'⟩ := prepared_of_launch hy'
    rw [hview, hview']
    exact ⟨h.others x.2 x'.2 x.1 hne (List.mem_zipIdx_iff_getElem?.mp hx) _ hprepared,
      h.others x'.2 x.2 x'.1 (Ne.symm hne) (List.mem_zipIdx_iff_getElem?.mp hx') _ hprepared'⟩

theorem prepared_of_accepts {s : Session σ} {x : ExecutionSettings × Nat}
    (h : s.accepts x = true) : ∃ l, s.prepared x.1 = .ok l := by
  unfold accepts at h
  cases hprepared : s.prepared x.1 with
  | error e =>
    rw [hprepared] at h
    cases h
  | ok l => exact ⟨l, rfl⟩

theorem prepared_of_not_accepts {s : Session σ} {x : ExecutionSettings × Nat}
    (h : s.accepts x = false) : ∃ e, s.prepared x.1 = .error e := by
  unfold accepts at h
  cases hprepared : s.prepared x.1 with
  | error e => exact ⟨e, rfl⟩
  | ok l =>
    rw [hprepared] at h
    cases h

/-! ## 3. All outcomes -/

variable {s : Session σ} {executions : List ExecutionSettings} {view : Nat → σ → τ}
  {now : Instant} {world : σ}

theorem alone_of_error {e : ExecutionSettings} {x : ExecutionFailure}
    (h : s.prepared e = .error x) : s.alone e now world = .error x := by
  rw [alone_eq, h]

theorem alone_of_ok {e : ExecutionSettings} {l : Launch σ} (h : s.prepared e = .ok l) :
    s.alone e now world = (s.dispatcher.execute l.1 l.2.1 l.2.2 now world).1 := by
  rw [alone_eq, h]

theorem refusals_prepared (now : Instant) (world : σ) (xs : List (ExecutionSettings × Nat)) :
    (refusals (xs.map fun x => (x.1.key, s.prepared x.1))).map
        (fun y => (y.1, (.error y.2 : Except ExecutionFailure ExecutionResult))) =
      (xs.filter (!s.accepts ·)).map fun x => (x.1.key, s.alone x.1 now world) := by
  rw [refusals, List.filterMap_map]
  apply map_filterMap_eq_map_filter
  · intro x _ hx
    obtain ⟨e, he⟩ := prepared_of_not_accepts (by simpa using hx)
    exact ⟨(x.1.key, e), by simp [he], by simp [alone_of_error he]⟩
  · intro x _ hx
    obtain ⟨l, hl⟩ := prepared_of_accepts (by simpa using hx)
    simp [hl]

theorem preparations_keys (xs : List (ExecutionSettings × Nat)) :
    (preparations (xs.map fun x => (x.1.key, s.prepared x.1))).map (·.1) =
      (xs.filter s.accepts).map (·.1.key) := by
  rw [preparations, List.filterMap_map]
  apply map_filterMap_eq_map_filter
  · intro x _ hx
    obtain ⟨l, hl⟩ := prepared_of_accepts hx
    exact ⟨(x.1.key, l), by simp [hl, Except.toOption], rfl⟩
  · intro x _ hx
    obtain ⟨e, he⟩ := prepared_of_not_accepts hx
    simp [he, Except.toOption]

theorem preparations_launches (view : Nat → σ → τ) (xs : List (ExecutionSettings × Nat)) :
    (preparations (xs.map fun x => (x.1.key, s.prepared x.1))).map (·.2) =
      (xs.filterMap fun x => (s.prepared x.1).toOption.map (·, view x.2)).map (·.1) := by
  rw [preparations, List.filterMap_map, List.map_filterMap, List.map_filterMap]
  simp [Function.comp_def]

theorem execute_launches (view : Nat → σ → τ) (xs : List (ExecutionSettings × Nat)) :
    (xs.filterMap fun x => (s.prepared x.1).toOption.map (·, view x.2)).map
        (fun y => timelessOutcome (s.dispatcher.execute y.1.1 y.1.2.1 y.1.2.2 now world).1) =
      (xs.filter s.accepts).map fun x => timelessOutcome (s.alone x.1 now world) := by
  apply map_filterMap_eq_map_filter
  · intro x _ hx
    obtain ⟨l, hl⟩ := prepared_of_accepts hx
    exact ⟨(l, view x.2), by simp [hl, Except.toOption], by rw [alone_of_ok hl]⟩
  · intro x _ hx
    obtain ⟨e, he⟩ := prepared_of_not_accepts hx
    simp [he, Except.toOption]

theorem mem_of_mem_zipIdx {x : ExecutionSettings × Nat} (hx : x ∈ executions.zipIdx) :
    x.1 ∈ executions :=
  List.mem_of_getElem? (List.mem_zipIdx_iff_getElem?.mp hx)

theorem prepareAll_zipIdx (hs : s.Remembers) (executions : List ExecutionSettings) :
    (s.prepareAll executions).1 = executions.zipIdx.map fun x => (x.1.key, s.prepared x.1) := by
  rw [(prepareAll_eq hs executions).1]
  conv_lhs => rw [← List.zipIdx_map_fst 0 executions, List.map_map]
  rfl

/-- No execution is refused because the machine is at fault, if none would be alone. -/
theorem findSome?_refusals
    (hfault : ∀ e ∈ executions, ∀ fault, s.alone e now world ≠ .error (.machine fault)) :
    (refusals (executions.zipIdx.map fun x => (x.1.key, s.prepared x.1))).findSome?
      (·.2.machineFault?) = none := by
  rw [List.findSome?_eq_none_iff]
  intro y hy
  -- a refusal is what the execution would come to alone
  have hrefused := List.mem_map_of_mem
    (f := fun y => (y.1, (.error y.2 : Except ExecutionFailure ExecutionResult))) hy
  rw [refusals_prepared now world] at hrefused
  obtain ⟨x, hx, hxy⟩ := List.mem_map.mp hrefused
  have halone := hfault x.1 (mem_of_mem_zipIdx (List.mem_of_mem_filter hx))
  rw [(Prod.mk.inj hxy).2] at halone
  cases hy : y.2 with
  | machine fault => exact absurd (by rw [hy]) (halone fault)
  | _ => rfl

/-- A comparison of executions, in none of which the machine is at fault alone, has their
    outcomes under fresh keys, each as it would be alone. -/
theorem compare_eq (hs : s.Remembers) (hisolated : s.Isolated executions view)
    (hfault : ∀ e ∈ executions, ∀ fault, s.alone e now world ≠ .error (.machine fault)) :
    ∃ outcomes, (s.compare executions now world).1 =
        .ok ⟨(freshKeys [] ((s.inserted executions).map (·.1.key))).zip outcomes⟩ ∧
      outcomes.map timelessOutcome =
        (s.inserted executions).map fun x => timelessOutcome (s.alone x.1 now world) := by
  have hlaunch : ∀ y ∈ s.launches executions view, ∀ fault,
      (s.dispatcher.execute y.1.1 y.1.2.1 y.1.2.2 now world).1 ≠ .error (.machine fault) := by
    intro y hy fault
    obtain ⟨x, hx, hxy⟩ := List.mem_filterMap.mp hy
    rw [← alone_of_ok (prepared_of_launch hxy).1]
    exact hfault x.1 (mem_of_mem_zipIdx hx) fault
  obtain ⟨running, world', hbegin, hapart, -, -, hfinish⟩ :=
    beginAll_apart s.dispatcher now world (apart_launches hisolated) hlaunch
  have hrunning : ∀ x ∈ running, ∀ fault, finish x.1 world' ≠ .error (.machine fault) := by
    intro x hx fault hout
    have hmem := List.mem_map_of_mem (f := fun x => finish x.1 world') hx
    rw [hfinish] at hmem
    obtain ⟨y, hy, hyx⟩ := List.mem_map.mp hmem
    exact hlaunch y hy fault (timelessOutcome_eq_error.mp (hyx.trans hout))
  obtain ⟨outcomes, later, world₂, hsettled, houtcomes⟩ := settle_apart hapart now world' hrunning
  have hsettle := houtcomes.trans (hfinish.trans (execute_launches view executions.zipIdx))
  have hlength : (executions.zipIdx.filter s.accepts).length = outcomes.length := by
    simpa using (congrArg List.length hsettle).symm
  rw [launches, ← preparations_launches view] at hbegin
  unfold compare
  dsimp only
  rw [prepareAll_zipIdx hs, findSome?_refusals hfault, (prepareAll_eq hs executions).2.dispatcher,
    hbegin]
  dsimp only
  rw [hsettled]
  -- refusals are inserted before anything is begun, so they stand first
  refine ⟨(executions.zipIdx.filter (!s.accepts ·)).map (fun x => s.alone x.1 now world) ++
    outcomes, ?_, ?_⟩
  · dsimp only
    rw [insertAll_append, preparations_keys, refusals_prepared now world executions.zipIdx]
    have hentries := entries_insertAll
      ((executions.zipIdx.filter (!s.accepts ·)).map (fun x => (x.1.key, s.alone x.1 now world)) ++
        ((executions.zipIdx.filter s.accepts).map (·.1.key)).zip outcomes) empty
    rw [List.map_append, List.map_append, List.map_fst_zip (by simp [hlength]),
      List.map_snd_zip (by simp [hlength]), List.map_map, List.map_map] at hentries
    rw [inserted, List.map_append]
    exact congrArg (fun entries => Except.ok (⟨entries⟩ : Comparison)) hentries
  · rw [List.map_append, hsettle, inserted, List.map_append, List.map_map]
    rfl

/-! ## 4. Who gets which key -/

theorem nodup_zipIdx (executions : List ExecutionSettings) : executions.zipIdx.Nodup :=
  (List.nodup_zipIdx_map_snd executions).of_map _

theorem inserted_perm (s : Session σ) (executions : List ExecutionSettings) :
    (s.inserted executions).Perm executions.zipIdx :=
  List.perm_append_comm.trans (List.filter_append_perm s.accepts executions.zipIdx)

/-- The key under which the outcome of an execution is inserted. -/
def nameOf (s : Session σ) (executions : List ExecutionSettings) (x : ExecutionSettings × Nat) :
    String :=
  ((freshKeys [] ((s.inserted executions).map (·.1.key)))[(s.inserted executions).idxOf x]?).getD ""

theorem getElem?_nameOf {x : ExecutionSettings × Nat} (hx : x ∈ s.inserted executions) :
    (freshKeys [] ((s.inserted executions).map (·.1.key)))[(s.inserted executions).idxOf x]? =
      some (s.nameOf executions x) := by
  have hlt : (s.inserted executions).idxOf x <
      (freshKeys [] ((s.inserted executions).map (·.1.key))).length := by
    rw [length_freshKeys, List.length_map]
    exact List.idxOf_lt_length_of_mem hx
  rw [nameOf, List.getElem?_eq_getElem hlt]
  rfl

theorem nodup_names (s : Session σ) (executions : List ExecutionSettings) :
    (executions.zipIdx.map (s.nameOf executions)).Nodup := by
  -- `inserted` only reorders the executions, and in its order the names are the fresh keys
  have hperm := inserted_perm s executions
  have hnodup : (s.inserted executions).Nodup := hperm.nodup_iff.mpr (nodup_zipIdx executions)
  have hnames : (s.inserted executions).map (s.nameOf executions) =
      freshKeys [] ((s.inserted executions).map (·.1.key)) := by
    apply List.ext_getElem?
    intro j
    rw [List.getElem?_map]
    cases hj : (s.inserted executions)[j]? with
    | none =>
      rw [List.getElem?_eq_none_iff] at hj
      rw [Option.map_none, eq_comm, List.getElem?_eq_none_iff, length_freshKeys, List.length_map]
      exact hj
    | some x =>
      obtain ⟨hlt, hget⟩ := List.getElem?_eq_some_iff.mp hj
      have hidx : (s.inserted executions).idxOf x = j := by
        rw [← hget]
        exact hnodup.idxOf_getElem j hlt
      rw [Option.map_some, ← getElem?_nameOf (List.mem_of_getElem? hj), hidx]
  rw [← (hperm.map (s.nameOf executions)).nodup_iff, hnames]
  exact nodup_freshKeys _ List.nodup_nil

/-! ### Numbers -/

theorem countP_take_idxOf {α : Type} [BEq α] [LawfulBEq α] {p : α → Bool} {x : α} (hp : p x = true)
    {xs : List α} (hx : x ∈ xs) : (xs.take (xs.idxOf x)).countP p = (xs.filter p).idxOf x := by
  induction xs with
  | nil => cases hx
  | cons y ys ih =>
    rcases Classical.em (y = x) with rfl | hy
    · simp [List.filter_cons_of_pos hp]
    · have hrest := ih ((List.mem_cons.mp hx).resolve_left (Ne.symm hy))
      rw [List.idxOf_cons_ne _ hy, List.take_succ_cons, List.countP_cons, hrest]
      cases hpy : p y with
      | true => rw [List.filter_cons_of_pos hpy, List.idxOf_cons_ne _ hy, if_pos rfl]
      | false => rw [List.filter_cons_of_neg (by simp [hpy]), if_neg (by simp), Nat.add_zero]

theorem accepts_of_key {x y : ExecutionSettings × Nat} (h : x.1.key = y.1.key) :
    s.accepts x = s.accepts y := by
  have hbackend := ExecutionSettings.backend_of_key h
  unfold accepts prepared
  rw [hbackend]
  cases s.translated y.1.backend with
  | error e => rfl
  | ok native =>
    cases s.registry.get y.1.backend with
    | error e => rfl
    | ok adapter => rfl

/-- A second condition on which all that meet the first agree selects all of these or none. -/
theorem filter_and_of_agree {α : Type} {p q : α → Bool} {b : Bool}
    (h : ∀ x, p x = true → q x = b) (xs : List α) :
    xs.filter (fun x => p x && q x) = if b then xs.filter p else [] := by
  cases b with
  | true =>
    refine List.filter_congr fun x _ => ?_
    cases hp : p x with
    | false => rfl
    | true => rw [h x hp]; rfl
  | false =>
    refine List.filter_eq_nil_iff.mpr fun x _ hx => ?_
    obtain ⟨hp, hq⟩ := Bool.and_eq_true_iff.mp hx
    rw [h x hp] at hq
    cases hq

/-- The executions of one key are inserted in the order in which they were asked for. -/
theorem filter_inserted (y : ExecutionSettings × Nat) :
    (s.inserted executions).filter (·.1.key == y.1.key) =
      executions.zipIdx.filter (·.1.key == y.1.key) := by
  -- one key, one backend: either all of them can be prepared or none
  have hsame : ∀ x : ExecutionSettings × Nat, (x.1.key == y.1.key) = true →
      s.accepts x = s.accepts y := fun x hx => accepts_of_key (beq_iff_eq.mp hx)
  have hrefused : ∀ x : ExecutionSettings × Nat, (x.1.key == y.1.key) = true →
      (!s.accepts x) = !s.accepts y := fun x hx => congrArg _ (hsame x hx)
  rw [inserted, List.filter_append, List.filter_filter, List.filter_filter,
    filter_and_of_agree hrefused, filter_and_of_agree hsame]
  cases s.accepts y with
  | true => rfl
  | false => exact List.append_nil _

theorem nameOf_of_plain {i : Nat} {e : ExecutionSettings} (h : executions[i]? = some e)
    (hplain : ∀ e ∈ executions, Plain e.key) :
    s.nameOf executions (e, i) =
      candidate e.key ((executions.take i).countP (·.key == e.key)) := by
  have hmem : (e, i) ∈ executions.zipIdx := List.mem_zipIdx_iff_getElem?.mpr h
  have hinserted : (e, i) ∈ s.inserted executions := (inserted_perm s executions).mem_iff.mpr hmem
  have hkeys : ∀ key ∈ (s.inserted executions).map (·.1.key), Plain key := by
    intro key hkey
    obtain ⟨x, hx, rfl⟩ := List.mem_map.mp hkey
    exact hplain x.1 (mem_of_mem_zipIdx ((inserted_perm s executions).mem_iff.mp hx))
  have hnumbered : Numbered [] [] := ⟨rfl, by simp⟩
  have hname := getElem?_freshKeys hnumbered hkeys ((s.inserted executions).idxOf (e, i))
  rw [getElem?_nameOf hinserted, List.getElem?_map,
    List.getElem?_eq_getElem (List.idxOf_lt_length_of_mem hinserted), List.getElem_idxOf,
    Option.map_some, Option.map_some, Option.some.injEq, List.nil_append, ← List.map_take,
    List.count_eq_countP, List.countP_map] at hname
  have hplace : executions.zipIdx.idxOf (e, i) = i := by
    have hzip : executions.zipIdx[i]? = some (e, i) := by simp [h]
    obtain ⟨hlt, hget⟩ := List.getElem?_eq_some_iff.mp hzip
    rw [← hget]
    exact (nodup_zipIdx executions).idxOf_getElem i hlt
  -- the executions of this key come in the same order in both lists, so as many come before
  have hcount : ((s.inserted executions).take ((s.inserted executions).idxOf (e, i))).countP
      (·.1.key == e.key) = (executions.take i).countP (·.key == e.key) := by
    have hkey : ((e, i).1.key == e.key) = true := beq_self_eq_true e.key
    rw [countP_take_idxOf (p := fun x => x.1.key == e.key) hkey hinserted, filter_inserted (e, i),
      ← countP_take_idxOf (p := fun x => x.1.key == e.key) hkey hmem, hplace]
    conv_rhs => rw [← List.zipIdx_map_fst 0 executions, ← List.map_take, List.countP_map]
    rfl
  rw [hname]
  exact congrArg (candidate e.key) hcount

/-- Begun at another time, an execution has the same outcome if its part of the world is the
    same. -/
theorem alone_shift {e : ExecutionSettings} {v : σ → τ} (hown : s.TaskCalls e (confined v))
    {later : Instant} {world' : σ} (hview : v world = v world')
    (hfault : ∀ fault, s.alone e now world ≠ .error (.machine fault))
    (hfault' : ∀ fault, s.alone e later world' ≠ .error (.machine fault)) :
    timelessOutcome (s.alone e now world) = timelessOutcome (s.alone e later world') := by
  cases hprepared : s.prepared e with
  | error x => rw [alone_of_error hprepared, alone_of_error hprepared]
  | ok l =>
    rw [alone_of_ok hprepared] at hfault hfault'
    rw [alone_of_ok hprepared, alone_of_ok hprepared]
    exact execute_shift (hown l hprepared) hview hfault hfault'

/-- Where an entry of one list stands, its image stands in a list of images. -/
theorem exists_at_idxOf {α β γ : Type} [BEq α] [LawfulBEq α] {xs : List α} {ys : List β} {f : β → γ}
    {g : α → γ} (h : ys.map f = xs.map g) {x : α} (hx : x ∈ xs) :
    ∃ y, ys[xs.idxOf x]? = some y ∧ f y = g x := by
  have hplace : xs[xs.idxOf x]? = some x := by
    rw [List.getElem?_eq_getElem (List.idxOf_lt_length_of_mem hx), List.getElem_idxOf]
  have hat := congrArg (·[xs.idxOf x]?) h
  simpa only [List.getElem?_map, hplace, Option.map_some, Option.map_eq_some_iff] using hat

/-- Every execution of a comparison has an entry of its own, with the outcome it would have alone
    on a new session, whenever that is begun; this is so unless the machine is at fault in one of
    them.  Keys without a number sign are numbered in the order of the executions. -/
theorem compare_isolated {log : List Conversion} (hs : History log s)
    (hisolated : s.Isolated executions view)
    (hfault : ∀ e ∈ executions, ∀ fault, s.alone e now world ≠ .error (.machine fault)) :
    ∃ (c : Comparison) (names : List String), (s.compare executions now world).1 = .ok c ∧
      c.size = executions.length ∧ names.length = executions.length ∧ names.Nodup ∧
      (∀ i e name, executions[i]? = some e → names[i]? = some name → ∃ outcome,
        c.get? name = some outcome ∧ ∀ later world', view i world' = view i world →
          (∀ fault, s.alone e later world' ≠ .error (.machine fault)) →
          timelessOutcome outcome = timelessOutcome (s.alone e later world')) ∧
      ((∀ e ∈ executions, ∀ device, e.device = some device → '#' ∉ device.toList) →
        ∀ i e, executions[i]? = some e →
          names[i]? = some (candidate e.key ((executions.take i).countP (·.key == e.key)))) := by
  obtain ⟨outcomes, hcompare, houtcomes⟩ := compare_eq hs.sound.remembers hisolated hfault
  have hperm := inserted_perm s executions
  have hsize : outcomes.length = executions.length := by
    have hlength := congrArg List.length houtcomes
    rw [List.length_map, List.length_map, hperm.length_eq, List.length_zipIdx] at hlength
    exact hlength
  refine ⟨_, executions.zipIdx.map (s.nameOf executions), hcompare, ?_, by simp,
    nodup_names s executions, ?_, ?_⟩
  · simp [size, length_freshKeys, hperm.length_eq, hsize]
  · intro i e name he hname
    have hmem : (e, i) ∈ s.inserted executions :=
      hperm.mem_iff.mpr (List.mem_zipIdx_iff_getElem?.mpr he)
    obtain rfl : s.nameOf executions (e, i) = name := by simpa [he] using hname
    obtain ⟨outcome, houtcome, htimeless⟩ := exists_at_idxOf houtcomes hmem
    refine ⟨outcome, get?_of_getElem? (nodup_freshKeys _ List.nodup_nil) (getElem?_nameOf hmem)
      houtcome, fun later world' hview hfault' => htimeless.trans ?_⟩
    exact alone_shift (hisolated.own i e he) hview.symm (hfault e (List.mem_of_getElem? he)) hfault'
  · intro hdevices i e he
    have hplain : ∀ e ∈ executions, Plain e.key := fun e he =>
      ExecutionSettings.plain_key (hdevices e he)
    rw [← nameOf_of_plain (s := s) he hplain]
    simp [he]

/-! ### A service with many tasks -/

/-- Statuses that are still to come, for each task; a task with none left is completed. -/
abbrev Ledger := String → List JobStatus

/-- A service that knows a task by its device and goes through its statuses. -/
def ledgerService : TaskService Ledger where
  create payload := fun tasks => (.ok payload.target, tasks)
  status id := fun tasks =>
    (.ok ((tasks id).headD .completed), fun task => if task = id then (tasks id).tail else tasks task)
  result _ payload := fun tasks => (.ok (ServiceScript.zeros payload), tasks)
  cancel _ := fun tasks => (.ok (), tasks)

theorem ledger_confined {payload : TaskPayload} {task : String} (h : payload.target = task) :
    ledgerService.TaskCalls payload (confined fun tasks : Ledger => tasks task) := by
  subst h
  constructor
  · exact fun _ _ h => ⟨rfl, h⟩
  · intro world id hid tasks tasks' h
    cases hid
    have hsame : tasks payload.target = tasks' payload.target := h
    simp [ledgerService, hsame]
  · exact fun _ _ _ _ _ h => ⟨rfl, h⟩
  · exact fun _ _ _ _ _ h => ⟨rfl, h⟩

theorem ledger_sparing {payload : TaskPayload} {task : String} (h : task ≠ payload.target) :
    ledgerService.TaskCalls payload (sparing fun tasks : Ledger => tasks task) := by
  constructor
  · exact fun _ => rfl
  · intro world id hid tasks
    cases hid
    exact if_neg h
  · exact fun _ _ _ _ => rfl
  · exact fun _ _ _ _ => rfl

def desk : Session Ledger :=
  ofCircuit ((Registry.empty.register (.localOnly .cirq)).register
    (IonBackend.adapter ⟨"", some ledgerService⟩ .offline)) ⟨7, 20⟩
    ⟨1, [⟨.x, [[0]], []⟩, ⟨.measure, [[0]], []⟩]⟩

def onDevice (device : String) : ExecutionSettings :=
  { ExecutionSettings.new .ionq with credential := some "key", device := some device }

def loweredFlip : LoweredCircuit (Amplitude Float) :=
  ⟨1, [.gate GateMatrix.Standard.x [0] [], .measure 0]⟩

theorem exists_run_loweredFlip (shots : Nat) :
    ∃ counts, Simulator.run ⟨7, 20⟩ loweredFlip shots = .ok counts := by
  have hmeasured : loweredFlip.measuredQubits = [0] := by
    have hsteps : loweredFlip.steps.filterMap LoweredStep.measured? = [0] := rfl
    rw [LoweredCircuit.measuredQubits, hsteps, ascending, List.mergeSort_singleton]
    rfl
  unfold Simulator.run Simulator.runFrom
  rw [hmeasured]
  cases shots with
  | zero => exact ⟨_, rfl⟩
  | succ shots => exact ⟨_, rfl⟩

theorem exists_begin_cirq : ∃ l result, desk.prepared (.new .cirq) = .ok l ∧
    ∀ now world, desk.dispatcher.begin l.1 l.2.1 l.2.2 now world = (.ended (.ok result), world) := by
  obtain ⟨counts, hcounts⟩ := exists_run_loweredFlip 1024
  obtain ⟨l, hl, hlower, hvalid, hroute, hrepetitions⟩ : ∃ l, desk.prepared (.new .cirq) = .ok l ∧
      l.2.1.lower = .ok loweredFlip ∧ l.2.2.validate (R := Float) = .ok () ∧
      l.1.route l.2.2 = .ok .local ∧ l.2.2.repetitions = 1024 := ⟨_, rfl, rfl, rfl, rfl, rfl⟩
  have hlocal : desk.dispatcher.runLocal l.1.backend l.2.1 l.2.2.repetitions =
      .ok ⟨counts, 1024, some l.1.backend, some 0, none⟩ := by
    have hrun : desk.dispatcher.simulator.run loweredFlip 1024 = .ok counts := hcounts
    simp only [runLocal, hlower, hrepetitions, bind, Except.bind, pure, Except.pure, hrun]
  refine ⟨l, ⟨counts, 1024, some l.1.backend, some 0, none⟩, hl, fun now world => ?_⟩
  rw [begin_of_local _ hvalid hroute, hlocal]

theorem exists_alone_cirq (now : Instant) (world : Ledger) :
    ∃ result, desk.alone (.new .cirq) now world = .ok result := by
  obtain ⟨l, result, hl, hbegin⟩ := exists_begin_cirq
  refine ⟨result, ?_⟩
  rw [alone_of_ok hl]
  unfold Dispatcher.execute
  rw [hbegin]

/-- Both tasks are running at first; then one is completed and the other fails. -/
def twoTasks : Ledger := fun task =>
  if task = "north" then [.running] else if task = "south" then [.running, .failed "down"] else []

def crowd : List ExecutionSettings :=
  [.new .cirq, onDevice "north", .new .qsharp, .new .cirq, onDevice "south"]

theorem alone_south :
    desk.alone (onDevice "south") 0 twoTasks = .error (.taskFailed "south" "down") := by
  obtain ⟨l, task, world, world', hl, hbegin, hresume⟩ : ∃ l task world world',
      desk.prepared (onDevice "south") = .ok l ∧
      desk.dispatcher.begin l.1 l.2.1 l.2.2 0 twoTasks =
        (.asleep task (Duration.ofSeconds 10), world) ∧
      resume task (Duration.ofSeconds 10) world =
        (.ended (.error (.taskFailed "south" "down")), world') := ⟨_, _, _, _, rfl, rfl, rfl⟩
  rw [alone_of_ok hl]
  unfold Dispatcher.execute
  rw [hbegin]
  exact congrArg Prod.fst (complete_of_ended hresume)

theorem exists_alone_north : ∃ result, desk.alone (onDevice "north") 0 twoTasks = .ok result := by
  obtain ⟨l, task, world, world', result, hl, hbegin, hresume⟩ : ∃ l task world world' result,
      desk.prepared (onDevice "north") = .ok l ∧
      desk.dispatcher.begin l.1 l.2.1 l.2.2 0 twoTasks =
        (.asleep task (Duration.ofSeconds 10), world) ∧
      resume task (Duration.ofSeconds 10) world = (.ended (.ok result), world') :=
    ⟨_, _, _, _, _, rfl, rfl, rfl⟩
  refine ⟨result, ?_⟩
  rw [alone_of_ok hl]
  unfold Dispatcher.execute
  rw [hbegin]
  exact congrArg Prod.fst (complete_of_ended hresume)

theorem taskCalls_cirq (P : CallProperty Ledger) : desk.TaskCalls (.new .cirq) P := by
  intro l hl service payload hsubmits
  cases hl
  obtain ⟨-, hconnected, -⟩ := hsubmits
  cases hconnected

theorem taskCalls_onDevice {device : String} {P : CallProperty Ledger}
    (h : ∀ payload, payload.target = device → ledgerService.TaskCalls payload P) :
    desk.TaskCalls (onDevice device) P := by
  intro l hl service payload hsubmits
  cases hl
  obtain ⟨-, hconnected, target, hroute, hwritten⟩ := hsubmits
  cases hconnected
  cases hroute
  refine h payload ?_
  cases hwritten
  rfl

theorem own_onDevice (device : String) :
    desk.TaskCalls (onDevice device) (confined fun tasks => tasks device) :=
  taskCalls_onDevice fun _ htarget => ledger_confined htarget

theorem others_onDevice (device : String) {task : String} (h : task ≠ device) :
    desk.TaskCalls (onDevice device) (sparing fun tasks => tasks task) :=
  taskCalls_onDevice fun _ htarget => ledger_sparing (htarget ▸ h)

def crowdTask (i : Nat) : String := if i = 1 then "north" else if i = 4 then "south" else ""

theorem isolated_crowd : desk.Isolated crowd fun i tasks => tasks (crowdTask i) := by
  have hmissing : ∀ P, desk.TaskCalls (.new .qsharp) P := fun P l hl => nomatch hl
  constructor
  · intro i e he
    rcases i with _ | _ | _ | _ | _ | i
    · cases he
      exact taskCalls_cirq _
    · cases he
      exact own_onDevice "north"
    · cases he
      exact hmissing _
    · cases he
      exact taskCalls_cirq _
    · cases he
      exact own_onDevice "south"
    · cases he
  · intro i j e hne he
    rcases i with _ | _ | _ | _ | _ | i
    · cases he
      exact taskCalls_cirq _
    · cases he
      refine others_onDevice "north" ?_
      unfold crowdTask
      split
      · omega
      · split <;> decide
    · cases he
      exact hmissing _
    · cases he
      exact taskCalls_cirq _
    · cases he
      refine others_onDevice "south" ?_
      unfold crowdTask
      split
      · decide
      · split
        · omega
        · decide
    · cases he

theorem compare_isolated_crowd :
    ∃ (c : Comparison) (names : List String), (desk.compare crowd 0 twoTasks).1 = .ok c ∧
      names = ["cirq", "ionq@north", "qsharp", "cirq#2", "ionq@south"] ∧ c.size = 5 ∧
      c.get? "ionq@south" = some (.error (.taskFailed "south" "down")) ∧
      ∃ result, c.get? "ionq@north" = some (.ok result) := by
  have hsession : History [] desk := .start _ _ _
  obtain ⟨first, hfirst⟩ := exists_alone_cirq 0 twoTasks
  obtain ⟨second, hsecond⟩ := exists_alone_north
  have hfault : ∀ e ∈ crowd, ∀ fault, desk.alone e 0 twoTasks ≠ .error (.machine fault) := by
    have hmissing : desk.alone (.new .qsharp) 0 twoTasks =
      .error (.unavailable (.notRegistered .qsharp)) := rfl
    simp [crowd, hfirst, hsecond, hmissing, alone_south]
  have hplain : ∀ e ∈ crowd, ∀ device, e.device = some device → '#' ∉ device.toList := by
    simp [crowd, onDevice, ExecutionSettings.new]
  obtain ⟨c, names, hcompare, hsize, hlength, -, hentries, hnumbers⟩ :=
    compare_isolated hsession isolated_crowd hfault
  have hnames : names = ["cirq", "ionq@north", "qsharp", "cirq#2", "ionq@south"] := by
    apply List.ext_getElem?
    intro i
    rcases i with _ | _ | _ | _ | _ | i
    · exact hnumbers hplain 0 _ rfl
    · exact hnumbers hplain 1 _ rfl
    · exact hnumbers hplain 2 _ rfl
    · exact hnumbers hplain 3 _ rfl
    · exact hnumbers hplain 4 _ rfl
    · rw [List.getElem?_eq_none (hlength.trans_le (Nat.le_add_left 5 i))]
      rfl
  refine ⟨c, names, hcompare, hnames, hsize, ?_, ?_⟩
  · obtain ⟨outcome, hget, hsame⟩ := hentries 4 (onDevice "south") "ionq@south" rfl (hnames ▸ rfl)
    have hout := hsame 0 twoTasks rfl (hfault _ (by simp [crowd]))
    rw [alone_south] at hout
    rw [hget, timelessOutcome_eq_error.mp hout]
  · obtain ⟨outcome, hget, hsame⟩ := hentries 1 (onDevice "north") "ionq@north" rfl (hnames ▸ rfl)
    have hout := hsame 0 twoTasks rfl (hfault _ (by simp [crowd]))
    rw [hsecond] at hout
    cases outcome with
    | error e => cases hout
    | ok result => exact ⟨result, hget⟩

def everPatient : ExecutionSettings :=
  { ExecutionSettings.new .ionq with credential := some "key", pollTimeout := UInt64.size - 1 }

/-- The machine is at fault in one execution, and the comparison has an entry for neither. -/
theorem comparison_lost :
    (desk.compare [.new .cirq, everPatient] 0 fun _ => []).1 = .error .timeOutOfRange ∧
      ∃ result, desk.alone (.new .cirq) 0 (fun _ => []) = .ok result := by
  refine ⟨?_, exists_alone_cirq 0 _⟩
  obtain ⟨l, result, hl, hbegin⟩ := exists_begin_cirq
  obtain ⟨l', world, hl', hbegin'⟩ : ∃ l' world, desk.prepared everPatient = .ok l' ∧
      desk.dispatcher.begin l'.1 l'.2.1 l'.2.2 0 (fun _ => []) =
        (.ended (.error (.machine .timeOutOfRange)), world) := ⟨_, _, rfl, rfl⟩
  have hdesk : desk.Remembers := nofun
  obtain ⟨hprepared, hsame⟩ := prepareAll_eq hdesk [.new .cirq, everPatient]
  have hall : desk.dispatcher.beginAll 0 [l, l'] (fun _ => []) =
      (.error .timeOutOfRange, world) := by
    simp only [beginAll, hbegin, hbegin', Progress.fault?, Failure.machineFault?, Except.map]
  unfold compare
  simp only [hprepared, hsame.dispatcher, List.map_cons, List.map_nil, hl, hl', refusals,
    preparations, List.filterMap_cons, List.filterMap_nil, Except.toOption, Option.map_some,
    List.findSome?_nil, hall]

end Session

end CircuitBroker
