/-
  CircuitBroker/Proofs/Execution/Completeness.lean
  ================================================
  **When the counts of a task are taken for complete.**

  Counts are added as 64-bit words, in three places: where a bitstring is reported more than
  once, where the counts of a Braket result are held against zero, and where the total is
  held against the shots.  What does not fit into a word is a fault in a build that checks its
  arithmetic.  In one that does not, each place loses whole words and nothing else, so there a
  result is accepted exactly if its counts come to the shots modulo 2^64 (`Weighed`).
-/
import CircuitBroker.Proofs.Execution.Isolation
import CircuitBroker.Service.Braket

namespace CircuitBroker

variable {σ : Type}

/-! ## 1. The counts of a Braket result -/

namespace BraketResult

variable [Build] {R : Type} [Zero R] [Add R] [Mul R] [Div R] [Magnitude R] [Share R]
  {result : BraketResult R} {measured positions : List Nat} {pairs : List (String × UInt64)}

def rekeyed (positions : List Nat) (pairs : List (String × UInt64)) : List (String × UInt64) :=
  pairs.map fun (key, n) => (select positions (onesOf key), n)

omit [Build] in
theorem reported_rekeyed (positions : List Nat) (pairs : List (String × UInt64)) :
    Counts.reported (rekeyed positions pairs) = Counts.reported pairs := by
  rw [Counts.reported, rekeyed, List.map_map]
  rfl

def counted (pairs : List (String × UInt64)) : Except BraketFault Counts := do
  let counts ← (Counts.ofPairs? pairs).mapError BraketFault.machine
  let total ← counts.total?.mapError BraketFault.machine
  if total = 0 then throw (.badResult "measurement counts are empty") else return counts

/-- Counts are taken for empty exactly if they come to whole words. -/
theorem counted_eq (pairs : List (String × UInt64)) :
    counted pairs =
      if Build.checks = true ∧ 2 ^ 64 ≤ Counts.reported pairs then .error (.machine .overflow)
      else if 2 ^ 64 ∣ Counts.reported pairs then
        .error (.badResult "measurement counts are empty")
      else .ok (.ofPairs pairs) := by
  unfold counted
  split
  case isTrue h =>
    have hoverflow := Counts.total?_ofPairs?_of_overflow h.1 h.2
    match hpairs : Counts.ofPairs? pairs with
    | .error fault =>
      rw [hpairs] at hoverflow
      cases hoverflow
      rfl
    | .ok counts =>
      have htotal : counts.total? = .error .overflow := by rwa [hpairs] at hoverflow
      simp only [Except.mapError, bind, Except.bind, htotal]
  case isFalse h =>
    obtain ⟨hpairs, htotal⟩ := Counts.total?_ofPairs?_of_fits (Word.not_overflow_iff.mp h)
    have hzero : (Counts.ofPairs pairs).total = 0 ↔ 2 ^ 64 ∣ Counts.reported pairs := by
      rw [← UInt64.toNat_inj, Counts.toNat_total_ofPairs, Nat.dvd_iff_mod_eq_zero]
      rfl
    simp only [hpairs, htotal, Except.mapError, bind, Except.bind, hzero]
    rfl

theorem decode_of_counts (hcounts : result.counts = some pairs)
    (hpositions : measured.mapM (position (result.measuredQubits.getD measured)) = .ok positions)
    (shots : Nat) : result.decode measured shots = counted (rekeyed positions pairs) := by
  unfold decode
  simp only [hpositions, hcounts, bind, Except.bind]
  rfl

end BraketResult

namespace Dispatcher

section Build

variable [Build]

/-! ## 2. The counts of a task -/

/-- How the counts in the calls about a task, if there are any, decide what comes of it. -/
structure Weighed (calls : List TaskCall) (shots : Nat)
    (outcome : Except ExecutionFailure ExecutionResult) : Prop where
  fetched : ∀ result, outcome = .ok result →
    ∃ id payload, TaskCall.result id payload (.ok result.counts) ∈ calls
  accepted_iff : ∀ id payload counts, TaskCall.result id payload (.ok counts) ∈ calls →
    ((∃ result, outcome = .ok result) ↔
      (counts.sum < 2 ^ 64 ∨ Build.checks = false) ∧ counts.sum % 2 ^ 64 = shots)
  refused : ∀ id payload counts, TaskCall.result id payload (.ok counts) ∈ calls →
    (counts.sum < 2 ^ 64 ∨ Build.checks = false) → counts.sum % 2 ^ 64 ≠ shots →
    outcome = .error (.incompleteResult id shots (counts.sum % 2 ^ 64))
  overflowed : ∀ id payload counts, TaskCall.result id payload (.ok counts) ∈ calls →
    2 ^ 64 ≤ counts.sum → Build.checks = true → outcome = .error (.machine .overflow)

/-- Nothing is lost of what fits into a word. -/
theorem Weighed.accepted_iff_of_lt {calls : List TaskCall} {shots : Nat}
    {outcome : Except ExecutionFailure ExecutionResult} (h : Weighed calls shots outcome)
    {id : String} {payload : TaskPayload} {counts : Counts}
    (hmem : TaskCall.result id payload (.ok counts) ∈ calls) (hlt : counts.sum < 2 ^ 64) :
    (∃ result, outcome = .ok result) ↔ counts.sum = shots := by
  rw [h.accepted_iff id payload counts hmem, Nat.mod_eq_of_lt hlt, and_iff_right (.inl hlt)]

/-- A build that checks accepts nothing but the shots. -/
theorem Weighed.accepted_iff_of_checks {calls : List TaskCall} {shots : Nat}
    {outcome : Except ExecutionFailure ExecutionResult} (h : Weighed calls shots outcome)
    {id : String} {payload : TaskPayload} {counts : Counts}
    (hmem : TaskCall.result id payload (.ok counts) ∈ calls) (hchecks : Build.checks = true)
    (hshots : shots < 2 ^ 64) : (∃ result, outcome = .ok result) ↔ counts.sum = shots := by
  rw [h.accepted_iff id payload counts hmem, or_iff_left (by simp [hchecks])]
  constructor
  · rintro ⟨hlt, hsum⟩
    rwa [Nat.mod_eq_of_lt hlt] at hsum
  · rintro rfl
    exact ⟨hshots, Nat.mod_eq_of_lt hshots⟩

/-- Without a result there is nothing to accept. -/
theorem Weighed.of_unfetched {calls : List TaskCall} {shots : Nat} {e : ExecutionFailure}
    (h : ∀ id payload answer, TaskCall.result id payload answer ∉ calls) :
    Weighed calls shots (.error e) := by
  constructor
  · intro result hresult
    cases hresult
  all_goals
    intro id payload counts hmem
    exact absurd hmem (h id payload (.ok counts))

theorem Weighed.append {calls last : List TaskCall} {shots : Nat}
    {outcome : Except ExecutionFailure ExecutionResult} (h : Weighed last shots outcome)
    (hcalls : ∀ id payload answer, TaskCall.result id payload answer ∉ calls) :
    Weighed (calls ++ last) shots outcome := by
  have hmem : ∀ id payload answer, TaskCall.result id payload answer ∈ calls ++ last ↔
      TaskCall.result id payload answer ∈ last := by
    intro id payload answer
    simp [hcalls]
  constructor
  · intro result hresult
    obtain ⟨id, payload, hfetched⟩ := h.fetched result hresult
    exact ⟨id, payload, (hmem _ _ _).mpr hfetched⟩
  · intro id payload counts hresult
    exact h.accepted_iff id payload counts ((hmem _ _ _).mp hresult)
  · intro id payload counts hresult
    exact h.refused id payload counts ((hmem _ _ _).mp hresult)
  · intro id payload counts hresult
    exact h.overflowed id payload counts ((hmem _ _ _).mp hresult)

/-- A result that was fetched is weighed by its total. -/
theorem Weighed.of_total {id : String} {payload : TaskPayload} {counts : Counts} {shots : Nat}
    {outcome : Except ExecutionFailure ExecutionResult} {total : UInt64}
    (htotal : counts.total? = .ok total)
    (hfetched : ∀ result, outcome = .ok result → result.counts = counts)
    (haccepted : (∃ result, outcome = .ok result) ↔ total.toNat = shots)
    (hrefused : total.toNat ≠ shots → outcome = .error (.incompleteResult id shots total.toNat)) :
    Weighed [.result id payload (.ok counts)] shots outcome := by
  obtain ⟨hfits, rfl⟩ := Counts.total?_eq_ok_iff.mp htotal
  rw [Counts.toNat_total_eq_mod] at haccepted hrefused
  constructor
  · intro result hresult
    exact ⟨id, payload, by rw [hfetched result hresult, List.mem_singleton]⟩
  · simp only [List.mem_singleton, TaskCall.result.injEq, Except.ok.injEq]
    rintro _ _ _ ⟨rfl, rfl, rfl⟩
    rw [haccepted, and_iff_right hfits]
  · simp only [List.mem_singleton, TaskCall.result.injEq, Except.ok.injEq]
    rintro _ _ _ ⟨rfl, rfl, rfl⟩ -
    exact hrefused
  · simp only [List.mem_singleton, TaskCall.result.injEq, Except.ok.injEq]
    rintro _ _ _ ⟨rfl, rfl, rfl⟩ hlarge hchecks
    exact absurd hfits (not_or.mpr ⟨Nat.not_lt.mpr hlarge, by simp [hchecks]⟩)

/-- The last poll of a task weighs its counts. -/
theorem Concluded.weighed {task : PendingTask σ} {answered fetched : Instant}
    {answer : Except ExecutionFailure JobStatus} {last : List TaskCall}
    {outcome : Except ExecutionFailure ExecutionResult}
    (h : Concluded task answered fetched answer last outcome) :
    Weighed last task.payload.shots outcome := by
  cases h with
  | unknown | uncounted => exact .of_unfetched (by simp)
  | counted _ hfollows =>
    cases hfollows with
    | failed | cancelled | timedOut => exact .of_unfetched (by simp)
    | withheld e => constructor <;> simp
    | overflowing _ htotal =>
      obtain ⟨⟨hlarge, hchecks⟩, rfl⟩ := Counts.total?_eq_error_iff.mp htotal
      constructor <;> simp_all
    | incomplete _ htotal hne =>
      exact .of_total htotal nofun (by simp [hne]) fun _ => rfl
    | complete _ htotal heq =>
      refine .of_total htotal ?_ (by simp [heq]) (absurd heq)
      rintro _ ⟨⟩
      rfl

/-! ## 3. Whole executions -/

section Remote

variable {d : Dispatcher} {adapter : Adapter σ} {native : Native Float} {request : ExecutionRequest}
  {target : String} {clock final : Readings} {world : σ} {world' : Logged σ}
  {outcome : Except ExecutionFailure ExecutionResult}

/-- Whenever a task is polled, its counts are weighed before they are accepted. -/
theorem Settles.weighed (hroute : adapter.route request = .ok (.remote target))
    (hkeeps : adapter.KeepsRepetitions)
    (h : Settles (d.beginAt adapter.logged native request clock (world, [])) clock outcome final
      world') :
    Weighed world'.2 request.repetitions outcome := by
  rcases beginAt_logged d hroute native clock world [] with
    ⟨e, -, -, hbegin⟩ | ⟨service, payload, -, -, hpayload, -, hbegin⟩
  · rw [hbegin] at h
    cases h
    exact .of_unfetched (by simp)
  · rcases submitAt_logged service adapter.backend payload request clock world [] with
      ⟨e, _, -, hsubmit⟩ | ⟨id, _, -, -, hsubmit⟩ | ⟨id, _, -, hsubmit⟩
    · rw [hbegin, hsubmit] at h
      cases h
      exact .of_unfetched (by simp)
    · rw [hbegin, hsubmit] at h
      cases h
      exact .of_unfetched (by simp)
    · -- only the calls behind the last poll can fetch a result
      obtain ⟨earlier, answer, last, job, -, -, -, -, hcalls, hconcluded⟩ :=
        h.concluded _ _ _ 0 rfl (hbegin.trans hsubmit)
      have hlast : Weighed last payload.shots outcome := hconcluded.weighed
      rw [hkeeps native request target payload hpayload] at hlast
      have hbehind : world'.2 = ([.create payload (.ok id)] ++
          (earlier.map (.status id <| .ok ·) ++ [.status id answer])) ++ last := by
        rw [hcalls]
        simp [createdAt, Job.new]
      rw [hbehind]
      refine hlast.append fun id payload answer => ?_
      simp

/-- **What a result is accepted for.**  Nothing that fits into a word is taken for more or less
    than it is, neither when it is counted nor when it is held against zero or against the shots.
    What does not fit is a fault in a build that checks; in one that does not, a result is
    accepted exactly if its counts come to the shots up to whole words. -/
theorem accepted_up_to_words (hroute : adapter.route request = .ok (.remote target))
    (hkeeps : adapter.KeepsRepetitions) (d : Dispatcher) (native : Native Float) :
    (∀ clock world outcome final world',
      Settles (d.beginAt adapter.logged native request clock (world, [])) clock outcome final
        world' →
      Weighed world'.2 request.repetitions outcome ∧
      ∀ id payload counts, TaskCall.result id payload (.ok counts) ∈ world'.2 →
        counts.sum < 2 ^ 64 ∨ Build.checks = true ∧ request.repetitions < 2 ^ 64 →
        ((∃ result, outcome = .ok result) ↔ counts.sum = request.repetitions)) ∧
    (∀ now world,
      Weighed (d.execute adapter.logged native request now (world, [])).2.2.2 request.repetitions
        (d.execute adapter.logged native request now (world, [])).1) ∧
    (∀ pairs : List (String × UInt64),
      (∃ lost, (Counts.ofPairs pairs).sum + 2 ^ 64 * lost = Counts.reported pairs) ∧
      (Counts.reported pairs < 2 ^ 64 → (Counts.ofPairs pairs).sum = Counts.reported pairs) ∧
      (∀ counts, Counts.ofPairs? pairs = .ok counts → counts = Counts.ofPairs pairs ∧
        (Build.checks = true → counts.sum = Counts.reported pairs)) ∧
      (Counts.reported pairs < 2 ^ 64 ∨ Build.checks = false →
        Counts.ofPairs? pairs = .ok (.ofPairs pairs))) ∧
    ∀ (result : BraketResult Float) pairs positions measured shots, result.counts = some pairs →
      measured.mapM (BraketResult.position (result.measuredQubits.getD measured)) =
        .ok positions →
      result.decode measured shots =
          (if Build.checks = true ∧ 2 ^ 64 ≤ Counts.reported pairs then
            .error (.machine .overflow)
          else if 2 ^ 64 ∣ Counts.reported pairs then
            .error (.badResult "measurement counts are empty")
          else .ok (.ofPairs (BraketResult.rekeyed positions pairs))) ∧
        (Counts.reported pairs < 2 ^ 64 → Counts.reported pairs ≠ 0 →
          ∃ counts, result.decode measured shots = .ok counts ∧
            counts.sum = Counts.reported pairs) := by
  refine ⟨fun clock world outcome final world' h => ?_, fun now world => ?_, fun pairs => ?_, ?_⟩
  · have hweighed := h.weighed hroute hkeeps
    refine ⟨hweighed, fun _ _ _ hmem hfits => ?_⟩
    rcases hfits with hlt | ⟨hchecks, hshots⟩
    · exact hweighed.accepted_iff_of_lt hmem hlt
    · exact hweighed.accepted_iff_of_checks hmem hchecks hshots
  · exact (settles_execute d adapter.logged native request now (world, [])).weighed hroute hkeeps
  · exact ⟨Counts.sum_ofPairs_add pairs, Counts.sum_ofPairs, fun _ => Counts.ofPairs?_eq_ok,
      fun hfits => (Counts.total?_ofPairs?_of_fits hfits).1⟩
  · intro result pairs positions measured shots hcounts hpositions
    have hdecode := BraketResult.decode_of_counts hcounts hpositions shots
    rw [BraketResult.counted_eq, BraketResult.reported_rekeyed] at hdecode
    refine ⟨hdecode, fun hlt hne => ⟨.ofPairs (BraketResult.rekeyed positions pairs), ?_, ?_⟩⟩
    · rw [hdecode, if_neg fun hlarge => Nat.not_lt.mpr hlarge.2 hlt,
        if_neg fun hdvd => hne (Nat.eq_zero_of_dvd_of_lt hdvd hlt)]
    · rw [Counts.sum_ofPairs (BraketResult.reported_rekeyed positions pairs ▸ hlt),
        BraketResult.reported_rekeyed]

end Remote

end Build

/-! ### Whole words more -/

def counted (counts : Counts) : ServiceScript := ⟨.ok "task-1", .ok (some counts), .ok ()⟩

def countedAdapter (counts : Counts) : Adapter ScriptState :=
  IonBackend.adapter ⟨"", some (counted counts).service⟩ .offline

def threefold : ExecutionRequest := { impatient with repetitions := 3 }

def oneAndTwo : Counts := ⟨[("0", 1), ("1", 2)]⟩

theorem accepted_up_to_words_oneAndTwo :
    (countedAdapter oneAndTwo).KeepsRepetitions ∧
      (countedAdapter oneAndTwo).route threefold = .ok (.remote "simulator") ∧
      oneAndTwo.sum = threefold.repetitions ∧
      ∃ result, ((⟨⟨0, 1⟩⟩ : Dispatcher).execute (countedAdapter oneAndTwo).logged
        (.ion ⟨.empty 1⟩) threefold 0 (⟨[.ok .completed], []⟩, [])).1 = .ok result := by
  have hkeeps : (countedAdapter oneAndTwo).KeepsRepetitions := IonBackend.keepsRepetitions _ _
  have hroute : (countedAdapter oneAndTwo).route threefold = .ok (.remote "simulator") := rfl
  have hsum : oneAndTwo.sum = threefold.repetitions := by decide
  obtain ⟨payload, creation, poll, hcalls⟩ : ∃ payload creation poll,
      ((⟨⟨0, 1⟩⟩ : Dispatcher).execute (countedAdapter oneAndTwo).logged (.ion ⟨.empty 1⟩) threefold 0
        (⟨[.ok .completed], []⟩, [])).2.2.2 =
        [creation, poll, .result "task-1" payload (.ok oneAndTwo)] := ⟨_, _, _, rfl⟩
  obtain ⟨-, hexecute, -⟩ := accepted_up_to_words hroute hkeeps ⟨⟨0, 1⟩⟩ (.ion ⟨.empty 1⟩)
  have hweighed := hexecute 0 ⟨[.ok .completed], []⟩
  have hmem : TaskCall.result "task-1" payload (.ok oneAndTwo) ∈
      ((⟨⟨0, 1⟩⟩ : Dispatcher).execute (countedAdapter oneAndTwo).logged (.ion ⟨.empty 1⟩) threefold 0
        (⟨[.ok .completed], []⟩, [])).2.2.2 := by
    rw [hcalls]
    simp
  exact ⟨hkeeps, hroute, hsum, (hweighed.accepted_iff_of_lt hmem (by decide)).mpr hsum⟩

def halfWord : UInt64 := 9223372036854775808

def swollen : Counts := ⟨[("0", halfWord), ("1", halfWord + 3)]⟩

/-- In a build that does not check, a whole word more than was asked for is accepted, and two half
    words are taken for none; one that checks comes to no outcome but a fault. -/
theorem swollen_accepted :
    ((⟨⟨0, 1⟩⟩ : Dispatcher).execute (countedAdapter swollen) (.ion ⟨.empty 1⟩) threefold 0
        ⟨[.ok .completed], []⟩).1 = .error (.machine .overflow) ∧
    (⟨some [("0", halfWord), ("1", halfWord)], none, none, some [0]⟩ : BraketResult Float).decode
        [0] 3 = .error (.machine .overflow) ∧
    Counts.reported [("0", halfWord), ("1", halfWord)] = 18446744073709551616 ∧
    letI := wrappingBuild
    (∃ result, ((⟨⟨0, 1⟩⟩ : Dispatcher).execute (countedAdapter swollen) (.ion ⟨.empty 1⟩) threefold 0
        ⟨[.ok .completed], []⟩).1 = .ok result ∧
      result.counts.sum = 18446744073709551619 ∧ result.shots = 3) ∧
    (⟨some [("0", halfWord), ("1", halfWord)], none, none, some [0]⟩ : BraketResult Float).decode
        [0] 3 = .error (.badResult "measurement counts are empty") :=
  ⟨rfl, rfl, by decide, ⟨_, rfl, by decide, rfl⟩, rfl⟩

end Dispatcher

end CircuitBroker
