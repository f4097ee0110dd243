/-
  CircuitBroker/Proofs/Settings/Precedence.lean
  =============================================
  **Who has the last word on a request.**

  A request is made of what a command line says, of the first execution that settings have for the
  backend, of variables and of defaults; each part of it comes from the first of these that has
  one.  Variables are asked only where there is such an execution, and only for the credential of a
  service and for the bucket of `braket`.  Settings without a defect make requests that can be
  carried out, and so does a command line that asks for some shots and some time.
-/
import CircuitBroker.Settings
import Mathlib.Data.Option.Basic
import Mathlib.Tactic.SplitIfs

namespace CircuitBroker

variable {R : Type} {variableOf : String → Option String} {backend : Backend}

/-! ## 1. Requests that can be carried out -/

theorem ExecutionRequest.validate_eq_ok_iff {r : ExecutionRequest} :
    r.validate (R := R) = .ok () ↔
      0 < r.repetitions ∧ 0 < r.pollTimeout ∧ 0 < r.pollInterval := by
  simp only [Nat.pos_iff_ne_zero]
  unfold validate
  split_ifs with hrepetitions htimes
  · simp [hrepetitions]
  · simp only [false_iff]
    rintro ⟨-, htimeout, hinterval⟩
    exact htimes.elim hinterval htimeout
  · rw [not_or] at htimes
    exact iff_of_true rfl ⟨hrepetitions, htimes.2, htimes.1⟩

namespace ExecutionSettings

variable {e : ExecutionSettings}

theorem validate_request_iff : e.request.validate (R := R) = .ok () ↔
    0 < e.repetitions ∧ 0 < e.pollTimeout ∧ 0 < e.pollInterval := by
  have hseconds : ∀ seconds, 0 < Duration.ofSeconds seconds ↔ 0 < seconds := by
    intro seconds
    exact Nat.mul_pos_iff_of_pos_right (by decide)
  rw [ExecutionRequest.validate_eq_ok_iff, request, hseconds, hseconds]

/-- An execution of settings without a defect makes a request that can be carried out. -/
theorem validate_request (h : e.defect? = none) (R : Type) :
    e.request.validate (R := R) = .ok () := by
  unfold defect? at h
  split_ifs at h with hrepetitions htimes
  rw [not_or] at htimes
  rw [validate_request_iff]
  exact ⟨Nat.pos_of_ne_zero hrepetitions, Nat.pos_of_ne_zero htimes.1,
    Nat.pos_of_ne_zero htimes.2⟩

/-- What is said instead keeps a request one that can be carried out, if it is not nothing. -/
theorem validate_request_apply {o : Overrides} (h : e.request.validate (R := R) = .ok ())
    (hshots : ∀ n ∈ o.shots, 0 < n) (htimeout : ∀ n ∈ o.timeout, 0 < n) :
    (o.apply e).request.validate (R := R) = .ok () := by
  have hgetD : ∀ (said : Option Nat) (n : Nat), 0 < n → (∀ k ∈ said, 0 < k) →
      0 < said.getD n := by
    intro said n hn hsaid
    cases said with
    | none => exact hn
    | some k => exact hsaid k rfl
  rw [validate_request_iff] at h ⊢
  exact ⟨hgetD _ _ h.1 hshots, hgetD _ _ h.2.1 htimeout, h.2.2⟩

end ExecutionSettings

theorem Settings.validate_request {s : Settings} (hvalid : s.validate = .ok ())
    {e : ExecutionSettings} (he : e ∈ s.executions) (R : Type) :
    e.request.validate (R := R) = .ok () := by
  have hdefect : s.defect? = none := by
    unfold Settings.validate at hvalid
    split at hvalid
    · cases hvalid
    · assumption
  unfold Settings.defect? at hdefect
  split_ifs at hdefect
  exact ExecutionSettings.validate_request (List.findSome?_eq_none_iff.mp hdefect e he) R

/-- The execution that is used for a backend is one of settings without a defect, or the
    default. -/
theorem Settings.validate_request_execution {s : Settings} (hvalid : s.validate = .ok ())
    (backend : Backend) (R : Type) :
    (s.execution backend).request.validate (R := R) = .ok () := by
  rw [execution]
  cases hfind : s.executions.find? (·.backend = backend) with
  | none =>
    rw [Option.getD_none, ExecutionSettings.validate_request_iff]
    exact ⟨Nat.succ_pos 1023, Nat.succ_pos 99, Nat.succ_pos 9⟩
  | some e => exact s.validate_request hvalid (List.mem_of_find?_eq_some hfind) R

/-! ## 2. Where each part comes from -/

def credentialInVariables (variableOf : String → Option String) : Backend → Option String
  | .qiskit => variableOf "QCAT_IBM_TOKEN"
  | .ionq => variableOf "QCAT_IONQ_API_KEY"
  | .cirq | .braket | .qsharp => none

def bucketInVariables (variableOf : String → Option String) : Backend → Option String
  | .braket => variableOf "QCAT_BRAKET_BUCKET"
  | .qiskit | .ionq | .cirq | .qsharp => none

namespace Settings

def configured? (s : Settings) (backend : Backend) : Option ExecutionSettings :=
  s.executions.find? (·.backend = backend)

theorem backend_of_configured? {s : Settings} {e : ExecutionSettings}
    (h : s.configured? backend = some e) : e.backend = backend := by
  simpa using List.find?_some h

/-- Variables change executions where they are. -/
theorem configured?_withVariables (s : Settings) (variableOf : String → Option String)
    (backend : Backend) : (s.withVariables variableOf).configured? backend =
      (s.configured? backend).map (executionWithVariables variableOf) := by
  rw [configured?, withVariables, List.find?_map]
  rfl

theorem executionWithVariables_eq (e : ExecutionSettings) :
    executionWithVariables variableOf e =
      { e with
        credential := e.credential <|> credentialInVariables variableOf e.backend
        bucket := e.bucket <|> bucketInVariables variableOf e.backend } := by
  unfold executionWithVariables
  cases e.backend <;> simp [credentialVariable?, credentialInVariables, bucketInVariables]

/-- **Asking the variables a second time changes nothing.** -/
theorem withVariables_withVariables (s : Settings) :
    (s.withVariables variableOf).withVariables variableOf = s.withVariables variableOf := by
  have hexecution : ∀ e, executionWithVariables variableOf (executionWithVariables variableOf e) =
      executionWithVariables variableOf e := by
    intro e
    have hagain : ∀ said found : Option String,
        ((said <|> found) <|> found) = (said <|> found) := by
      rintro (_ | _) (_ | _) <;> rfl
    simp only [executionWithVariables_eq, hagain]
  have hvalue : ∀ {α : Type} (found : Option α) (said : α),
      found.getD (found.getD said) = found.getD said := by
    rintro α (_ | _) said <;> rfl
  have hseed : ∀ found said : Option Nat, (found <|> found <|> said) = (found <|> said) := by
    rintro (_ | _) (_ | _) <;> rfl
  simp only [withVariables, hvalue, hseed, List.map_map, Function.comp_def, hexecution]

/-- What is used of merged settings is the first execution with its variables, or defaults. -/
theorem execution_withVariables (s : Settings) : (s.withVariables variableOf).execution backend =
    ((s.configured? backend).map (executionWithVariables variableOf)).getD (.new backend) := by
  rw [← configured?_withVariables]
  rfl

end Settings

/-! ## 3. The request -/

/-- **A device that is said comes before a simulator that is said**, and each of them before the
    device that was set. -/
theorem Overrides.target_apply (o : Overrides) (e : ExecutionSettings) :
    (o.apply e).target = (o.device.map Target.device <|> o.simulator.map Target.simulator <|>
      e.device.map Target.device).getD (.simulator e.simulator) := by
  obtain ⟨-, device, simulator, -, -, -, -⟩ := o
  cases device with
  | some device => rfl
  | none =>
    cases simulator with
    | some simulator => rfl
    | none => cases hdevice : e.device <;> simp [apply, ExecutionSettings.target, hdevice]

/-- Each part of a request comes from what is said, from the execution that is set, from the
    variables where there is one, or is the default, in this order. -/
structure ByPrecedence (o : Overrides) (configured : Option ExecutionSettings)
    (variableOf : String → Option String) (backend : Backend) (request : ExecutionRequest) :
    Prop where
  addressee : request.backend = backend
  credential : request.credential = (o.credential <|> configured.bind (·.credential) <|>
    configured.bind fun _ => credentialInVariables variableOf backend).map Credential.mk
  storage : request.storage = (o.bucket <|> configured.bind (·.bucket) <|>
    configured.bind fun _ => bucketInVariables variableOf backend).map fun bucket =>
      ⟨bucket, (o.directory <|> configured.bind (·.directory)).getD ""⟩
  repetitions : request.repetitions = (o.shots <|> configured.map (·.repetitions)).getD 1024
  pollTimeout : request.pollTimeout =
    .ofSeconds ((o.timeout <|> configured.map (·.pollTimeout)).getD 100)
  pollInterval : request.pollInterval = .ofSeconds ((configured.map (·.pollInterval)).getD 10)
  target : request.target = (o.device.map Target.device <|> o.simulator.map Target.simulator <|>
    (configured.bind (·.device)).map Target.device <|>
    configured.map (Target.simulator ·.simulator)).getD Target.default

theorem byPrecedence_apply (o : Overrides) {configured : Option ExecutionSettings}
    (h : ∀ e ∈ configured, e.backend = backend) :
    ByPrecedence o configured variableOf backend
      (o.apply ((configured.map (Settings.executionWithVariables variableOf)).getD
        (.new backend))).request := by
  cases configured with
  | none =>
    constructor
    case addressee | pollInterval => rfl
    case target =>
      rw [ExecutionSettings.request, o.target_apply]
      simp [ExecutionSettings.new, Target.default, Target.name]
    all_goals simp [ExecutionSettings.request, Overrides.apply, ExecutionSettings.new]
  | some e =>
    obtain rfl := h e rfl
    simp only [Option.map_some, Option.getD_some, Settings.executionWithVariables_eq]
    constructor
    case addressee | pollInterval => rfl
    case target =>
      rw [ExecutionSettings.request, o.target_apply]
      simp
    all_goals simp [ExecutionSettings.request, Overrides.apply]

/-- There is a storage exactly where there is a bucket. -/
theorem ByPrecedence.isSome_storage_iff {o : Overrides} {configured : Option ExecutionSettings}
    {request : ExecutionRequest} (h : ByPrecedence o configured variableOf backend request) :
    request.storage.isSome ↔ o.bucket.isSome ∨ ∃ e ∈ configured,
      e.bucket.isSome ∨ (bucketInVariables variableOf backend).isSome := by
  rw [h.storage, Option.isSome_map]
  cases configured <;> simp

/-- **Every request follows the order of precedence**: what is said, what is set, the variables,
    the defaults.  It has a storage exactly if it has a bucket; variables that are merged in twice
    are merged in once; and merged settings without a defect make requests that can be carried
    out. -/
theorem request_by_precedence (s : Settings) (variableOf : String → Option String)
    (backend : Backend) (o : Overrides) (R : Type) :
    let merged := s.withVariables variableOf
    let request := (o.apply (merged.execution backend)).request
    ByPrecedence o (s.configured? backend) variableOf backend request ∧
    (request.storage.isSome ↔ o.bucket.isSome ∨ ∃ e ∈ s.configured? backend,
      e.bucket.isSome ∨ (bucketInVariables variableOf backend).isSome) ∧
    merged.withVariables variableOf = merged ∧
    (merged.validate = .ok () → (∀ shots ∈ o.shots, 0 < shots) →
      (∀ seconds ∈ o.timeout, 0 < seconds) → request.validate (R := R) = .ok ()) := by
  intro merged request
  have horder : ByPrecedence o (s.configured? backend) variableOf backend request := by
    have hrequest : request = _ :=
      congrArg (fun e => (o.apply e).request) s.execution_withVariables
    rw [hrequest]
    exact byPrecedence_apply o fun e he => Settings.backend_of_configured? he
  refine ⟨horder, horder.isSome_storage_iff, s.withVariables_withVariables, ?_⟩
  intro hvalid hshots htimeout
  have hexecution := merged.validate_request_execution hvalid backend R
  exact ExecutionSettings.validate_request_apply hexecution hshots htimeout

/-- A device that is set, a bucket in the variables, a simulator and shots that are said. -/
theorem request_by_precedence_mixed :
    let s : Settings := { Settings.default with
      executions := [{ ExecutionSettings.new .braket with device := some "qpu" }] }
    let variableOf : String → Option String := fun name =>
      if name = "QCAT_BRAKET_BUCKET" then some "results" else none
    let o : Overrides := { Overrides.none with shots := some 5, simulator := some "SV1" }
    let merged := s.withVariables variableOf
    let request := (o.apply (merged.execution .braket)).request
    merged.validate = .ok () ∧ (∀ shots ∈ o.shots, 0 < shots) ∧
      (∀ seconds ∈ o.timeout, 0 < seconds) ∧ request.storage = some ⟨"results", ""⟩ ∧
      request.target = .simulator "SV1" ∧ request.repetitions = 5 ∧
      request.validate (R := Float) = .ok () := by
  intro s variableOf o merged request
  have hdefects : merged.validate = .ok () := rfl
  have hshots : ∀ shots ∈ o.shots, 0 < shots := by decide
  have htimeout : ∀ seconds ∈ o.timeout, 0 < seconds := by decide
  obtain ⟨horder, -, -, hvalid⟩ := request_by_precedence s variableOf .braket o Float
  exact ⟨hdefects, hshots, htimeout, horder.storage, horder.target, horder.repetitions,
    hvalid hdefects hshots htimeout⟩

end CircuitBroker
