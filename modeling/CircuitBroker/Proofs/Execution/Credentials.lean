/-
  CircuitBroker/Proofs/Execution/Credentials.lean
  ===============================================
  **A credential opens the connection, and that is all it does.**

  Before it reaches its service a backend demands something of a remote request: a credential
  or a place for results (`Demand`).  A request that does not meet the demand is refused
  without a call (`execute_of_unmet`).  Apart from that nobody looks at the credential
  (`Adapter.Discreet`), so two requests that differ in it alone are carried out alike from the
  first step on (`begin_withCredential`), also at different times (`execute_later`).
-/
import CircuitBroker.Proofs.Execution.Isolation

namespace CircuitBroker

variable {σ : Type}

/-! ## 1. What is demanded of a request -/

/-- What a request has to come with: a credential, under the name by which it is asked for, or
    a place for results. -/
inductive Demand where
  | credential (title : String)
  | storage

namespace Demand

def title : Demand → String
  | .credential title => title
  | .storage => "a storage bucket"

/-- A demand is met by what is there and not empty. -/
def MetBy (request : ExecutionRequest) : Demand → Prop
  | .credential _ => ∃ c, request.credential = some c ∧ c.secret ≠ ""
  | .storage => ∃ s, request.storage = some s ∧ s.bucket ≠ ""

def check (request : ExecutionRequest) : Demand → Except ExecutionFailure Unit
  | .credential title => (request.requireCredential title).map fun _ => ()
  | .storage => request.requireStorage.map fun _ => ()

theorem check_of_met {demand : Demand} {request : ExecutionRequest} (h : demand.MetBy request) :
    demand.check request = .ok () := by
  cases demand with
  | credential title =>
    obtain ⟨c, hcredential, hsecret⟩ := h
    simp [check, ExecutionRequest.requireCredential, hcredential, hsecret, Except.map]
  | storage =>
    obtain ⟨s, hstorage, hbucket⟩ := h
    simp [check, ExecutionRequest.requireStorage, hstorage, hbucket, Except.map]

theorem check_of_unmet {demand : Demand} {request : ExecutionRequest}
    (h : ¬ demand.MetBy request) :
    demand.check request = .error (.missingCredential request.backend demand.title) := by
  cases demand with
  | credential title =>
    cases hcredential : request.credential with
    | none => simp [check, ExecutionRequest.requireCredential, hcredential, Except.map, Demand.title]
    | some c =>
      have hempty : c.secret = "" := by
        by_contra hsecret
        exact h ⟨c, hcredential, hsecret⟩
      simp [check, ExecutionRequest.requireCredential, hcredential, hempty, Except.map, Demand.title]
  | storage =>
    cases hstorage : request.storage with
    | none => simp [check, ExecutionRequest.requireStorage, hstorage, Except.map, Demand.title]
    | some s =>
      have hempty : s.bucket = "" := by
        by_contra hbucket
        exact h ⟨s, hstorage, hbucket⟩
      simp [check, ExecutionRequest.requireStorage, hstorage, hempty, Except.map, Demand.title]

end Demand

/-! ## 2. Backends on a given service -/

/-- An adapter that looks at the credential of a request only where it connects. -/
structure Adapter.Discreet (a : Adapter σ) : Prop where
  route : ∀ request credential, a.route { request with credential } = a.route request
  payload : ∀ native request credential target,
    a.payload native { request with credential } target = a.payload native request target

/-- The backends on a service that was given to them, with a request that is to run remotely
    and what the backend demands of it. -/
inductive Guarded (service : TaskService σ) (transport : Transport σ)
    (request : ExecutionRequest) : Adapter σ → Demand → Prop
  | ibm (endpoint : String) {device : String} (h : request.target = .device device) :
      Guarded service transport request (IbmBackend.adapter ⟨endpoint, some service⟩ transport)
        (.credential IbmBackend.tokenTitle)
  | ion (endpoint : String) :
      Guarded service transport request (IonBackend.adapter ⟨endpoint, some service⟩ transport)
        (.credential IonFault.keyTitle)
  | braket (region surroundings : Option String) {device : String}
      (h : request.target = .device device) :
      Guarded service transport request
        (BraketBackend.adapter ⟨region, surroundings, some service⟩ transport) .storage

namespace Guarded

variable {service : TaskService σ} {transport : Transport σ} {request : ExecutionRequest}
  {adapter : Adapter σ} {demand : Demand}

theorem discreet (h : Guarded service transport request adapter demand) : adapter.Discreet := by
  cases h with
  | ibm | ion | braket => exact ⟨fun _ _ => rfl, fun _ _ _ _ => rfl⟩

/-- The demand is all that stands before the service. -/
theorem connect (h : Guarded service transport request adapter demand)
    (request' : ExecutionRequest) :
    adapter.connect request' = (demand.check request').map fun _ => service := by
  cases h with
  | ibm endpoint =>
    change IbmBackend.connect ⟨endpoint, some service⟩ transport request' = _
    unfold IbmBackend.connect
    dsimp only [Demand.check]
    cases request'.requireCredential IbmBackend.tokenTitle <;> rfl
  | ion endpoint =>
    change IonBackend.connect ⟨endpoint, some service⟩ transport request' = _
    unfold IonBackend.connect
    dsimp only [Demand.check]
    cases request'.requireCredential IonFault.keyTitle <;> rfl
  | braket region surroundings =>
    change BraketBackend.connect ⟨region, surroundings, some service⟩ transport request' = _
    unfold BraketBackend.connect
    dsimp only [Demand.check]
    cases request'.requireStorage <;> rfl

theorem exists_route (h : Guarded service transport request adapter demand) :
    ∃ target, adapter.route request = .ok (.remote target) := by
  cases h with
  | ibm endpoint htarget =>
    change ∃ target, Except.ok (Adapter.routeDevices (fun name => name) request) = _
    rw [Adapter.routeDevices, htarget]
    exact ⟨_, rfl⟩
  | ion endpoint => exact ⟨_, rfl⟩
  | braket region surroundings htarget =>
    change ∃ target, Except.ok (Adapter.routeDevices BraketDevice.resolve request) = _
    rw [Adapter.routeDevices, htarget]
    exact ⟨_, rfl⟩

end Guarded

namespace Dispatcher

section Build

variable [Build]

variable {d : Dispatcher} {adapter : Adapter σ} {native : Native Float} {request : ExecutionRequest}
  {credential : Option Credential}

/-! ## 3. Two requests that differ in the credential -/

/-- Where both requests are let in, or neither is, the executions are one from their first
    step. -/
theorem beginAt_withCredential (hdiscreet : adapter.Discreet)
    (hconnect : adapter.connect { request with credential } = adapter.connect request)
    (clock : Readings) (world : σ) :
    d.beginAt adapter native { request with credential } clock world =
      d.beginAt adapter native request clock world := by
  have hvalid : ({ request with credential } : ExecutionRequest).validate (R := Float) =
      request.validate := rfl
  unfold beginAt
  rw [hvalid, hdiscreet.route, hconnect]
  simp only [hdiscreet.payload]
  rfl

theorem begin_withCredential (hdiscreet : adapter.Discreet)
    (hconnect : adapter.connect { request with credential } = adapter.connect request)
    (now : Instant) (world : σ) :
    d.begin adapter native { request with credential } now world =
      d.begin adapter native request now world :=
  beginAt_withCredential hdiscreet hconnect (.still now) world

theorem execute_withCredential (hdiscreet : adapter.Discreet)
    (hconnect : adapter.connect { request with credential } = adapter.connect request)
    (now : Instant) (world : σ) :
    d.execute adapter native { request with credential } now world =
      d.execute adapter native request now world := by
  rw [execute, begin_withCredential hdiscreet hconnect, execute]

omit [Build] in
theorem discreet_logged (h : adapter.Discreet) : adapter.logged.Discreet := ⟨h.route, h.payload⟩

omit [Build] in
theorem connect_logged (hconnect : adapter.connect { request with credential } =
    adapter.connect request) :
    adapter.logged.connect { request with credential } = adapter.logged.connect request := by
  change (adapter.connect _).map _ = (adapter.connect _).map _
  rw [hconnect]

omit [Build] in
/-- What is done to a world is decided by all of it. -/
theorem confined_id {α : Type} (call : Call σ α) : confined id α call := by
  intro world world' h
  obtain rfl : world = world' := h
  exact ⟨rfl, rfl⟩

omit [Build] in
theorem taskCalls_confined_id (service : TaskService σ) (payload : TaskPayload) :
    service.TaskCalls payload (confined id) :=
  ⟨confined_id _, fun _ _ _ => confined_id _, fun _ _ _ => confined_id _, fun _ _ _ => confined_id _⟩

/-- An execution that begins later makes the same calls and comes out the same, if the clock
    can show its deadline as well as it could before. -/
theorem execute_later (d : Dispatcher) (adapter : Adapter σ) (native : Native Float)
    (request : ExecutionRequest) {now now' : Instant} (world : σ)
    (hclock : endOfTime ≤ now + request.pollTimeout ↔ endOfTime ≤ now' + request.pollTimeout) :
    timelessOutcome (d.execute adapter native request now world).1 =
        timelessOutcome (d.execute adapter native request now' world).1 ∧
      (d.execute adapter native request now world).2.2 =
        (d.execute adapter native request now' world).2.2 := by
  rcases begin_cases d (adapter, native, request) with
    ⟨outcome, hbegin⟩ | ⟨service, payload, -, hbegin⟩
  · simp only [execute, hbegin, and_self]
  · simp only [execute, hbegin]
    have hcalls := taskCalls_confined_id service payload
    have hgoesOn : (submit service adapter.backend payload request now world).1.PollCalls
        (confined id) := pollCalls_submit hcalls now world
    have hsubmits : (submit service adapter.backend payload request now world).1.Twin now now'
          (submit service adapter.backend payload request now' world).1 ∧
        (submit service adapter.backend payload request now world).2 =
          (submit service adapter.backend payload request now' world).2 :=
      submit_twin hcalls (rfl : id world = id world) fun _ _ => hclock
    obtain ⟨htwin, hafter⟩ := hsubmits
    rcases hsubmit : submit service adapter.backend payload request now world with ⟨p, world₁⟩
    rcases hsubmit' : submit service adapter.backend payload request now' world with ⟨p', world₁'⟩
    rw [hsubmit, hsubmit'] at htwin hafter
    rw [hsubmit] at hgoesOn
    cases htwin with
    | asleep htask hwake => exact complete_twin htask hgoesOn hwake hafter
    | ended houtcome => exact ⟨houtcome, hafter⟩

/-- **Two requests are carried out alike**, watched or not, at whatever times their tasks are
    polled. -/
structure SameCourse (d : Dispatcher) (adapter : Adapter σ) (native : Native Float)
    (request request' : ExecutionRequest) : Prop where
  execute : ∀ now world, d.execute adapter native request now world =
    d.execute adapter native request' now world
  calls : ∀ now world, d.execute adapter.logged native request now (world, []) =
    d.execute adapter.logged native request' now (world, [])
  settles : ∀ clock world outcome final world',
    Settles (d.beginAt adapter.logged native request clock (world, [])) clock outcome final world' ↔
      Settles (d.beginAt adapter.logged native request' clock (world, [])) clock outcome final world'
  /-- Begun at another time, times aside. -/
  later : ∀ now now' world,
    (endOfTime ≤ now + request.pollTimeout ↔ endOfTime ≤ now' + request.pollTimeout) →
    timelessOutcome (d.execute adapter.logged native request now (world, [])).1 =
        timelessOutcome (d.execute adapter.logged native request' now' (world, [])).1 ∧
      (d.execute adapter.logged native request now (world, [])).2.2 =
        (d.execute adapter.logged native request' now' (world, [])).2.2

theorem sameCourse_withCredential (hdiscreet : adapter.Discreet)
    (hconnect : adapter.connect { request with credential } = adapter.connect request) :
    SameCourse d adapter native request { request with credential } := by
  have hlogged : ∀ now world,
      d.execute adapter.logged native { request with credential } now (world, []) =
        d.execute adapter.logged native request now (world, []) := fun now world =>
    execute_withCredential (discreet_logged hdiscreet) (connect_logged hconnect) now _
  constructor
  · intro now world
    exact (execute_withCredential hdiscreet hconnect now world).symm
  · intro now world
    exact (hlogged now world).symm
  · intro clock world outcome final world'
    rw [beginAt_withCredential (discreet_logged hdiscreet) (connect_logged hconnect)]
  · intro now now' world hclock
    rw [hlogged]
    exact execute_later d adapter.logged native request (world, []) hclock

/-! ## 4. Let in or not -/

/-- A request that is not let in is refused without a call. -/
theorem execute_of_unconnected {target : String} {e : ExecutionFailure}
    (hvalid : request.validate (R := Float) = .ok ())
    (hroute : adapter.route request = .ok (.remote target))
    (hconnect : adapter.connect request = .error e) (now : Instant) (world : σ) :
    d.execute adapter native request now world = (.error e, now, world) := by
  unfold execute begin beginAt
  simp only [hvalid, hroute, hconnect, bind, Except.bind]

/-- The first call of a request that is let in submits its payload. -/
theorem calls_of_submits {service : TaskService σ} {payload : TaskPayload}
    (h : Submits adapter native request service payload) (now : Instant) (world : σ) :
    ∃ answer later, (d.execute adapter.logged native request now (world, [])).2.2.2 =
      .create payload answer :: later := by
  have hbegin : d.begin adapter.logged native request now (world, []) =
      submit service.logged adapter.backend payload request now (world, []) :=
    begin_of_submits d h.logged now (world, [])
  rcases submit_logged service adapter.backend payload request now world [] with
    ⟨e, world', -, hsubmit⟩ | ⟨id, world', -, -, hsubmit⟩ | ⟨id, world', -, hsubmit⟩
  · rw [execute, hbegin, hsubmit]
    exact ⟨_, _, rfl⟩
  · rw [execute, hbegin, hsubmit]
    exact ⟨_, _, rfl⟩
  · -- what is polled for afterwards is written down behind the creation
    have hsettles := settles_execute d adapter.logged native request now (world, [])
    obtain ⟨_, _, _, _, -, -, -, -, hcalls, -⟩ :=
      hsettles.concluded _ _ _ 0 rfl (hbegin.trans hsubmit)
    rw [hcalls]
    exact ⟨_, _, rfl⟩

/-- A credential is asked for before anything is sent, and for nothing else: without it a
    request is refused without a call, with it the payload is submitted, and which credential
    it is makes no difference to the calls or to what comes of them. -/
theorem credential_opens {service : TaskService σ} {transport : Transport σ} {demand : Demand}
    (h : Guarded service transport request adapter demand)
    (hvalid : request.validate (R := Float) = .ok ()) (d : Dispatcher) (native : Native Float) :
    (¬ demand.MetBy request → ∀ now world,
      d.execute adapter.logged native request now (world, []) =
        (.error (.missingCredential request.backend demand.title), now, world, [])) ∧
    (demand.MetBy request → ∀ target payload, adapter.route request = .ok (.remote target) →
      adapter.payload native request target = .ok payload → ∀ now world, ∃ answer later,
        (d.execute adapter.logged native request now (world, [])).2.2.2 =
          .create payload answer :: later) ∧
    ∀ credential, demand = .storage ∨
        (demand.MetBy request ∧ demand.MetBy { request with credential }) →
      SameCourse d adapter native request { request with credential } := by
  obtain ⟨target, hroute⟩ := h.exists_route
  refine ⟨fun hunmet now world => ?_, fun hmet target payload hroute hpayload now world => ?_,
    fun credential hcredentials => sameCourse_withCredential h.discreet ?_⟩
  · have hrouteLogged : adapter.logged.route request = .ok (.remote target) := hroute
    have hconnect : adapter.logged.connect request =
        .error (.missingCredential request.backend demand.title) := by
      change (adapter.connect request).map _ = _
      rw [h.connect, Demand.check_of_unmet hunmet]
      rfl
    exact execute_of_unconnected hvalid hrouteLogged hconnect now (world, [])
  · have hconnect : adapter.connect request = .ok service := by
      rw [h.connect, Demand.check_of_met hmet]
      rfl
    exact calls_of_submits ⟨hvalid, hconnect, target, hroute, hpayload⟩ now world
  · rw [h.connect, h.connect]
    obtain rfl | ⟨hmet, hmet'⟩ := hcredentials
    · rfl
    · rw [Demand.check_of_met hmet, Demand.check_of_met hmet']

end Build

def stored : ExecutionRequest :=
  { ExecutionRequest.new .braket with
    target := .device "sv1", storage := some ⟨"results", ""⟩, pollTimeout := 5, pollInterval := 60 }

def storedAdapter : Adapter ScriptState :=
  BraketBackend.adapter ⟨none, none, some unending.service⟩ .offline

theorem credential_opens_impatient :
    let d : Dispatcher := ⟨⟨0, 1⟩⟩
    d.execute unendingAdapter.logged (.ion ⟨.empty 1⟩) { impatient with credential := some ⟨""⟩ } 0
        (⟨[], []⟩, []) = (.error (.missingCredential .ionq "an IonQ API key"), 0, ⟨[], []⟩, []) ∧
      (∃ payload answer later,
        unendingAdapter.payload (.ion ⟨.empty 1⟩) impatient "simulator" = .ok payload ∧
        (d.execute unendingAdapter.logged (.ion ⟨.empty 1⟩) impatient 0 (⟨[], []⟩, [])).2.2.2 =
          .create payload answer :: later) ∧
      SameCourse d unendingAdapter (.ion ⟨.empty 1⟩) impatient
        { impatient with credential := some ⟨"another key"⟩ } ∧
      SameCourse d storedAdapter (.modifiers (.empty 1)) stored
        { stored with credential := some ⟨"key"⟩ } := by
  intro d
  have hguarded : ∀ request, Guarded unending.service .offline request unendingAdapter
      (.credential IonFault.keyTitle) := fun _ => .ion ""
  have hmet : ∀ secret, secret ≠ "" → (Demand.credential IonFault.keyTitle).MetBy
      { impatient with credential := some ⟨secret⟩ } := fun secret h => ⟨_, rfl, h⟩
  have hunmet : ¬ (Demand.credential IonFault.keyTitle).MetBy
      { impatient with credential := some ⟨""⟩ } := by
    rintro ⟨c, hc, hsecret⟩
    cases hc
    exact hsecret rfl
  have hopened := credential_opens (hguarded impatient) rfl d (.ion ⟨.empty 1⟩)
  refine ⟨(credential_opens (hguarded _) rfl d (.ion ⟨.empty 1⟩)).1 hunmet 0 ⟨[], []⟩, ?_, ?_, ?_⟩
  · obtain ⟨answer, later, hcalls⟩ :=
      hopened.2.1 (hmet "key" (by decide)) "simulator" _ rfl rfl 0 ⟨[], []⟩
    exact ⟨_, answer, later, rfl, hcalls⟩
  · exact hopened.2.2 _ (.inr ⟨hmet "key" (by decide), hmet "another key" (by decide)⟩)
  · exact (credential_opens (.braket none none rfl) rfl d (.modifiers (.empty 1))).2.2 _ (.inl rfl)

end Dispatcher

end CircuitBroker
