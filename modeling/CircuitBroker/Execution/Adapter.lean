/-
  CircuitBroker/Execution/Adapter.lean
  ====================================
  **Adapters: what a backend can do with a request.**

  An adapter translates circuits for its backend, says where a request is to run, and for a
  remote request gives the service and the payload.  Backends without a service run
  everything on the local simulator.  `Registry` holds at most one adapter per backend.
-/
import CircuitBroker.Execution.Request
import CircuitBroker.Native
import CircuitBroker.Service.Braket
import CircuitBroker.Service.Ibm
import CircuitBroker.Service.Ion

namespace CircuitBroker

inductive Route where
  | local
  | remote (target : String)
  deriving DecidableEq, Inhabited

/-- What a backend can do; its services change a world of type `σ`. -/
structure Adapter (σ : Type) where
  backend : Backend
  translate : Circuit Float → Except ExecutionFailure (Native Float)
  route : ExecutionRequest → Except ExecutionFailure Route
  connect : ExecutionRequest → Except ExecutionFailure (TaskService σ)
  payload : Native Float → ExecutionRequest → String → Except ExecutionFailure TaskPayload

namespace Adapter

variable {σ : Type}

/-- Simulators are local, and devices there are none. -/
def localOnly (backend : Backend) : Adapter σ where
  backend
  translate := Native.ofCircuit backend
  route request :=
    match request.target with
    | .simulator _ => .ok .local
    | .device name => .error (.unsupportedTarget backend name)
  connect request := .error (.unsupportedTarget backend request.target.text)
  payload _ _ target := .error (.unsupportedTarget backend target)

/-- Simulators are local; a device is reached under a name of the service's. -/
def routeDevices (nameOf : String → String) (request : ExecutionRequest) : Route :=
  match request.target with
  | .simulator _ => .local
  | .device name => .remote (nameOf name)

end Adapter

/-! ### IBM Quantum -/

structure IbmBackend (σ : Type) where
  endpoint : String
  standIn : Option (TaskService σ)

namespace IbmBackend

variable {σ : Type}

def default : IbmBackend σ := ⟨IbmClient.defaultEndpoint, none⟩

def tokenTitle : String := "an IBM Quantum API token"

def inspect (b : IbmBackend σ) : String :=
  Inspection.record "QiskitBackend"
    [("endpoint", Inspection.quote b.endpoint), ("task_api", Inspection.bool b.standIn.isSome)]

/-- The service for a request.  The token is asked for even when a service is given. -/
def connect (b : IbmBackend σ) (transport : Transport σ) (request : ExecutionRequest) :
    Except ExecutionFailure (TaskService σ) := do
  let token ← request.requireCredential tokenTitle
  match b.standIn with
  | some service => return service
  | none =>
    let client ← (IbmClient.new b.endpoint token.secret).mapError IbmFault.toFailure
    return client.service transport

/-- The payload of an assembly program, which must measure something. -/
def payload (native : Native Float) (request : ExecutionRequest) (target : String) :
    Except ExecutionFailure TaskPayload :=
  match native with
  | .assembly p =>
    if p.measuredQubits.isEmpty then .error (.malformedCircuit .noMeasurement)
    else .ok ⟨target, request.repetitions, .openQasm3 p.qasm3, p.numQubits, p.measuredQubits⟩
  | _ => .error (.malformedCircuit (.foreignProgram .qiskit))

def adapter (b : IbmBackend σ) (transport : Transport σ) : Adapter σ where
  backend := .qiskit
  translate := Native.ofCircuit .qiskit
  route request := .ok (Adapter.routeDevices (fun name => name) request)
  connect := b.connect transport
  payload

end IbmBackend

/-! ### IonQ -/

structure IonBackend (σ : Type) where
  endpoint : String
  standIn : Option (TaskService σ)

namespace IonBackend

variable {σ : Type}

def default : IonBackend σ := ⟨IonClient.defaultEndpoint, none⟩

def inspect (b : IonBackend σ) : String :=
  Inspection.record "IonqBackend"
    [("endpoint", Inspection.quote b.endpoint), ("task_api", Inspection.bool b.standIn.isSome)]

/-- Everything is remote; the simulator of the service stands in for the default one. -/
def route (request : ExecutionRequest) : Route :=
  .remote (if request.target.isDefault then "simulator" else request.target.name)

def connect (b : IonBackend σ) (transport : Transport σ) (request : ExecutionRequest) :
    Except ExecutionFailure (TaskService σ) := do
  let key ← request.requireCredential IonFault.keyTitle
  match b.standIn with
  | some service => return service
  | none =>
    let client ← (IonClient.new b.endpoint key.secret).mapError IonFault.toFailure
    return client.service transport

def payload (native : Native Float) (request : ExecutionRequest) (target : String) :
    Except ExecutionFailure TaskPayload :=
  match native with
  | .ion c => do
    let document ← c.document
    return ⟨target, request.repetitions, .json document.toJson, c.inner.numQubits,
      c.measuredQubits⟩
  | _ => .error (.malformedCircuit (.foreignProgram .ionq))

def adapter (b : IonBackend σ) (transport : Transport σ) : Adapter σ where
  backend := .ionq
  translate := Native.ofCircuit .ionq
  route request := .ok (route request)
  connect := b.connect transport
  payload

end IonBackend

/-! ### Braket -/

structure BraketBackend (σ : Type) where
  region : Option String
  /-- The region of the surroundings, the last to be asked. -/
  surroundings : Option String
  standIn : Option (TaskService σ)

namespace BraketBackend

variable {σ : Type}

def default : BraketBackend σ := ⟨none, none, none⟩

def inspect (b : BraketBackend σ) : String :=
  Inspection.record "BraketBackend"
    [("region", Inspection.optional Inspection.quote b.region),
     ("task_api", Inspection.bool b.standIn.isSome)]

def regionFor (b : BraketBackend σ) (device : String) : String :=
  (b.region <|> BraketDevice.region? device <|> b.surroundings).getD BraketDevice.defaultRegion

def connect (b : BraketBackend σ) (transport : Transport σ) (request : ExecutionRequest) :
    Except ExecutionFailure (TaskService σ) := do
  let storage ← request.requireStorage
  match b.standIn with
  | some service => return service
  | none =>
    let region := b.regionFor (BraketDevice.resolve request.target.name)
    let client ← (BraketClient.new region storage).mapError BraketFault.toFailure
    return client.service transport

def payload (native : Native Float) (request : ExecutionRequest) (target : String) :
    Except ExecutionFailure TaskPayload :=
  match native with
  | .modifiers p =>
    .ok ⟨target, request.repetitions, .openQasm3 p.text, p.numQubits, p.measuredQubits⟩
  | _ => .error (.malformedCircuit (.foreignProgram .braket))

def adapter (b : BraketBackend σ) (transport : Transport σ) : Adapter σ where
  backend := .braket
  translate := Native.ofCircuit .braket
  route request := .ok (Adapter.routeDevices BraketDevice.resolve request)
  connect := b.connect transport
  payload

end BraketBackend

/-! ### The registry -/

/-- The adapters at hand, at most one per backend. -/
structure Registry (σ : Type) where
  adapters : List (Adapter σ)

namespace Registry

variable {σ : Type}

def empty : Registry σ := ⟨[]⟩

/-- The registry with an adapter; one of the same backend gives way. -/
def register (r : Registry σ) (a : Adapter σ) : Registry σ :=
  ⟨a :: r.adapters.filter (·.backend ≠ a.backend)⟩

def find? (r : Registry σ) (backend : Backend) : Option (Adapter σ) :=
  r.adapters.find? (·.backend = backend)

def has (r : Registry σ) (backend : Backend) : Bool := (r.find? backend).isSome

def get (r : Registry σ) (backend : Backend) : Except ExecutionFailure (Adapter σ) :=
  match r.find? backend with
  | some a => .ok a
  | none => .error (.unavailable (.notRegistered backend))

def available (r : Registry σ) : List Backend := Backend.all.filter r.has

def inspect (r : Registry σ) : String :=
  Inspection.record "BackendRegistry" [("backends", Inspection.list (r.available.map Backend.title))]

def defaultAdapter (transport : Transport σ) (surroundings : Option String) : Backend → Adapter σ
  | .qiskit => IbmBackend.default.adapter transport
  | .cirq => Adapter.localOnly .cirq
  | .ionq => IonBackend.default.adapter transport
  | .braket => { BraketBackend.default with surroundings }.adapter transport
  | .qsharp => Adapter.localOnly .qsharp

def full (transport : Transport σ) (surroundings : Option String) : Registry σ :=
  (Backend.all.map (defaultAdapter transport surroundings)).foldl register empty

end Registry

end CircuitBroker
