/-
  CircuitBroker/Session.lean
  ==========================
  **A circuit that is built once and run anywhere.**

  A session holds a circuit, the selected backend, the adapters and the simulator.  It
  remembers its last translation: as long as the backend and the number of operations are
  the same, the log is the same, and the translation is used again (`Session.convert`).
-/
import CircuitBroker.Execution.Schedule
import CircuitBroker.Settings

namespace CircuitBroker

/-- A translation with what it is a translation of. -/
structure CachedTranslation where
  backend : Backend
  operations : Nat
  native : Native Float

/-- A circuit with all that is needed to run it. -/
structure Session (σ : Type) where
  circuit : Circuit Float
  backend : Backend
  registry : Registry σ
  dispatcher : Dispatcher
  cache : Option CachedTranslation
  /-- The number of translations that were made. -/
  translations : Nat

namespace Session

variable {σ : Type}

def ofCircuit (registry : Registry σ) (simulator : Simulator) (circuit : Circuit Float) :
    Session σ :=
  ⟨circuit, Settings.defaultBackend, registry, ⟨simulator⟩, none, 0⟩

def withBackend (s : Session σ) (backend : Backend) : Session σ := { s with backend }

/-- The session with other adapters, which may translate in another way. -/
def withRegistry (s : Session σ) (registry : Registry σ) : Session σ :=
  { s with registry, cache := none }

def withSimulator (s : Session σ) (simulator : Simulator) : Session σ :=
  { s with dispatcher := ⟨simulator⟩ }

/-- The session with the backend and the simulator of some settings; `chance` is the
    simulator's seed if none is set. -/
def configured (s : Session σ) (settings : Settings) (chance : UInt64) : Session σ :=
  (s.withBackend settings.backend).withSimulator (settings.simulator.simulator chance)

/-! ### Building -/

def append (s : Session σ) (op : Operation Float) : Except (CircuitFault Float) (Session σ) :=
  (s.circuit.push op).map fun circuit => { s with circuit }

/-- Operations recorded one after the other, up to the first that is refused; those before
    it stay. -/
def appendAll : List (Operation Float) → Session σ → Except (CircuitFault Float) Unit × Session σ
  | [], s => (.ok (), s)
  | op :: ops, s =>
    match s.append op with
    | .ok s => appendAll ops s
    | .error fault => (.error fault, s)

/-! ### Translating -/

/-- The translation for the selected backend that is remembered, if it is still good. -/
def cached? (s : Session σ) : Option (Native Float) :=
  match s.cache with
  | some c =>
    if c.backend = s.backend ∧ c.operations = s.circuit.size then some c.native else none
  | none => none

/-- The circuit in the form of a backend, which becomes the selected one. -/
def convert (s : Session σ) (backend : Backend) :
    Except ExecutionFailure (Native Float) × Session σ :=
  let s := s.withBackend backend
  match s.cached? with
  | some native => (.ok native, s)
  | none =>
    match (s.registry.get backend).bind (·.translate s.circuit) with
    | .error e => (.error e, s)
    | .ok native =>
      (.ok native,
        { s with
          cache := some ⟨backend, s.circuit.size, native⟩
          translations := s.translations + 1 })

def drawFor (s : Session σ) (backend : Backend) : Except ExecutionFailure String × Session σ :=
  let (native, s) := s.convert backend
  (native.bind fun native => native.text.mapError .machine, s)

def draw (s : Session σ) : Except ExecutionFailure String × Session σ := s.drawFor s.backend

/-! ### Running -/

def prepare (s : Session σ) (request : ExecutionRequest) :
    Except ExecutionFailure (Adapter σ × Native Float × ExecutionRequest) × Session σ :=
  let (native, s) := s.convert request.backend
  let prepared := do
    let native ← native
    return (← s.registry.get request.backend, native, request)
  (prepared, s)

def execute (s : Session σ) (request : ExecutionRequest) (now : Instant) (world : σ) :
    Except ExecutionFailure ExecutionResult × Session σ × Instant × σ :=
  match s.prepare request with
  | (.error e, s) => (.error e, s, now, world)
  | (.ok (adapter, native, request), s) =>
    let (outcome, now, world) := s.dispatcher.execute adapter native request now world
    (outcome, s, now, world)

def inspect (s : Session σ) : String :=
  Inspection.record "QCircuit"
    [("num_qubits", toString s.circuit.numQubits), ("operations", toString s.circuit.size),
     ("backend", s.backend.title), ("translations", toString s.translations)]

end Session

end CircuitBroker
