/-
  CircuitBroker/Execution/Request.lean
  ====================================
  **What is asked of a backend.**

  A request names a backend and a target there, says how often to run the circuit, and
  carries what a remote service needs: a credential, a place for results, and the times of
  polling.  `inspect` never shows the credential.
-/
import CircuitBroker.Failure
import CircuitBroker.Text.Inspection

namespace CircuitBroker

inductive Target where
  | simulator (name : String)
  | device (name : String)
  deriving DecidableEq, Inhabited

namespace Target

def name : Target → String
  | .simulator n => n
  | .device n => n

def default : Target := .simulator "default"

def isDefault (t : Target) : Bool := t == default

def text : Target → String
  | .simulator n => "simulator:" ++ n
  | .device n => "device:" ++ n

def inspect : Target → String
  | .simulator n => Inspection.tagged "Simulator" (Inspection.quote n)
  | .device n => Inspection.tagged "Device" (Inspection.quote n)

end Target

structure StorageLocation where
  bucket : String
  directory : String
  deriving DecidableEq, Inhabited

def StorageLocation.inspect (s : StorageLocation) : String :=
  Inspection.record "StorageLocation"
    [("bucket", Inspection.quote s.bucket), ("directory", Inspection.quote s.directory)]

structure Credential where
  secret : String
  deriving DecidableEq, Inhabited

/-- A credential is shown without its secret. -/
def Credential.inspect (_ : Credential) : String := "Credentials([REDACTED])"

structure ExecutionRequest where
  backend : Backend
  target : Target
  repetitions : Nat
  credential : Option Credential
  storage : Option StorageLocation
  pollTimeout : Duration
  pollInterval : Duration
  deriving DecidableEq, Inhabited

namespace ExecutionRequest

/-- The request that asks for nothing in particular: 1024 repetitions on the default
    simulator, polled every ten seconds for a hundred. -/
def new (backend : Backend) : ExecutionRequest where
  backend
  target := Target.default
  repetitions := 1024
  credential := none
  storage := none
  pollTimeout := .ofSeconds 100
  pollInterval := .ofSeconds 10

/-- The credential of a request, which must not be empty; `title` says what is missing
    otherwise. -/
def requireCredential {R : Type} (r : ExecutionRequest) (title : String) :
    Except (Failure R) Credential :=
  match r.credential with
  | some c => if c.secret.isEmpty then .error (.missingCredential r.backend title) else .ok c
  | none => .error (.missingCredential r.backend title)

/-- The storage of a request, whose bucket must have a name. -/
def requireStorage {R : Type} (r : ExecutionRequest) : Except (Failure R) StorageLocation :=
  let missing : Except (Failure R) StorageLocation :=
    .error (.missingCredential r.backend "a storage bucket")
  match r.storage with
  | some s => if s.bucket.isEmpty then missing else .ok s
  | none => missing

def validate {R : Type} (r : ExecutionRequest) : Except (Failure R) Unit :=
  if r.repetitions = 0 then .error (.malformedRequest .noRepetitions)
  else if r.pollInterval = 0 ∨ r.pollTimeout = 0 then .error (.malformedRequest .noPollTime)
  else .ok ()

def inspect (r : ExecutionRequest) : String :=
  Inspection.record "ExecutionRequest"
    [("backend", r.backend.title), ("target", r.target.inspect),
     ("repetitions", toString r.repetitions),
     ("credentials", Inspection.optional Credential.inspect r.credential),
     ("storage", Inspection.optional StorageLocation.inspect r.storage),
     ("poll_timeout", r.pollTimeout.text), ("poll_interval", r.pollInterval.text)]

end ExecutionRequest

end CircuitBroker
