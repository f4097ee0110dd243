/-
  CircuitBroker/Service/Ibm.lean
  ==============================
  **The IBM Quantum service.**

  Programs go there as OpenQASM 3 text; an outcome comes back as a hexadecimal number.
  `IbmClient.service` reaches the service over any transport.
-/
import CircuitBroker.Execution.Task
import CircuitBroker.Service.Http
import CircuitBroker.Service.Sample
import CircuitBroker.Text.Inspection
import CircuitBroker.Text.Letters

namespace CircuitBroker

inductive IbmFault where
  | missingToken
  | invalidToken
  | noReply (reason : String)
  | refused (code : Option String) (message : String)
  | jobNotFound (id : String)
  | jobFailed (id reason : String)
  | noSamples (id : String)
  | badResult (reason : String)
  | unreadable
  deriving DecidableEq

namespace IbmFault

def title : IbmFault → String
  | missingToken => "MissingToken"
  | invalidToken => "InvalidToken"
  | noReply _ => "HttpError"
  | refused .. => "ApiError"
  | jobNotFound _ => "JobNotFound"
  | jobFailed .. => "JobFailed"
  | noSamples _ => "EmptyResult"
  | badResult _ => "ResultParse"
  | unreadable => "JsonError"

def message : IbmFault → String
  | missingToken => "IBM Quantum API token not supplied"
  | invalidToken => "Invalid IBM Quantum API token"
  | noReply reason => "HTTP request failed: " ++ reason
  | refused _ message => "IBM Quantum API error: " ++ message
  | jobNotFound id => "Job not found: " ++ id
  | jobFailed id reason => "Job " ++ id ++ " failed: " ++ reason
  | noSamples id => "Job " ++ id ++ " returned no samples"
  | badResult reason => "Failed to parse job result: " ++ reason
  | unreadable => "JSON error"

def toFailure {R : Type} : IbmFault → Failure R
  | missingToken => .missingCredential .qiskit "an IBM Quantum API token"
  | jobFailed id reason => .taskFailed id reason
  | jobNotFound id => .taskFailed id "job not found"
  | unreadable => .unreadable
  | fault => .service fault.message

end IbmFault

/-- The counts of samples: each is a hexadecimal number and counts once. -/
def decodeSamples (samples : List String) (measured : List Nat) : Except IbmFault Counts :=
  if samples.isEmpty then .error (.badResult "no samples")
  else
    samples.foldlM
      (fun counts sample =>
        match Sample.readHex? sample with
        | some n => .ok (counts.insert (Sample.bitstring measured n) 1)
        | none => .error (.badResult ("sample '" ++ sample ++ "' is not hex")))
      Counts.empty

structure IbmClient where
  endpoint : String
  token : String
  deriving DecidableEq, Inhabited

namespace IbmClient

def defaultEndpoint : String := "https://quantum.cloud.ibm.com/api"

def new (endpoint token : String) : Except IbmFault IbmClient :=
  if token.isEmpty then .error .missingToken
  else if !Http.isHeaderText token then .error .invalidToken
  else .ok ⟨endpoint, token⟩

def inspect (c : IbmClient) : String :=
  Inspection.record "IbmClient"
    [("endpoint", Inspection.quote c.endpoint), ("token", Inspection.redacted)]

/-! ### Requests -/

def request (c : IbmClient) (method path body : String) : HttpRequest :=
  ⟨method, Http.requestTarget (c.endpoint ++ path),
    [("accept", "application/json"), ("authorization", "Bearer " ++ c.token),
     ("content-type", "application/json"), ("user-agent", "qcat/0.4.0")], body⟩

def createRequest (c : IbmClient) (target program : String) (shots : Nat) : HttpRequest :=
  c.request "POST" "/v1/jobs" (Json.compress (.object
    [("program_id", .string "sampler"), ("backend", .string target),
     ("params", .object [("version", .ofNat 2),
       ("pubs", .array [.array [.string program, .object [], .ofNat shots]])])]))

/-! ### Replies -/

def refusal (reply : HttpReply) : IbmFault :=
  let body? : Option (Option String × String) := do
    match ← (← reply.json?).record? [["code"], ["message"]] with
    | [code, some message] =>
      let code ← match code with
        | some j => j.orNull? Json.toString?
        | none => some none
      some (code, ← message.toString?)
    | _ => none
  match body? with
  | some (code, message) => .refused code message
  | none => .refused none ("HTTP " ++ HttpReply.statusText reply.status)

def accept {α : Type} (reply : HttpReply) (read : Json → Option α) : Except IbmFault α :=
  match reply.json?.bind read with
  | some a => .ok a
  | none => .error (.noReply "error decoding response body")

def readId (j : Json) : Option String := do
  match ← j.record? [["id"]] with
  | [some id] => id.toString?
  | _ => none

/-- The status that a status name stands for, in any case; `reason` explains a failure. -/
def statusOf (name : String) (reason : Option String) : JobStatus :=
  match Letters.upper name with
  | "COMPLETED" | "DONE" => .completed
  | "FAILED" | "ERROR" => .failed (reason.getD name)
  | "CANCELLED" => .cancelled
  | "QUEUED" | "INITIALIZING" | "VALIDATING" => .queued
  | _ => .running

def readStatus (j : Json) : Option JobStatus := do
  match ← j.record? [["id"], ["status"], ["state"]] with
  | [some id, some status, state] =>
    let _ ← id.toString?
    let status ← status.toString?
    let readState (j : Json) : Option (Option String) := do
      match ← j.record? [["reason"]] with
      | [some reason] => reason.orNull? Json.toString?
      | _ => some none
    let state ← match state with
      | some j => j.orNull? readState
      | none => some none
    some (statusOf status state.join)
  | _ => none

/-- The samples of a job: of its first result, the register `c` or else any other. -/
def readSamples (j : Json) : Option (Option (List String)) := do
  let readRegister (j : Json) : Option (List String) := do
    match ← j.record? [["samples"]] with
    | [some samples] => samples.listOf? Json.toString?
    | _ => none
  let readResult (j : Json) : Option (Option (List (String × List String))) := do
    match ← j.record? [["data"]] with
    | [some data] => data.orNull? (Json.entries? readRegister)
    | _ => some none
  match ← j.record? [["results"]] with
  | [some results] =>
    let results ← results.listOf? readResult
    let registers := (results.head?.join).getD []
    some ((registers.find? (·.1 == "c") <|> registers.head?).map (·.2))
  | _ => none

/-! ### The service -/

variable {σ : Type}

def exchange {α : Type} (transport : Transport σ) (request : HttpRequest)
    (read : HttpReply → Except IbmFault α) : Call σ α := fun world =>
  match transport request world with
  | (.ok reply, world) => ((read reply).mapError IbmFault.toFailure, world)
  | (.error reason, world) => (.error (IbmFault.noReply reason).toFailure, world)

/-- A reply about a job, which may be unknown. -/
def readAbout {α : Type} (id : String) (read : Json → Option α) (reply : HttpReply) :
    Except IbmFault α :=
  if reply.isSuccess then accept reply read
  else if reply.status = 404 then .error (.jobNotFound id)
  else .error (refusal reply)

def service (c : IbmClient) (transport : Transport σ) : TaskService σ where
  create payload := fun world =>
    match payload.program with
    | .openQasm3 program =>
      exchange transport (c.createRequest payload.target program payload.shots)
        (fun reply => if reply.isSuccess then accept reply readId else .error (refusal reply))
        world
    | .json _ => (.error (.malformedRequest (.onlyOpenQasm3 "IBM Quantum")), world)
  status id := exchange transport (c.request "GET" ("/v1/jobs/" ++ id) "") (readAbout id readStatus)
  result id payload :=
    exchange transport (c.request "GET" ("/v1/jobs/" ++ id ++ "/results") "") fun reply => do
      match ← readAbout id readSamples reply with
      | some samples => decodeSamples samples payload.measured
      | none => throw (.noSamples id)
  cancel id :=
    exchange transport (c.request "POST" ("/v1/jobs/" ++ id ++ "/cancel") "") fun reply =>
      if reply.isSuccess then .ok () else .error (refusal reply)

end IbmClient

end CircuitBroker
