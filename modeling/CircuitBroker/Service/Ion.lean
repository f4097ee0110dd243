/-
  CircuitBroker/Service/Ion.lean
  ==============================
  **The IonQ service.**

  Circuits go there as JSON documents; the outcomes come back as a histogram of
  probabilities over decimal numbers.  `IonClient.service` reaches the service over any
  transport.
-/
import CircuitBroker.Execution.Task
import CircuitBroker.Service.Http
import CircuitBroker.Service.Sample
import CircuitBroker.Text.Inspection

namespace CircuitBroker

inductive IonFault where
  | missingKey
  | invalidKey
  | noReply (reason : String)
  | refused (status : Nat) (message : String)
  | jobNotFound (id : String)
  | badKey (key : String)
  | emptyHistogram
  | unreadable
  deriving DecidableEq

namespace IonFault

def keyTitle : String := "an IonQ API key"

def title : IonFault → String
  | missingKey => "MissingApiKey"
  | invalidKey => "InvalidApiKey"
  | noReply _ => "HttpError"
  | refused .. => "ApiError"
  | jobNotFound _ => "JobNotFound"
  | badKey _ => "InvalidHistogram"
  | emptyHistogram => "EmptyHistogram"
  | unreadable => "JsonError"

def message : IonFault → String
  | missingKey => "IonQ API key not supplied"
  | invalidKey => "Invalid IonQ API key"
  | noReply reason => "HTTP request failed: " ++ reason
  | refused status message => "IonQ API error (" ++ toString status ++ "): " ++ message
  | jobNotFound id => "Job not found: " ++ id
  | badKey key => "Invalid histogram key '" ++ key ++ "'"
  | emptyHistogram => "IonQ histogram is empty or sums to zero"
  | unreadable => "JSON error"

def toFailure {R : Type} : IonFault → Failure R
  | missingKey => .missingCredential .ionq keyTitle
  | jobNotFound id => .taskFailed id "job not found"
  | unreadable => .unreadable
  | fault => .service fault.message

end IonFault

/-- The counts of a histogram: its keys are decimal numbers, and the shots are divided by
    the probabilities of what they leave of the measured qubits. -/
def decodeHistogram {R : Type} [Zero R] [Add R] [Mul R] [Div R] [Magnitude R] [Share R]
    (histogram : List (String × R)) (measured : List Nat) (shots : Nat) :
    Except IonFault Counts := do
  let weights ← histogram.foldlM
    (fun weights (key, probability) =>
      match Sample.read? 10 key with
      | some n => Except.ok (Counts.addWeight (Sample.bitstring measured n) probability weights)
      | none => .error (.badKey key))
    []
  match Counts.apportion weights shots with
  | some counts => return counts
  | none => throw .emptyHistogram

structure IonClient where
  endpoint : String
  key : String
  deriving DecidableEq, Inhabited

namespace IonClient

def defaultEndpoint : String := "https://api.ionq.co/v0.3"

def new (endpoint key : String) : Except IonFault IonClient :=
  if key.isEmpty then .error .missingKey
  else if !Http.isHeaderText key then .error .invalidKey
  else .ok ⟨endpoint, key⟩

def inspect (c : IonClient) : String :=
  Inspection.record "IonqClient"
    [("endpoint", Inspection.quote c.endpoint), ("api_key", Inspection.redacted)]

/-! ### Requests -/

def request (c : IonClient) (method path body : String) : HttpRequest :=
  ⟨method, Http.requestTarget (c.endpoint ++ path),
    [("accept", "*/*"), ("authorization", "apiKey " ++ c.key),
     ("content-type", "application/json"), ("user-agent", "qcat/0.4.0")], body⟩

def createRequest (c : IonClient) (target : String) (input : Json) (shots : Nat) : HttpRequest :=
  c.request "POST" "/jobs" (Json.compress (.object
    [("target", .string target), ("shots", .ofNat shots), ("input", input.sorted)]))

/-! ### Replies -/

def refusal (reply : HttpReply) : IonFault :=
  let message? : Option String := do
    match ← (← reply.json?).record? [["error"]] with
    | [some error] =>
      match ← error.record? [["message"]] with
      | [some message] => message.toString?
      | _ => none
    | _ => none
  .refused reply.status (message?.getD ("HTTP " ++ toString reply.status))

def accept {α : Type} (reply : HttpReply) (read : Json → Option α) : Except IonFault α :=
  match reply.json?.bind read with
  | some a => .ok a
  | none => .error (.noReply "error decoding response body")

def readId (j : Json) : Option String := do
  match ← j.record? [["id"]] with
  | [some id] => id.toString?
  | _ => none

def statusOf (name : String) (reason : Option String) : JobStatus :=
  match name with
  | "completed" => .completed
  | "failed" => .failed (reason.getD "failed")
  | "canceled" | "cancelled" => .cancelled
  | "ready" | "submitted" => .queued
  | _ => .running

def readStatus (j : Json) : Option JobStatus := do
  match ← j.record? [["id"], ["status"], ["failure"]] with
  | [some id, some status, failure] =>
    let _ ← id.toString?
    let status ← status.toString?
    let text (field : Option Json) : Option (Option String) :=
      match field with
      | some j => j.orNull? Json.toString?
      | none => some none
    let readFailure (j : Json) : Option (Option String) := do
      match ← j.record? [["error"], ["code"]] with
      | [error, code] =>
        let error ← text error
        let code ← text code
        some (error <|> code)
      | _ => none
    let failure ← match failure with
      | some j => j.orNull? readFailure
      | none => some none
    some (statusOf status failure.join)
  | _ => none

def readHistogram (j : Json) : Option (List (String × Float)) := j.entries? Json.toFloat?

/-! ### The service -/

variable {σ : Type}

def exchange {α : Type} (transport : Transport σ) (request : HttpRequest)
    (read : HttpReply → Except IonFault α) : Call σ α := fun world =>
  match transport request world with
  | (.ok reply, world) => ((read reply).mapError IonFault.toFailure, world)
  | (.error reason, world) => (.error (IonFault.noReply reason).toFailure, world)

def readAbout {α : Type} (id : String) (read : Json → Option α) (reply : HttpReply) :
    Except IonFault α :=
  if reply.status = 404 then .error (.jobNotFound id)
  else if reply.isSuccess then accept reply read
  else .error (refusal reply)

def service (c : IonClient) (transport : Transport σ) : TaskService σ where
  create payload := fun world =>
    match payload.program with
    | .json input =>
      exchange transport (c.createRequest payload.target input payload.shots)
        (fun reply => if reply.isSuccess then accept reply readId else .error (refusal reply))
        world
    | .openQasm3 _ => (.error (.malformedRequest (.onlyJson "IonQ")), world)
  status id := exchange transport (c.request "GET" ("/jobs/" ++ id) "") (readAbout id readStatus)
  result id payload :=
    exchange transport (c.request "GET" ("/jobs/" ++ id ++ "/results") "") fun reply => do
      let histogram ← readAbout id readHistogram reply
      decodeHistogram histogram payload.measured payload.shots
  cancel id :=
    exchange transport (c.request "PUT" ("/jobs/" ++ id ++ "/status/cancel") "") fun reply =>
      if reply.isSuccess then .ok () else .error (refusal reply)

end IonClient

end CircuitBroker
