/-
  CircuitBroker/Service/Braket.lean
  =================================
  **The Amazon Braket service.**

  Programs go there as OpenQASM 3 text inside an action; the results of a task are left in
  a bucket, as counts, as rows of single measurements or as probabilities.
  `BraketClient.service` reaches the service over any transport.
-/
import CircuitBroker.Execution.Request
import CircuitBroker.Execution.Task
import CircuitBroker.Service.Http
import CircuitBroker.Text.Inspection
import CircuitBroker.Text.Letters

namespace CircuitBroker

inductive BraketFault where
  | missingBucket
  | badArn (arn : String)
  | refused (reason : String)
  | storage (reason : String)
  | taskNotFound (arn : String)
  | badResult (reason : String)
  | unreadable
  | machine (fault : MachineFault)
  deriving DecidableEq

namespace BraketFault

def title : BraketFault → String
  | missingBucket => "MissingS3Bucket"
  | badArn _ => "InvalidArn"
  | refused _ => "BraketApi"
  | storage _ => "S3Error"
  | taskNotFound _ => "TaskNotFound"
  | badResult _ => "ResultParseError"
  | unreadable => "JsonError"
  | machine _ => "MachineFault"

def message : BraketFault → String
  | missingBucket => "S3 bucket not configured for Braket task results"
  | badArn arn => "Invalid ARN: " ++ arn
  | refused reason => "Braket API error: " ++ reason
  | storage reason => "S3 error: " ++ reason
  | taskNotFound arn => "Task not found: " ++ arn
  | badResult reason => "Failed to parse task result: " ++ reason
  | unreadable => "JSON error"
  | machine fault => fault.message

def toFailure {R : Type} : BraketFault → Failure R
  | missingBucket => .missingCredential .braket "a storage bucket"
  | taskNotFound arn => .taskFailed arn "task not found"
  | badArn arn => .malformedRequest (.badArn arn)
  | unreadable => .unreadable
  | machine fault => .machine fault
  | fault => .service fault.message

end BraketFault

/-! ### Devices and tasks -/

namespace BraketDevice

def defaultRegion : String := "us-east-1"

/-- The full name of a device: that of a device known by a short name, in any case, or else
    the name itself. -/
def resolve (name : String) : String :=
  match Letters.lower name with
  | "rigetti" | "ankaa" | "ankaa-3" => "arn:aws:braket:us-west-1::device/qpu/rigetti/Ankaa-3"
  | "aria" | "aria-1" => "arn:aws:braket:us-east-1::device/qpu/ionq/Aria-1"
  | "forte" | "forte-1" => "arn:aws:braket:us-east-1::device/qpu/ionq/Forte-1"
  | "garnet" | "iqm-garnet" => "arn:aws:braket:eu-north-1::device/qpu/iqm/Garnet"
  | "sv1" => "arn:aws:braket:::device/quantum-simulator/amazon/sv1"
  | "tn1" => "arn:aws:braket:::device/quantum-simulator/amazon/tn1"
  | "dm1" => "arn:aws:braket:::device/quantum-simulator/amazon/dm1"
  | _ => name

def pieces (separator : Char) (s : String) : List String :=
  let rec go (piece : List Char) : List Char → List String
    | [] => [String.ofList piece.reverse]
    | c :: cs => if c = separator then String.ofList piece.reverse :: go [] cs else go (c :: piece) cs
  go [] s.toList

/-- The region a full name lies in: its fourth piece, unless that is empty. -/
def region? (arn : String) : Option String :=
  match (pieces ':' arn)[3]? with
  | some region => if region.isEmpty then none else some region
  | none => none

/-- The task a full name is about: what follows its last slash. -/
def taskId (arn : String) : Except BraketFault String :=
  match (pieces '/' arn).getLast? with
  | some id => if id.isEmpty || id == arn then .error (.badArn arn) else .ok id
  | none => .error (.badArn arn)

/-- Where the results of a task lie below a directory; slashes at its end do not count. -/
def resultKey (directory taskId : String) : String :=
  let directory := String.ofList ((directory.toList.reverse.dropWhile (· = '/')).reverse)
  if directory.isEmpty then taskId ++ "/results.json"
  else directory ++ "/" ++ taskId ++ "/results.json"

end BraketDevice

/-! ### Results -/

structure BraketResult (R : Type) where
  counts : Option (List (String × UInt64))
  probabilities : Option (List (String × R))
  /-- The single measurements, a row each; only a one counts as a one. -/
  measurements : Option (List (List Nat))
  measuredQubits : Option (List Nat)

namespace BraketResult

def onesOf (s : String) : List Bool :=
  s.toList.flatMap fun c => if c = '1' then [true] else List.replicate c.utf8Size false

def position (order : List Nat) (qubit : Nat) : Except BraketFault Nat :=
  match order.idxOf? qubit with
  | some p => .ok p
  | none => .error (.badResult ("qubit " ++ toString qubit ++ " was not measured"))

/-- The characters at some positions; a missing one counts as zero. -/
def select (positions : List Nat) (ones : List Bool) : String :=
  String.ofList (positions.map fun p => if ones.getD p false then '1' else '0')

/-- The counts of a result at the measured qubits.  Counts come before single measurements
    and these before probabilities; an order of qubits that is not given is that of the
    measured ones. -/
def decode [Build] {R : Type} [Zero R] [Add R] [Mul R] [Div R] [Magnitude R] [Share R]
    (result : BraketResult R) (measured : List Nat) (shots : Nat) : Except BraketFault Counts := do
  let order := result.measuredQubits.getD measured
  let positions ← measured.mapM (position order)
  match result.counts, result.measurements, result.probabilities with
  | some counts, _, _ =>
    let pairs := counts.map fun (key, n) => (select positions (onesOf key), n)
    let counts ← (Counts.ofPairs? pairs).mapError BraketFault.machine
    let total ← counts.total?.mapError BraketFault.machine
    if total = 0 then throw (.badResult "measurement counts are empty") else return counts
  | none, some rows, _ =>
    if rows.isEmpty then throw (.badResult "measurements are empty")
    else return .ofPairs (rows.map fun row => (select positions (row.map (· == 1)), 1))
  | none, none, some probabilities =>
    let weights := probabilities.foldl
      (fun weights (key, p) => Counts.addWeight (select positions (onesOf key)) p weights) []
    match Counts.apportion weights shots with
    | some counts => return counts
    | none => throw (.badResult "measurement probabilities sum to zero")
  | none, none, none => throw (.badResult "result has no counts, measurements or probabilities")

def ofJson? (j : Json) : Option (BraketResult Float) := do
  let field {α : Type} (read : Json → Option α) : Option Json → Option (Option α)
    | some j => j.orNull? read
    | none => some none
  match ← j.record? [["measurementCounts"], ["measurementProbabilities"], ["measurements"],
      ["measuredQubits"]] with
  | [counts, probabilities, measurements, measuredQubits] =>
    let counts ← field (Json.entries? fun j => (j.toNatBelow? wordSize).map (·.toUInt64)) counts
    let probabilities ← field (Json.entries? Json.toFloat?) probabilities
    let measurements ← field (Json.listOf? (Json.listOf? (Json.toNatBelow? 256))) measurements
    let measuredQubits ← field (Json.listOf? (Json.toNatBelow? UInt32.size)) measuredQubits
    some ⟨counts, probabilities, measurements, measuredQubits⟩
  | _ => none

end BraketResult

/-! ### The client -/

structure BraketClient where
  region : String
  storage : StorageLocation
  deriving DecidableEq, Inhabited

namespace BraketClient

def new (region : String) (storage : StorageLocation) : Except BraketFault BraketClient :=
  if storage.bucket.isEmpty then .error .missingBucket else .ok ⟨region, storage⟩

def inspect (c : BraketClient) : String :=
  Inspection.record "BraketClient"
    [("s3_bucket", Inspection.quote c.storage.bucket),
     ("s3_prefix", Inspection.quote c.storage.directory),
     ("region", Inspection.quote c.region), ("credentials", Inspection.redacted)]

def request (method path body : String) : HttpRequest := ⟨method, path, [], body⟩

def action (program : String) : Json :=
  .object [("braketSchemaHeader", .object
      [("name", .string "braket.ir.openqasm.program"), ("version", .string "1")]),
    ("source", .string program)]

def createRequest (c : BraketClient) (device program : String) (shots : Nat) : HttpRequest :=
  request "POST" "/quantum-task" (Json.compress (.object
    [("action", .string (action program).compress), ("deviceArn", .string device),
     ("outputS3Bucket", .string c.storage.bucket),
     ("outputS3KeyPrefix", .string c.storage.directory), ("shots", .ofNat shots)]))

/-- The address of a task; a task without a name has none. -/
def taskPath (arn : String) : Except BraketFault String :=
  if arn.isEmpty then .error (.refused "failed to construct request")
  else .ok ("/quantum-task/" ++ Http.percentEncode Http.isUnreserved arn)

def resultRequest (c : BraketClient) (arn : String) : Except BraketFault HttpRequest := do
  let id ← BraketDevice.taskId arn
  let key := Http.percentEncode (fun ch => ch = '/' || Http.isUnreserved ch)
    (BraketDevice.resultKey c.storage.directory id)
  return request "GET" ("/" ++ c.storage.bucket ++ "/" ++ key ++ "?x-id=GetObject") ""

/-- The status that a status name stands for; `reason` explains a failure. -/
def statusOf (name : String) (reason : Option String) : JobStatus :=
  match name with
  | "CREATED" | "QUEUED" => .queued
  | "RUNNING" | "CANCELLING" => .running
  | "COMPLETED" => .completed
  | "FAILED" => .failed (reason.getD "Unknown failure")
  | "CANCELLED" => .cancelled
  | other =>
    .failed ("Unknown status Unknown(UnknownVariantValue(" ++ Inspection.quote other ++ "))")

def readStatus (j : Json) : Option JobStatus := do
  let status ← (← j.field? "status").toString?
  some (statusOf status ((j.field? "failureReason").bind Json.toString?))

variable {σ : Type}

/-- Sends a request and reads the reply, which must be one of success. -/
def exchange {α : Type} (transport : Transport σ) (request : Except BraketFault HttpRequest)
    (fault : String → BraketFault) (read : HttpReply → Except BraketFault α) : Call σ α :=
  fun world =>
    match request with
    | .error f => (.error f.toFailure, world)
    | .ok request =>
      match transport request world with
      | (.ok reply, world) =>
        let answer := if reply.isSuccess then read reply else .error (fault "service error")
        (answer.mapError BraketFault.toFailure, world)
      | (.error _, world) => (.error (fault "dispatch failure").toFailure, world)

def accept {α : Type} (read : Json → Option α) (reply : HttpReply) : Except BraketFault α :=
  match reply.json?.bind read with
  | some a => .ok a
  | none => .error (.refused "unhandled error")

def service (c : BraketClient) (transport : Transport σ) : TaskService σ where
  create payload := fun world =>
    match payload.program with
    | .openQasm3 program =>
      exchange transport (.ok (c.createRequest payload.target program payload.shots)) .refused
        (accept fun j => (j.field? "quantumTaskArn").bind Json.toString?) world
    | .json _ => (.error (.malformedRequest (.onlyOpenQasm3 "Braket")), world)
  status arn :=
    exchange transport ((taskPath arn).map (request "GET" · "")) .refused (accept readStatus)
  result arn payload :=
    exchange transport (c.resultRequest arn) .storage fun reply =>
      match reply.json?.bind BraketResult.ofJson? with
      | some result => result.decode payload.measured payload.shots
      | none => .error .unreadable
  cancel arn :=
    exchange transport ((taskPath arn).map fun p => request "PUT" (p ++ "/cancel") "\x7b\x7d")
      .refused fun _ => .ok ()

end BraketClient

end CircuitBroker
