/-
  CircuitBroker/Service/Script.lean
  =================================
  **A service that follows a script.**

  The script says what each call answers; a list of statuses is gone through once, and a
  task whose list is used up keeps running.  Every call is written down.
-/
import CircuitBroker.Execution.Result
import CircuitBroker.Execution.Task
import CircuitBroker.Json.Field

namespace CircuitBroker

inductive ServiceCall where
  | create (payload : TaskPayload)
  | status (id : String)
  | result (id : String)
  | cancel (id : String)

/-- What a service answers: an error is the text of a failed call. -/
structure ServiceScript where
  create : Except String String
  result : Except String (Option Counts)
  cancel : Except String Unit

/-- The statuses still to come and the calls made so far, the last one first. -/
structure ScriptState where
  statuses : List (Except String JobStatus)
  calls : List ServiceCall

namespace ServiceScript

def zeros (payload : TaskPayload) : Counts :=
  .ofPairs [(String.ofList (payload.measured.map fun _ => '0'), payload.shots.toUInt64)]

def recorded {α : Type} (call : ServiceCall) (answer : Except String α) : Call ScriptState α :=
  fun s => (answer.mapError .service, { s with calls := call :: s.calls })

def service (script : ServiceScript) : TaskService ScriptState where
  create payload := recorded (.create payload) script.create
  status id := fun s =>
    match s.statuses with
    | [] => recorded (.status id) (.ok .running) s
    | status :: rest => recorded (.status id) status { s with statuses := rest }
  result id payload :=
    recorded (.result id) (script.result.map fun counts => counts.getD (zeros payload))
  cancel id := recorded (.cancel id) script.cancel

theorem service_status (script : ServiceScript) (id : String) (s : ScriptState) :
    script.service.status id s = ((s.statuses.head?.getD (.ok .running)).mapError .service,
      ⟨s.statuses.tail, .status id :: s.calls⟩) := by
  obtain ⟨statuses, calls⟩ := s
  cases statuses <;> rfl

/-! ### Scripts as documents -/

/-- An answer of a script: a text for a failed call, under the name `error`, or something
    else. -/
def answer? {α : Type} (read : Json → α) (j : Json) : Except String α :=
  match j.strAt? "error" with
  | some text => .error text
  | none => .ok (read j)

def status? (j : Json) : Option (Except String JobStatus) :=
  match j with
  | .string "queued" => some (.ok .queued)
  | .string "running" => some (.ok .running)
  | .string "completed" => some (.ok .completed)
  | .string "cancelled" => some (.ok .cancelled)
  | .object [("failed", .string reason)] => some (.ok (.failed reason))
  | .object [("error", .string text)] => some (.error text)
  | _ => none

/-- The script of a document, nothing called yet.  What is left out succeeds. -/
def ofJson (j : Json) : ServiceScript × ScriptState where
  fst :=
    { create := answer? (fun _ => (j.strAt? "id").getD "task-1") (j.sub "create")
      result := answer? (fun _ => (j.at? "result").map Counts.ofJsonPairs) (j.sub "result")
      cancel := answer? (fun _ => ()) (j.sub "cancel") }
  snd := ⟨(j.listAt "statuses").filterMap status?, []⟩

end ServiceScript

end CircuitBroker
