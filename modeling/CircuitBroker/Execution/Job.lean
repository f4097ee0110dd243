/-
  CircuitBroker/Execution/Job.lean
  ================================
  **Jobs: what is known of a submitted task.**

  A job starts queued and takes on whatever status is reported of it.  The time at which a
  status other than queued was first seen, and the time at which a terminal one was, are
  written down once and kept.
-/
import CircuitBroker.Backend
import CircuitBroker.Json
import CircuitBroker.Text.Timestamp

namespace CircuitBroker

inductive JobStatus where
  | queued
  | running
  | completed
  | failed (reason : String)
  | cancelled
  deriving DecidableEq, Inhabited

namespace JobStatus

def isTerminal : JobStatus → Bool
  | completed | failed _ | cancelled => true
  | queued | running => false

def isPending : JobStatus → Bool
  | queued | running => true
  | completed | failed _ | cancelled => false

def text : JobStatus → String
  | queued => "Queued"
  | running => "Running"
  | completed => "Completed"
  | failed reason => "Failed: " ++ reason
  | cancelled => "Cancelled"

def toJson : JobStatus → Json
  | queued => .string "Queued"
  | running => .string "Running"
  | completed => .string "Completed"
  | failed reason => .object [("Failed", .string reason)]
  | cancelled => .string "Cancelled"

end JobStatus

/-- A submitted task, as far as it has been observed. -/
structure Job where
  id : String
  status : JobStatus
  shots : Nat
  backend : Backend
  createdAt : Instant
  startedAt : Option Instant
  finishedAt : Option Instant
  polls : Nat
  deriving DecidableEq, Inhabited

namespace Job

def new (id : String) (backend : Backend) (shots : Nat) (now : Instant) : Job :=
  ⟨id, .queued, shots, backend, now, none, none, 0⟩

def withStatus (j : Job) (status : JobStatus) (now : Instant) : Job :=
  { j with
    status
    startedAt := if status = .queued then j.startedAt else j.startedAt <|> some now
    finishedAt := if status.isTerminal then j.finishedAt <|> some now else j.finishedAt }

def toJson (j : Job) : Json :=
  let time (name : String) (t : Option Instant) : List (String × Json) :=
    (t.map fun t => (name, Json.string t.text)).toList
  .object ([("id", .string j.id), ("status", j.status.toJson), ("shots", .ofNat j.shots),
    ("backend", .string j.backend.name), ("created_at", .string j.createdAt.text)] ++
    time "started_at" j.startedAt ++ time "finished_at" j.finishedAt ++
    [("polls", .ofNat j.polls)])

end Job

end CircuitBroker
