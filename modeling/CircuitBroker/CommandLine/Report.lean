/-
  CircuitBroker/CommandLine/Report.lean
  =====================================
  **What a person is shown.**

  Results are listed by bitstring, the first sixteen of them, each with its share of the
  shots and a bar of one block for two percent.  A comparison has a line for every
  execution, a list of gates a line for every gate.
-/
import CircuitBroker.Session.Comparison

namespace CircuitBroker.Report

/-! ### Columns -/

def blanks (n : Nat) : String := String.ofList (List.replicate n ' ')

def left (width : Nat) (s : String) : String := s ++ blanks (width - s.length)

def right (width : Nat) (s : String) : String := blanks (width - s.length) ++ s

/-! ### Results -/

def listed : Nat := 16

/-- A result: the bitstring, its count, and its share of `total` in percent. -/
def countLine (total : Float) (entry : String × UInt64) : String :=
  let percent := entry.2.toFloat / total * 100.0
  let bar := String.ofList (List.replicate (percent / 2.0).round.toUInt64.toNat '█')
  "  " ++ entry.1 ++ ": " ++ right 6 (toString entry.2.toNat) ++ " (" ++
    right 5 (Decimal.fixed 2 percent) ++ "%) " ++ bar

def resultLines (r : ExecutionResult) : List String :=
  let entries := r.counts.sorted
  let total := r.counts.total
  let total := (if total = 0 then 1 else total).toFloat
  let more :=
    if listed < entries.length then
      ["  ... and " ++ toString (entries.length - listed) ++ " more outcomes"]
    else []
  let job : List String := match r.job with
    | some job => ["", "  Task: " ++ job.id ++ " (" ++ toString job.polls ++ " polls)"]
    | none => []
  let time : List String := match r.elapsed with
    | some d => ["  Execution time: " ++ toString d.toMillis ++ " ms"]
    | none => []
  ["", "✓ Results (" ++ toString r.shots ++ " shots):"] ++
    (entries.take listed).map (countLine total) ++ more ++ job ++ time

/-! ### Comparisons -/

def mark (works : Bool) : String := if works then "●" else "○"

/-- The first four counts of a result, by bitstring. -/
def firstCounts (r : ExecutionResult) : String :=
  ", ".intercalate ((r.counts.sorted.take 4).map fun (bits, n) =>
    bits ++ ": " ++ toString n.toNat)

def outcomeLine (entry : String × Except ExecutionFailure ExecutionResult) : String :=
  let text := match entry.2 with
    | .ok r => firstCounts r
    | .error e => e.message
  "  " ++ mark entry.2.toOption.isSome ++ " " ++ left 16 entry.1 ++ " " ++ text

/-- A comparison as a document: a result, or the text of a failure, by key. -/
def comparisonJson (c : Comparison) : Json :=
  .object (c.sorted.map fun (key, outcome) =>
    (key, match outcome with
      | .ok r => .object [("ok", r.toJson)]
      | .error e => .object [("error", .string e.message)]))

/-! ### Gates -/

def layoutText : QubitLayout → String
  | .fixed n => toString n ++ " qubit" ++ (if n = 1 then "" else "s")
  | .controlled false => "controls, target"
  | .controlled true => "controls, target, ancillas"

def signatureText (s : Signature) : String :=
  if s.params.isEmpty then layoutText s.qubits
  else layoutText s.qubits ++ "; " ++ ", ".intercalate (s.params.map ParamKind.name)

def gateLine (mark : String) (g : Gate) : String :=
  "  " ++ mark ++ " " ++ left 16 g.name ++ " " ++ signatureText g.signature

end CircuitBroker.Report
