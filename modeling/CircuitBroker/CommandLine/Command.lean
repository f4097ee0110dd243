/-
  CircuitBroker/CommandLine/Command.lean
  ======================================
  **Commands and what they do.**

  A command runs a circuit, draws it, compares it on several backends or lists the gates.
  It gives the text it prints and, if it fails, a `CommandFault`: what was attempted, with
  the cause (`CommandFault.messages`).  What was printed before a failure stays printed.
-/
import CircuitBroker.Circuit.Document
import CircuitBroker.CommandLine.Report
import CircuitBroker.Json.Printer
import CircuitBroker.Settings.Document

namespace CircuitBroker

inductive Command where
  | run (input : String) (backend : Option String) (overrides : Overrides) (json : Bool)
  | draw (input : String) (backend : Option String)
  | compare (input : String) (backends : List String) (json : Bool)
  | gates (backend : Option String)
  deriving DecidableEq, Inhabited

/-! ### Faults -/

inductive CommandFault where
  | settings (fault : SettingsFault)
  /-- A name of a backend, and the form in which it was looked up. -/
  | unknownBackend (name key : String)
  | noFile (path : String)
  | notJson (extension : String)
  | unreadable (path : String) (fault : FileFault)
  | badCircuit (path : String) (fault : DocumentFault)
  | untranslatable (path : String) (backend : Backend) (failure : ExecutionFailure)
  | execution (key : String) (failure : ExecutionFailure)
  | everyBackend
  | other (failure : ExecutionFailure)

def DocumentFault.message : DocumentFault → String
  | .malformed => "the text does not hold a circuit"
  | .refused fault => fault.message

namespace CommandFault

/-- What failed, then its cause if it has one. -/
def messages : CommandFault → List String
  | settings fault => [fault.message]
  | unknownBackend name key =>
    ["Unknown backend '" ++ name ++ "'",
     (Failure.unavailable (.unknown key) : ExecutionFailure).message]
  | noFile path => ["File not found: " ++ path]
  | notJson extension =>
    ["Unsupported input format '" ++ extension ++ "': circuits are read from .json files"]
  | unreadable path fault => ["Failed to read file: " ++ path, fault.message]
  | badCircuit path fault => ["Invalid circuit in " ++ path, fault.message]
  | untranslatable path backend failure =>
    ["Cannot translate " ++ path ++ " for " ++ backend.name, failure.message]
  | execution key failure => ["Execution on " ++ key ++ " failed", failure.message]
  | everyBackend => ["Every backend failed"]
  | other failure => [failure.message]

end CommandFault

/-- What a command printed, and why it failed if it did. -/
structure CommandReport where
  output : String
  fault : Option CommandFault

namespace CommandReport

def failed (fault : CommandFault) : CommandReport := ⟨"", some fault⟩

def ofLines (lines : List String) (fault : Option CommandFault) : CommandReport :=
  ⟨String.join (lines.map (· ++ "\n")), fault⟩

end CommandReport

/-! ### Files -/

/-- The last part of a path, unless it leads upwards. -/
def fileName (path : String) : String :=
  let parts := (path.splitOn "/").filter fun p => p ≠ "" ∧ p ≠ "."
  match parts.getLast? with
  | some name => if name = ".." then "" else name
  | none => ""

/-- What follows the last dot of a file's name; a dot at its start does not count. -/
def extension (path : String) : String :=
  let reversed := (fileName path).toList.reverse
  match reversed.dropWhile (· ≠ '.') with
  | '.' :: _ :: _ => String.ofList (reversed.takeWhile (· ≠ '.')).reverse
  | _ => ""

def loadCircuit (w : Surroundings) (path : String) : Except CommandFault (Circuit Float) := do
  let view := w.file path
  unless FileView.present view do throw (.noFile path)
  let kind := extension path
  unless String.map Char.toLower kind = "json" do throw (.notJson kind)
  let text ← view.mapError (.unreadable path)
  (Circuit.ofText text).mapError (.badCircuit path)

/-! ### Carrying out -/

structure Workplace (σ : Type) where
  surroundings : Surroundings
  settings : Settings
  registry : Registry σ
  /-- The simulator's seed if the settings have none. -/
  chance : UInt64

namespace Workplace

variable {σ : Type}

def namedBackend (name : String) : Except CommandFault Backend :=
  (Backend.parse? name).mapError (.unknownBackend name)

def resolveBackend (p : Workplace σ) : Option String → Except CommandFault Backend
  | some name => namedBackend name
  | none => .ok p.settings.backend

def loadSession (p : Workplace σ) (path : String) : Except CommandFault (Session σ) :=
  (loadCircuit p.surroundings path).map fun circuit =>
    let plain := SimulatorSettings.default.simulator p.chance
    (Session.ofCircuit p.registry plain circuit).configured p.settings p.chance

/-- Runs the circuit of a file as the settings of a backend and what is said instead ask
    for. -/
def run (p : Workplace σ) (input : String) (backend : Option String) (overrides : Overrides)
    (json : Bool) (world : σ) : CommandReport × σ :=
  let prepared : Except CommandFault (ExecutionSettings × Session σ) := do
    let backend ← p.resolveBackend backend
    return (overrides.apply (p.settings.execution backend), ← p.loadSession input)
  match prepared with
  | .error e => (.failed e, world)
  | .ok (e, s) =>
    let heading :=
      if json then []
      else
        ["→ Running " ++ input ++ " on " ++ e.key ++ " (" ++ toString e.repetitions ++ " shots)",
         "  Loaded: " ++ toString s.circuit.numQubits ++ " qubits, " ++
           toString s.circuit.size ++ " operations"]
    let (outcome, _, _, world) := s.execute e.request 0 world
    match outcome with
    | .error failure => (.ofLines heading (some (.execution e.key failure)), world)
    | .ok r =>
      let lines := if json then [r.toJson.pretty] else Report.resultLines r
      (.ofLines (heading ++ lines) none, world)

def draw (p : Workplace σ) (input : String) (backend : Option String) : CommandReport :=
  let drawn : Except CommandFault (Backend × String) := do
    let backend ← p.resolveBackend backend
    let s ← p.loadSession input
    return (backend, ← (s.drawFor backend).1.mapError (.untranslatable input backend))
  match drawn with
  | .error e => .failed e
  | .ok (backend, text) => .ofLines ["→ " ++ input ++ " for " ++ backend.name, "", text] none

/-- The executions that are compared: those of the named backends, or all of the settings,
    or the usual ones. -/
def comparedExecutions (p : Workplace σ) (backends : List String) :
    Except CommandFault (List ExecutionSettings) :=
  if backends.isEmpty then
    .ok (if p.settings.executions.isEmpty then Comparison.defaultExecutions
      else p.settings.executions)
  else backends.mapM fun name => (namedBackend name).map p.settings.execution

/-- Compares the circuit of a file; that every execution fails is a failure. -/
def compare (p : Workplace σ) (input : String) (backends : List String) (json : Bool)
    (world : σ) : CommandReport × σ :=
  let prepared : Except CommandFault (List ExecutionSettings × Session σ) := do
    return (← p.comparedExecutions backends, ← p.loadSession input)
  match prepared with
  | .error e => (.failed e, world)
  | .ok (executions, s) =>
    match s.compare executions 0 world with
    | (.error fault, _, _, world) => (.failed (.other (.machine fault)), world)
    | (.ok c, _, _, world) =>
      let lines :=
        if json then [(Report.comparisonJson c).pretty]
        else
          ["→ Comparing " ++ input ++ " on " ++ toString c.size ++ " backends", ""] ++
            c.sorted.map Report.outcomeLine
      let fault := if !c.isEmpty && c.failures = c.size then some .everyBackend else none
      (.ofLines lines fault, world)

/-- An operation of a gate on as few qubits as it takes, with their number. -/
def sampleOperation (g : Gate) : Nat × Operation Float :=
  let params := g.signature.params.map fun
    | .angle => Param.angle 0.5
    | .count => Param.count 2
    | .flag => Param.flag false
    | .mode => Param.mode .vChain
  match g.signature.qubits with
  | .fixed 0 => (1, ⟨g, [], params⟩)
  | .fixed n => (n, ⟨g, (List.range n).map fun q => [q], params⟩)
  | .controlled false => (3, ⟨g, [[0, 1], [2]], params⟩)
  | .controlled true => (4, ⟨g, [[0, 1], [2], [3]], params⟩)

def supports (a : Adapter σ) (g : Gate) : Except ExecutionFailure Bool := do
  let (numQubits, op) := sampleOperation g
  let c ← ((Circuit.new numQubits).bind (·.push op)).mapError .circuit
  match a.translate c with
  | .ok _ => return true
  | .error (.untranslatable ..) => return false
  | .error e => throw e

/-- A line for every gate, up to the first that nothing can be said about. -/
def gateLines (adapter : Option (Adapter σ)) : List Gate → List String × Option CommandFault
  | [] => ([], none)
  | g :: gs =>
    let mark := match adapter with
      | some a => (supports a g).map Report.mark
      | none => .ok "•"
    match mark with
    | .error e => ([], some (.other e))
    | .ok mark =>
      let (lines, fault) := gateLines adapter gs
      (Report.gateLine mark g :: lines, fault)

def gates (p : Workplace σ) (backend : Option String) : CommandReport :=
  let chosen : Except CommandFault (Option (Adapter σ)) := do
    match backend with
    | some name =>
      let backend ← namedBackend name
      return some (← (p.registry.get backend).mapError .other)
    | none => return none
  match chosen with
  | .error e => .failed e
  | .ok adapter =>
    let heading := match adapter with
      | some a => "qcat Gate kinds on " ++ a.backend.name ++ ":"
      | none => "qcat Gate kinds:"
    let (lines, fault) := gateLines adapter Gate.all
    .ofLines ([heading, ""] ++ lines) fault

end Workplace

def Command.perform {σ : Type} (c : Command) (p : Workplace σ) (world : σ) : CommandReport × σ :=
  match c with
  | .run input backend overrides json => p.run input backend overrides json world
  | .draw input backend => (p.draw input backend, world)
  | .compare input backends json => p.compare input backends json world
  | .gates backend => (p.gates backend, world)

end CircuitBroker
