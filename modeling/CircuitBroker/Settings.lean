/-
  CircuitBroker/Settings.lean
  ===========================
  **Settings: what is used when nothing is said.**

  Settings name a backend, the level and the form of log lines, the simulator's seed and
  size, and a list of executions.  The first execution of a backend says how requests to it
  look (`Settings.execution`); where it is silent, variables of the surroundings speak
  (`Settings.withVariables`).  `inspect` never shows a credential.
-/
import CircuitBroker.Execution.Request
import CircuitBroker.Simulation.Simulator
import CircuitBroker.Surroundings
import CircuitBroker.Text.Letters
import CircuitBroker.Text.Numeral

namespace CircuitBroker

/-! ### Faults -/

inductive SettingsDefect where
  | unknownLogLevel (level : String)
  | unknownLogForm (form : String)
  | noQubits
  | noRepetitions (key : String)
  | noPollTime (key : String)
  | emptyCredential (key : String)
  deriving DecidableEq, Inhabited

inductive SettingsFault where
  | unreadable (path : String) (fault : FileFault)
  | malformed
  | invalid (defect : SettingsDefect)
  deriving DecidableEq, Inhabited

def SettingsDefect.message : SettingsDefect → String
  | .unknownLogLevel level => "Invalid log level: " ++ level
  | .unknownLogForm form => "Invalid log format: " ++ form
  | .noQubits => "simulator.max_qubits must be greater than 0"
  | .noRepetitions key => key ++ ": repetitions must be greater than 0"
  | .noPollTime key => key ++ ": poll timeout and interval must be positive"
  | .emptyCredential key => key ++ ": api must not be empty; omit the field instead"

namespace SettingsFault

def title : SettingsFault → String
  | unreadable .. => "IoError"
  | malformed => "ParseError"
  | invalid _ => "ValidationError"

def message : SettingsFault → String
  | unreadable path fault => "IO error: " ++ path ++ ": " ++ fault.message
  | malformed => "Parse error: the text does not hold settings"
  | invalid defect => "Validation error: " ++ defect.message

end SettingsFault

/-! ### Log lines -/

inductive LogForm where
  | console | compact
  deriving DecidableEq, Inhabited

namespace LogForm

def title : LogForm → String
  | console => "Console"
  | compact => "Compact"

def parse? (name : String) : Except SettingsFault LogForm :=
  let key := Letters.lower name
  if key = "console" then .ok console
  else if key = "compact" then .ok compact
  else .error (.invalid (.unknownLogForm key))

end LogForm

structure LogSettings where
  level : String
  form : String
  deriving DecidableEq, Inhabited

namespace LogSettings

def default : LogSettings := ⟨"info", "console"⟩

/-- The level at a verbosity; at none it is the one that was set. -/
def levelAt (verbosity : Nat) (level : String) : String :=
  match verbosity with
  | 0 => level
  | 1 => "info"
  | 2 => "debug"
  | _ => "trace"

def inspect (s : LogSettings) : String :=
  Inspection.record "LoggingConfig"
    [("level", Inspection.quote s.level), ("format", Inspection.quote s.form)]

end LogSettings

/-! ### The simulator -/

structure SimulatorSettings where
  seed : Option Nat
  maxQubits : Nat
  deriving DecidableEq, Inhabited

namespace SimulatorSettings

def default : SimulatorSettings := ⟨none, Simulator.defaultMaxQubits⟩

/-- The simulator; `chance` is its seed if none is set. -/
def simulator (s : SimulatorSettings) (chance : UInt64) : Simulator :=
  ⟨(s.seed.map Nat.toUInt64).getD chance, s.maxQubits⟩

def inspect (s : SimulatorSettings) : String :=
  Inspection.record "SimulatorConfig"
    [("seed", Inspection.optional toString s.seed), ("max_qubits", toString s.maxQubits)]

end SimulatorSettings

/-! ### Executions -/

structure ExecutionSettings where
  backend : Backend
  credential : Option String
  device : Option String
  bucket : Option String
  directory : Option String
  simulator : String
  repetitions : Nat
  /-- In seconds. -/
  pollTimeout : Nat
  /-- In seconds. -/
  pollInterval : Nat
  deriving DecidableEq, Inhabited

namespace ExecutionSettings

def new (backend : Backend) : ExecutionSettings where
  backend
  credential := none
  device := none
  bucket := none
  directory := none
  simulator := Target.default.name
  repetitions := 1024
  pollTimeout := 100
  pollInterval := 10

/-- What an execution is called: its backend, and its device if it has one. -/
def key (e : ExecutionSettings) : String :=
  match e.device with
  | some device => e.backend.name ++ "@" ++ device
  | none => e.backend.name

def target (e : ExecutionSettings) : Target :=
  match e.device with
  | some device => .device device
  | none => .simulator e.simulator

def request (e : ExecutionSettings) : ExecutionRequest where
  backend := e.backend
  target := e.target
  repetitions := e.repetitions
  credential := e.credential.map Credential.mk
  storage := e.bucket.map fun bucket => ⟨bucket, e.directory.getD ""⟩
  pollTimeout := .ofSeconds e.pollTimeout
  pollInterval := .ofSeconds e.pollInterval

def defect? (e : ExecutionSettings) : Option SettingsDefect :=
  if e.repetitions = 0 then some (.noRepetitions e.key)
  else if e.pollTimeout = 0 ∨ e.pollInterval = 0 then some (.noPollTime e.key)
  else if e.credential = some "" then some (.emptyCredential e.key)
  else none

/-- The settings with their structure, but for the credential. -/
def inspect (e : ExecutionSettings) : String :=
  let text : Option String → String := Inspection.optional Inspection.quote
  Inspection.record "ExecutionConfig"
    [("backend", e.backend.title),
     ("api", Inspection.optional (fun _ => Inspection.redacted) e.credential),
     ("device", text e.device), ("bucket", text e.bucket), ("directory", text e.directory),
     ("simulator", Inspection.quote e.simulator), ("repetitions", toString e.repetitions),
     ("poll_timeout_seconds", toString e.pollTimeout),
     ("poll_interval_seconds", toString e.pollInterval)]

end ExecutionSettings

/-! ### All settings -/

structure Settings where
  backend : Backend
  log : LogSettings
  simulator : SimulatorSettings
  executions : List ExecutionSettings
  deriving DecidableEq, Inhabited

namespace Settings

def defaultBackend : Backend := .cirq

def default : Settings := ⟨defaultBackend, .default, .default, []⟩

/-- The settings of a backend: its first execution, or else those of the backend alone. -/
def execution (s : Settings) (backend : Backend) : ExecutionSettings :=
  (s.executions.find? (·.backend = backend)).getD (.new backend)

def defect? (s : Settings) : Option SettingsDefect :=
  if s.log.level ∉ ["trace", "debug", "info", "warn", "error"] then
    some (.unknownLogLevel s.log.level)
  else if s.log.form ∉ ["console", "compact"] then some (.unknownLogForm s.log.form)
  else if s.simulator.maxQubits = 0 then some .noQubits
  else s.executions.findSome? ExecutionSettings.defect?

def validate (s : Settings) : Except SettingsFault Unit :=
  match s.defect? with
  | some defect => .error (.invalid defect)
  | none => .ok ()

/-! ### Variables -/

def credentialVariable? : Backend → Option String
  | .qiskit => some "QCAT_IBM_TOKEN"
  | .ionq => some "QCAT_IONQ_API_KEY"
  | .cirq | .braket | .qsharp => none

/-- An execution, with variables where it is silent. -/
def executionWithVariables (variableOf : String → Option String) (e : ExecutionSettings) :
    ExecutionSettings :=
  { e with
    credential := e.credential <|> (credentialVariable? e.backend).bind variableOf
    bucket := if e.backend = .braket then e.bucket <|> variableOf "QCAT_BRAKET_BUCKET" else e.bucket }

/-- Settings with variables in their place.  A variable with no sensible value is as good as
    none, but a level or a form of log lines is taken as it is. -/
def withVariables (s : Settings) (variableOf : String → Option String) : Settings where
  backend := ((variableOf "QCAT_BACKEND").bind fun v => (Backend.parse? v).toOption).getD s.backend
  log := ⟨(variableOf "QCAT_LOG_LEVEL").getD s.log.level,
    (variableOf "QCAT_LOG_FORMAT").getD s.log.form⟩
  simulator :=
    ⟨(variableOf "QCAT_SEED").bind (Numeral.read? 10 UInt64.size) <|> s.simulator.seed,
     ((variableOf "QCAT_MAX_QUBITS").bind (Numeral.read? 10 UInt32.size)).getD s.simulator.maxQubits⟩
  executions := s.executions.map (executionWithVariables variableOf)

def inspect (s : Settings) : String :=
  Inspection.record "QcatConfig"
    [("backend", s.backend.title), ("logging", s.log.inspect), ("simulator", s.simulator.inspect),
     ("executions", Inspection.list (s.executions.map ExecutionSettings.inspect))]

end Settings

/-! ### What a command line says instead -/

/-- What a command line says about an execution. -/
structure Overrides where
  shots : Option Nat
  device : Option String
  simulator : Option String
  credential : Option String
  bucket : Option String
  directory : Option String
  /-- In seconds. -/
  timeout : Option Nat
  deriving DecidableEq, Inhabited

namespace Overrides

def none : Overrides := ⟨.none, .none, .none, .none, .none, .none, .none⟩

/-- The settings of an execution with what is said instead.  A simulator takes the place of
    the device that was set, but not of one that is said. -/
def apply (o : Overrides) (e : ExecutionSettings) : ExecutionSettings :=
  { e with
    repetitions := o.shots.getD e.repetitions
    simulator := o.simulator.getD e.simulator
    device := o.device <|> (if o.simulator.isSome then .none else e.device)
    credential := o.credential <|> e.credential
    bucket := o.bucket <|> e.bucket
    directory := o.directory <|> e.directory
    pollTimeout := o.timeout.getD e.pollTimeout }

def inspect (o : Overrides) : String :=
  let text : Option String → String := Inspection.optional Inspection.quote
  Inspection.record "Overrides"
    [("shots", Inspection.optional toString o.shots), ("device", text o.device),
     ("simulator", text o.simulator), ("api", text o.credential), ("bucket", text o.bucket),
     ("directory", text o.directory), ("timeout", Inspection.optional toString o.timeout)]

end Overrides

end CircuitBroker
