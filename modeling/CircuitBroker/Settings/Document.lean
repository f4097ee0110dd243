/-
  CircuitBroker/Settings/Document.lean
  ====================================
  **Settings as they are written down.**

  Settings are read from YAML by the record rule of `Yaml.record?`: what is not written has
  its default.  An execution can also be read from JSON, by the rules of `Json`.
-/
import CircuitBroker.Json
import CircuitBroker.Settings
import CircuitBroker.Yaml.Document

namespace CircuitBroker

/-! ### YAML -/

namespace Yaml

def orDefault? {α : Type} (default : α) (read : Reader α) (d : Document) :
    Option Yaml → Option α
  | some y => read d y
  | none => some default

def optionalText? : Document → Option Yaml → Option (Option String) :=
  orDefault? none (orNull? toText?)

def toBackend? : Reader Backend := named? Backend.ofDocumentName?

end Yaml

def LogSettings.ofYaml? : Yaml.Reader LogSettings := fun d y => do
  match ← Yaml.record? [["level"], ["format"]] d y with
  | [level, form] =>
    some ⟨← Yaml.orDefault? LogSettings.default.level Yaml.toText? d level,
      ← Yaml.orDefault? LogSettings.default.form Yaml.toText? d form⟩
  | _ => none

def SimulatorSettings.ofYaml? : Yaml.Reader SimulatorSettings := fun d y => do
  match ← Yaml.record? [["seed"], ["max_qubits"]] d y with
  | [seed, maxQubits] =>
    some ⟨← Yaml.orDefault? none (Yaml.orNull? (Yaml.toNatBelow? UInt64.size)) d seed,
      ← Yaml.orDefault? SimulatorSettings.default.maxQubits (Yaml.toNatBelow? UInt32.size) d
        maxQubits⟩
  | _ => none

namespace ExecutionSettings

def fieldNames : List (List String) :=
  [["backend", "provider"], ["api"], ["device"], ["bucket"], ["directory"], ["simulator"],
   ["repetitions"], ["poll_timeout_seconds"], ["poll_interval_seconds"]]

def ofYaml? : Yaml.Reader ExecutionSettings := fun d y => do
  match ← Yaml.record? fieldNames d y with
  | [some backend, api, device, bucket, directory, simulator, repetitions, timeout, interval] =>
    let backend ← Yaml.toBackend? d backend
    let e := new backend
    some
      { backend
        credential := ← Yaml.optionalText? d api
        device := ← Yaml.optionalText? d device
        bucket := ← Yaml.optionalText? d bucket
        directory := ← Yaml.optionalText? d directory
        simulator := ← Yaml.orDefault? e.simulator Yaml.toText? d simulator
        repetitions :=
          ← Yaml.orDefault? e.repetitions (Yaml.toNatBelow? UInt32.size) d repetitions
        pollTimeout := ← Yaml.orDefault? e.pollTimeout (Yaml.toNatBelow? UInt64.size) d timeout
        pollInterval := ← Yaml.orDefault? e.pollInterval (Yaml.toNatBelow? UInt64.size) d interval }
  | _ => none

def ofJson? (j : Json) : Option ExecutionSettings := do
  let orDefault {α : Type} (default : α) (read : Json → Option α) : Option Json → Option α
    | some j => read j
    | none => some default
  let text : Option Json → Option (Option String) := orDefault none (Json.orNull? Json.toString?)
  match ← j.record? fieldNames with
  | [some backend, api, device, bucket, directory, simulator, repetitions, timeout, interval] =>
    let backend ← backend.unitTag?.bind Backend.ofDocumentName?
    let d := new backend
    some
      { backend
        credential := ← text api
        device := ← text device
        bucket := ← text bucket
        directory := ← text directory
        simulator := ← orDefault d.simulator Json.toString? simulator
        repetitions := ← orDefault d.repetitions (Json.toNatBelow? UInt32.size) repetitions
        pollTimeout := ← orDefault d.pollTimeout (Json.toNatBelow? UInt64.size) timeout
        pollInterval := ← orDefault d.pollInterval (Json.toNatBelow? UInt64.size) interval }
  | _ => none

end ExecutionSettings

namespace Settings

def ofYaml? : Yaml.Reader Settings := fun d y => do
  match ← Yaml.record? [["backend"], ["logging"], ["simulator"], ["executions"]] d y with
  | [backend, log, simulator, executions] =>
    some
      { backend := ← Yaml.orDefault? defaultBackend Yaml.toBackend? d backend
        log := ← Yaml.orDefault? .default LogSettings.ofYaml? d log
        simulator := ← Yaml.orDefault? .default SimulatorSettings.ofYaml? d simulator
        executions := ← Yaml.orDefault? [] (Yaml.listOf? ExecutionSettings.ofYaml?) d executions }
  | _ => none

def ofText (text : String) : Except SettingsFault Settings :=
  match (Yaml.parse? text).bind fun d => ofYaml? d d.value with
  | none => .error .malformed
  | some s => s.validate.map fun _ => s

def ofFile (w : Surroundings) (path : String) : Except SettingsFault Settings :=
  match w.file path with
  | .ok text => ofText text
  | .error fault => .error (.unreadable path fault)

/-- The settings of a file, or of the file of the user if there is one, with the variables
    of the surroundings in their place. -/
def load (w : Surroundings) (path : Option String) : Except SettingsFault Settings := do
  let own := w.settingsPath?.filter fun p => (w.file p).isFile
  let s ← match path <|> own with
    | some path => ofFile w path
    | none => .ok default
  let s := s.withVariables w.variableOf
  s.validate
  return s

end Settings

end CircuitBroker
