/-
  CircuitBroker/CommandLine/Rule.lean
  ===================================
  **The commands and their options.**

  Options have a long name and perhaps a short one; some take a value.  Every command has
  its own options beside the common ones.  The help texts follow from these rules.
-/
import CircuitBroker.CommandLine.Report
import CircuitBroker.Text.Numeral

namespace CircuitBroker

/-! ### Options -/

inductive OptionValue where
  | nothing
  | text
  /-- A text that is not empty. -/
  | path
  | natural (bound : Nat)
  /-- A natural that may be written with either sign, so that `-0` is one. -/
  | signed (bound : Nat)
  deriving DecidableEq

namespace OptionValue

def number? (v : OptionValue) (text : String) : Option Nat :=
  match v, text.toList with
  | .natural bound, _ => Numeral.read? 10 bound text
  | .signed bound, '-' :: cs => (Numeral.digits? 10 cs).filter fun n => n = 0 ∧ n < bound
  | .signed bound, _ => Numeral.read? 10 bound text
  | _, _ => none

def accepts (v : OptionValue) (text : String) : Bool :=
  match v with
  | .nothing | .text => true
  | .path => !text.isEmpty
  | .natural _ | .signed _ => (v.number? text).isSome

end OptionValue

/-- The variable that an option is read from when it is not given. -/
inductive OptionVariable where
  | none
  | named (name : String)
  /-- A variable whose text is not shown. -/
  | secret (name : String)
  deriving DecidableEq

structure OptionRule where
  long : String
  short : Option Char
  value : OptionValue
  /-- Whether it may be given more than once. -/
  repeats : Bool
  instead : OptionVariable
  about : String

structure CommandRule where
  name : String
  takesInput : Bool
  options : List OptionRule
  about : String

namespace CommandRule

def common : List OptionRule :=
  [⟨"verbose", some 'v', .nothing, true, .none, "Increase verbosity (-v, -vv, -vvv)"⟩,
   ⟨"config", none, .path, false, .named "QCAT_CONFIG",
    "Configuration file (defaults to <config dir>/qcat/config.yaml)"⟩]

def run : CommandRule :=
  ⟨"run", true,
   [⟨"backend", some 'b', .text, false, .none,
     "Backend family (qiskit, cirq, ionq, braket, qsharp)"⟩,
    ⟨"shots", some 's', .signed UInt32.size, false, .none, "Number of repetitions"⟩,
    ⟨"device", some 'd', .text, false, .none, "Remote device name or identifier"⟩,
    ⟨"simulator", none, .text, false, .none, "Simulator name"⟩,
    ⟨"api", none, .text, false, .secret "QCAT_API", "API credential for the backend"⟩,
    ⟨"bucket", none, .text, false, .none, "Result bucket (Braket)"⟩,
    ⟨"directory", none, .text, false, .none, "Key prefix inside the bucket"⟩,
    ⟨"timeout", none, .natural UInt64.size, false, .none, "Poll timeout in seconds"⟩,
    ⟨"json", none, .nothing, false, .none, "Print the result as JSON"⟩],
   "Execute a circuit on one backend"⟩

def draw : CommandRule :=
  ⟨"draw", true, [⟨"backend", some 'b', .text, false, .none, "Backend family"⟩],
   "Print the native form of a circuit"⟩

def compare : CommandRule :=
  ⟨"compare", true,
   [⟨"backend", some 'b', .text, true, .none,
     "Backend to include; repeat for more. Defaults to the configured executions, or cirq, " ++
      "qiskit and braket"⟩,
    ⟨"json", none, .nothing, false, .none, "Print the comparison as JSON"⟩],
   "Execute a circuit on several backends and compare counts"⟩

def gates : CommandRule :=
  ⟨"gates", false,
   [⟨"backend", some 'b', .text, false, .none,
     "Also report whether each kind translates for this backend"⟩],
   "List gate kinds and their arity"⟩

def all : List CommandRule := [run, draw, compare, gates]

def named? (name : String) : Option CommandRule := all.find? (·.name == name)

end CommandRule

/-! ### Help -/

namespace CommandRule

/-- An option as help shows it; what may be given again has a name in the plural. -/
def optionText (r : OptionRule) : String :=
  let short := match r.short with
    | some c => "-" ++ String.singleton c ++ ", "
    | none => "    "
  let valueName := r.long.map Char.toUpper ++ (if r.repeats then "S" else "")
  let value :=
    if r.value = .nothing then (if r.repeats then "..." else "")
    else " <" ++ valueName ++ ">"
  short ++ "--" ++ r.long ++ value

/-- What an option is about, with the variable that stands in for it. -/
def aboutText (variableOf : String → Option String) (r : OptionRule) : String :=
  match r.instead with
  | .none => r.about
  | .named name => r.about ++ " [env: " ++ name ++ "=" ++ (variableOf name).getD "" ++ "]"
  | .secret name => r.about ++ " [env: " ++ name ++ "]"

def table (rows : List (String × String)) : List String :=
  let width := (rows.map fun r => r.1.length).foldl max 0
  rows.map fun r => "  " ++ Report.left width r.1 ++ "  " ++ r.2

def helpRow : String × String := ("-h, --help", "Print help")

/-- The options of a command in the order of its help: the common ones follow the first of
    its own. -/
def optionsShown (c : CommandRule) : List OptionRule :=
  c.options.take 1 ++ common ++ c.options.drop 1

def optionRows (variableOf : String → Option String) (rules : List OptionRule) :
    List (String × String) :=
  rules.map fun r => (optionText r, aboutText variableOf r)

def helpLines (c : CommandRule) (variableOf : String → Option String) : List String :=
  let usage := "Usage: qcat " ++ c.name ++ " [OPTIONS]" ++ (if c.takesInput then " <INPUT>" else "")
  let input := if c.takesInput then ["Arguments:", "  <INPUT>  Circuit file (JSON)", ""] else []
  [c.about, "", usage, ""] ++ input ++
    ["Options:"] ++ table (optionRows variableOf c.optionsShown ++ [helpRow])

def helpAbout : String := "Print this message or the help of the given subcommand(s)"

def programHelpLines (variableOf : String → Option String) : List String :=
  ["qcat - build a quantum circuit once, run it on any backend", "",
   "Usage: qcat [OPTIONS] <COMMAND>", "", "Commands:"] ++
    table (all.map (fun c => (c.name, c.about)) ++ [("help", helpAbout)]) ++
    ["", "Options:"] ++
    table (optionRows variableOf common ++ [helpRow, ("-V, --version", "Print version")])

def helpHelpLines : List String :=
  [helpAbout, "", "Usage: qcat help [COMMAND]...", "", "Arguments:"] ++
    table [("[COMMAND]...", "Print help for the subcommand(s)")]

end CommandRule

end CircuitBroker
