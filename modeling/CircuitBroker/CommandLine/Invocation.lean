/-
  CircuitBroker/CommandLine/Invocation.lean
  =========================================
  **What a command line asks for, and what comes of it.**

  The common options may stand before or after the name of a command; what is said after it
  counts.  `Invocation.parse` gives the command, `Asked.perform` what the program prints
  and the status it ends with: 0, 1 after a failure, 2 after a mistake in the words.
-/
import CircuitBroker.CommandLine.Command
import CircuitBroker.CommandLine.Words

namespace CircuitBroker

/-! ### Invocations -/

structure Invocation where
  verbosity : Nat
  settingsPath : Option String
  command : Command
  deriving DecidableEq, Inhabited

inductive Asked where
  /-- The help text, or that of a command. -/
  | help (command : Option CommandRule)
  /-- The help text of the word for help. -/
  | helpOnHelp
  | version
  | invocation (i : Invocation)
  | mistake

namespace Invocation

def command? (rule : CommandRule) (l : WordList) (variableOf : String → Option String) :
    Option Command :=
  let number (name : String) : Option Nat := do
    let option ← rule.options.find? (·.long == name)
    option.value.number? (← l.value? name)
  match rule.name, l.plain with
  | "run", [input] =>
    let overrides : Overrides :=
      { shots := number "shots"
        device := l.value? "device"
        simulator := l.value? "simulator"
        credential := l.value? "api" <|> variableOf "QCAT_API"
        bucket := l.value? "bucket"
        directory := l.value? "directory"
        timeout := number "timeout" }
    some (.run input (l.value? "backend") overrides (l.has "json"))
  | "draw", [input] => some (.draw input (l.value? "backend"))
  | "compare", [input] => some (.compare input (l.values "backend") (l.has "json"))
  | "gates", [] => some (.gates (l.value? "backend"))
  | _, _ => none

/-- What the words after a command's name ask for; `before` holds those before it. -/
def ofCommand (rule : CommandRule) (before : WordList) (words : List String)
    (variableOf : String → Option String) : Asked :=
  let rules := rule.options ++ CommandRule.common
  let fromVariable := variableOf "QCAT_CONFIG"
  match WordList.read rules (if rule.takesInput then 1 else 0) (Word.bound words) .empty words with
  | .help => .help (some rule)
  | .version => .version
  | .mistake => .mistake
  | .done l =>
    match command? rule l variableOf with
    | none => .mistake
    | some command =>
      let counted := if l.has "verbose" then l else before
      let path := l.value? "config" <|> before.value? "config"
      if fromVariable = some "" && !(l.has "config" && before.has "config") then .mistake
      else .invocation ⟨(counted.values "verbose").length, path <|> fromVariable, command⟩

def ofName (before : WordList) (name : String) (rest : List String)
    (variableOf : String → Option String) : Asked :=
  match CommandRule.named? name, name, rest with
  | some rule, _, _ => ofCommand rule before rest variableOf
  | none, "help", [] => .help none
  | none, "help", [name] =>
    match CommandRule.named? name with
    | some rule => .help (some rule)
    | none => if name = "help" then .helpOnHelp else .mistake
  | none, _, _ => .mistake

/-- What words ask for after a mistake that shows only once a command has been read: help
    comes first. -/
def unlessHelp : Asked → Asked
  | .invocation _ => .mistake
  | asked => asked

/-- What words ask for, given the options before the name of a command.  A value that is a
    word of its own is looked at when the next option comes, or after the command. -/
def parseFrom (variableOf : String → Option String) : Nat → WordList → List String → Asked
  | 0, _, _ => .mistake
  | _, _, [] => .mistake
  | fuel + 1, before, first :: rest =>
    match Word.next? CommandRule.common true first rest with
    | none => .mistake
    | some (.help, _) => .help none
    | some (.version, _) => .version
    | some (.plain name, rest) => ofName before name rest variableOf
    | some (.option rule value apart, rest) =>
      match before.add? rule value, rest with
      | some before, _ => parseFrom variableOf fuel before rest
      | none, name :: rest =>
        if apart && !Word.isOption name then unlessHelp (ofName before name rest variableOf)
        else .mistake
      | none, [] => .mistake

def parse (variableOf : String → Option String) (words : List String) : Asked :=
  parseFrom variableOf (Word.bound words) .empty words

end Invocation

def versionText : String := "qcat 0.4.0"

/-! ### The whole program -/

structure ProgramReport where
  status : Nat
  output : String
  errors : String
  deriving DecidableEq, Inhabited

namespace ProgramReport

/-- The end of a command.  A failure is told in one line, each cause after what it is the
    cause of. -/
def ofCommand (r : CommandReport) : ProgramReport :=
  match r.fault with
  | none => ⟨0, r.output, ""⟩
  | some fault => ⟨1, r.output, "Error: " ++ ": ".intercalate fault.messages ++ "\n"⟩

def ofSettingsFault (fault : SettingsFault) : ProgramReport :=
  ⟨1, "", "Error: Failed to load configuration\n\nCaused by:\n    " ++ fault.message ++ "\n"⟩

def ofLines (lines : List String) : ProgramReport :=
  ⟨0, String.join (lines.map (· ++ "\n")), ""⟩

def mistaken : ProgramReport :=
  ⟨2, "", "error: the command line could not be understood\n\n" ++
    "Usage: qcat [OPTIONS] <COMMAND>\n\nFor more information, try '--help'.\n"⟩

end ProgramReport

namespace Asked

variable {σ : Type}

def perform (asked : Asked) (w : Surroundings) (registry : Registry σ) (chance : UInt64)
    (world : σ) : ProgramReport × σ :=
  match asked with
  | help none => (.ofLines (CommandRule.programHelpLines w.variableOf), world)
  | help (some rule) => (.ofLines (rule.helpLines w.variableOf), world)
  | helpOnHelp => (.ofLines CommandRule.helpHelpLines, world)
  | version => (.ofLines [versionText], world)
  | mistake => (.mistaken, world)
  | invocation i =>
    match Settings.load w i.settingsPath with
    | .error fault => (.ofSettingsFault fault, world)
    | .ok settings =>
      let (report, world) := i.command.perform ⟨w, settings, registry, chance⟩ world
      (.ofCommand report, world)

def files (asked : Asked) (w : Surroundings) : List String :=
  match asked with
  | invocation i =>
    let input := match i.command with
      | .run input .. | .draw input _ | .compare input .. => [input]
      | .gates _ => []
    (i.settingsPath <|> w.settingsPath?).toList ++ input
  | _ => []

end Asked

end CircuitBroker
