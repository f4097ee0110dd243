/-
  CircuitBroker/Main.lean
  =======================
  **The program.**

  Reads its words, the bindings and files they speak of, and a seed; what is to be printed
  and the status to end with are then known.  No service is reached from here.
-/
import CircuitBroker.CommandLine.Invocation

open CircuitBroker

def variableNames : List String :=
  ["HOME", "XDG_CONFIG_HOME", "QCAT_CONFIG", "QCAT_API", "QCAT_BACKEND", "QCAT_LOG_LEVEL",
   "QCAT_LOG_FORMAT", "QCAT_SEED", "QCAT_MAX_QUBITS", "QCAT_IBM_TOKEN", "QCAT_IONQ_API_KEY",
   "QCAT_BRAKET_BUCKET", "AWS_REGION", "AWS_DEFAULT_REGION"]

def viewFile (path : String) : IO FileView := do
  try
    return .ok (← IO.FS.readFile path)
  catch e =>
    let isDirectory : UInt32 := 21
    match e with
    | .noFileOrDirectory .. => return .error .notFound
    | .permissionDenied .. => return .error .denied
    | .invalidArgument .. => return .error .nameTooLong
    | .inappropriateType _ code _ =>
      return .error (if code == isDirectory then .isDirectory else .notDirectory)
    | _ => return .error .notText

def main (words : List String) : IO UInt32 := do
  let bindings ← variableNames.filterMapM fun name => do
    return (← IO.getEnv name).map fun value => (name, value)
  let variableOf (name : String) : Option String := (bindings.find? (·.1 == name)).map (·.2)
  let asked := Invocation.parse variableOf words
  let files ← (asked.files ⟨variableOf, fun _ => .error .notFound⟩).mapM fun path => do
    return (path, ← viewFile path)
  let file (path : String) : FileView :=
    ((files.find? (·.1 == path)).map (·.2)).getD (.error .notFound)
  let chance := (← IO.getRandomBytes 8).foldl (fun n b => n * 256 + b.toUInt64) 0
  let region := variableOf "AWS_REGION" <|> variableOf "AWS_DEFAULT_REGION"
  let registry : Registry Unit := .full Transport.offline region
  let (report, _) := asked.perform ⟨variableOf, file⟩ registry chance ()
  IO.print report.output
  IO.eprint report.errors
  return report.status.toUInt32
