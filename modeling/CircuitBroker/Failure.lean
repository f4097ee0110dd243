/-
  CircuitBroker/Failure.lean
  ==========================
  **What can go wrong, as causes.**

  A `CircuitFault` is a reason to refuse an operation, a circuit or a matrix; a
  `Failure` is a reason why a translation or an execution ends without a result.  Both
  carry the values a reader needs; `message` is the one place that words them.
-/
import CircuitBroker.Gate.Param
import CircuitBroker.Backend
import CircuitBroker.GateMatrix
import CircuitBroker.Text.Duration

namespace CircuitBroker

/-! ### Circuits -/

inductive ParamFault (R : Type) where
  | wrongNumber (expected got : Nat)
  | wrongKind (position : Nat) (expected : ParamKind) (got : Param R)
  | notFinite (position : Nat)
  | wrongControlCount (count controls : Nat)

/-- Why an operation, a circuit or a matrix is refused. -/
inductive CircuitFault (R : Type) where
  | qubitOutOfBounds (qubit numQubits : Nat) (gate : Gate)
  | duplicateQubit (qubit : Nat) (gate : Gate)
  /-- The groups have these sizes, which the gate's layout does not allow. -/
  | wrongGroups (gate : Gate) (sizes : List Nat)
  | wrongParams (gate : Gate) (fault : ParamFault R)
  | noQubits
  | badMatrix (name : String) (fault : MatrixFault)
  | notUnitary (name : String) (deviation : R)
  | unknownGate (name : String)

def QubitLayout.description : QubitLayout → String
  | .fixed n => toString n ++ " single-qubit group(s)"
  | .controlled true => "[controls (>= 1)], [target], optional [ancillas]"
  | .controlled false => "[controls (>= 1)], [target]"

def describeGroups (sizes : List Nat) : String :=
  toString sizes.length ++ " group(s) of sizes [" ++
    ", ".intercalate (sizes.map toString) ++ "]"

def MatrixFault.message : MatrixFault → String
  | .notSquare => "matrix is not square"
  | .notPowerOfTwo dim => "dimension " ++ toString dim ++ " is not a positive power of two"
  | .wrongCount expected got =>
    "expected " ++ toString expected ++ " entries, got " ++ toString got
  | .wrongArity dim arity =>
    "dimension " ++ toString dim ++ " does not match arity " ++ toString arity

def ParamFault.message : ParamFault Float → String
  | .wrongNumber expected got =>
    "expected " ++ toString expected ++ " parameter(s), got " ++ toString got
  | .wrongKind position expected got =>
    "parameter " ++ toString position ++ " must be " ++ expected.title ++ ", got " ++ got.title
  | .notFinite position => "parameter " ++ toString position ++ " is not finite"
  | .wrongControlCount count controls =>
    "control count " ++ toString count ++ " does not match " ++ toString controls ++
      " control qubit(s)"

def CircuitFault.title {R : Type} : CircuitFault R → String
  | .qubitOutOfBounds .. => "QubitOutOfBounds"
  | .duplicateQubit .. => "DuplicateQubit"
  | .wrongGroups .. => "QubitCountMismatch"
  | .wrongParams .. => "ParameterMismatch"
  | .noQubits => "EmptyCircuit"
  | .badMatrix .. => "InvalidDimension"
  | .notUnitary .. => "NonUnitary"
  | .unknownGate _ => "UnknownKind"

def CircuitFault.message : CircuitFault Float → String
  | .qubitOutOfBounds qubit numQubits gate =>
    "Qubit index " ++ toString qubit ++ " out of bounds for a " ++ toString numQubits ++
      "-qubit circuit (gate: " ++ gate.name ++ ")"
  | .duplicateQubit qubit gate =>
    "Duplicate qubit q" ++ toString qubit ++ " in operation (gate: " ++ gate.name ++ ")"
  | .wrongGroups gate sizes =>
    "Gate '" ++ gate.name ++ "' expects " ++ gate.signature.qubits.description ++ ", got " ++
      describeGroups sizes
  | .wrongParams gate fault => "Gate '" ++ gate.name ++ "' parameter mismatch: " ++ fault.message
  | .noQubits => "Circuit qubit count must be positive"
  | .badMatrix name fault => "Matrix '" ++ name ++ "' has invalid dimension: " ++ fault.message
  | .notUnitary name deviation =>
    "Matrix '" ++ name ++ "' is not unitary (max deviation " ++
      Decimal.text .scientific deviation ++ ")"
  | .unknownGate name => "Unknown gate kind: " ++ name

/-! ### Executions -/

/-- Why a backend has no form of an operation. -/
inductive TranslationGap where
  | needsAncillas (mode : ControlMode)
  | noNativeGate
  | notIonNative
  deriving DecidableEq

inductive UnavailableBackend where
  | unknown (name : String)
  | notRegistered (backend : Backend)

inductive MalformedCircuit where
  | matrixOnTargets (numQubits targets : Nat)
  | gateOutside (qubit numQubits : Nat)
  | wrongLabels (gate : String) (labels arity : Nat)
  | tooManyQubits (numQubits limit : Nat)
  | noMeasurement
  | nothingToSample
  | foreignProgram (backend : Backend)
  | noTarget (gate : Gate)
  | noIonForm (gate : String)

inductive MalformedRequest where
  | noRepetitions
  | noPollTime
  | onlyOpenQasm3 (service : String)
  | onlyJson (service : String)
  | badArn (arn : String)

/-- Why a translation or an execution ends without a result. -/
inductive Failure (R : Type) where
  | untranslatable (gate : Gate) (backend : Backend) (gap : TranslationGap)
  | missingCredential (backend : Backend) (credential : String)
  | taskFailed (id reason : String)
  | taskTimeout (id : String) (waited : Duration)
  | incompleteResult (id : String) (expected actual : Nat)
  | taskCancelled (id : String)
  | unsupportedTarget (backend : Backend) (target : String)
  | unavailable (reason : UnavailableBackend)
  | malformedCircuit (reason : MalformedCircuit)
  | malformedRequest (reason : MalformedRequest)
  | circuit (fault : CircuitFault R)
  /-- A document of a service could not be read. -/
  | unreadable
  /-- What a service answered instead of a result. -/
  | service (text : String)
  | machine (fault : MachineFault)

def TranslationGap.message : TranslationGap → String
  | .needsAncillas mode => "the " ++ mode.name ++ " decomposition needs ancilla qubits"
  | .noNativeGate => "no native gate and no custom gate library entry"
  | .notIonNative => "not in the IonQ native gate set"

def UnavailableBackend.message : UnavailableBackend → String
  | .unknown name => "unknown backend '" ++ name ++ "'"
  | .notRegistered backend => "no backend registered for '" ++ backend.name ++ "'"

def MalformedCircuit.message : MalformedCircuit → String
  | .matrixOnTargets numQubits targets =>
    toString numQubits ++ "-qubit matrix applied to " ++ toString targets ++ " target(s)"
  | .gateOutside qubit numQubits =>
    "lowered gate references q" ++ toString qubit ++ " in a " ++ toString numQubits ++
      "-qubit circuit"
  | .wrongLabels gate labels arity =>
    "custom gate '" ++ gate ++ "' has " ++ toString labels ++ " label(s) for " ++
      toString arity ++ " qubit(s)"
  | .tooManyQubits numQubits limit =>
    "Circuit has " ++ toString numQubits ++ " qubits but the simulator supports at most " ++
      toString limit
  | .noMeasurement => "IBM Quantum jobs need at least one measurement"
  | .nothingToSample => "circuit has no measurements, so there are no counts to report"
  | .foreignProgram backend =>
    "native circuit was not produced by the " ++ backend.name ++ " translator"
  | .noTarget gate => gate.name ++ " operation has no target qubit"
  | .noIonForm gate => gate ++ " has no IonQ serialization"

def MalformedRequest.message : MalformedRequest → String
  | .noRepetitions => "repetitions must be positive"
  | .noPollTime => "poll timeout and interval must be positive"
  | .onlyOpenQasm3 service => service ++ " accepts OpenQASM 3 programs only"
  | .onlyJson service => service ++ " accepts JSON circuits only"
  | .badArn arn => "invalid ARN " ++ arn

/-- The fault of the machine that a failure stands for.  A program does not go on from one. -/
def Failure.machineFault? {R : Type} : Failure R → Option MachineFault
  | .machine fault => some fault
  | _ => none

def Failure.title {R : Type} : Failure R → String
  | .untranslatable .. => "UnsupportedTranslation"
  | .missingCredential .. => "MissingCredentials"
  | .taskFailed .. => "TaskFailed"
  | .taskTimeout .. => "TaskTimeout"
  | .incompleteResult .. => "IncompleteResult"
  | .taskCancelled _ => "TaskCancelled"
  | .unsupportedTarget .. => "UnsupportedTarget"
  | .unavailable _ => "BackendUnavailable"
  | .malformedCircuit _ => "InvalidCircuit"
  | .malformedRequest _ => "InvalidRequest"
  | .circuit fault => fault.title
  | .unreadable => "Serialization"
  | .service _ => "Backend"
  | .machine _ => "MachineFault"

def Failure.message : Failure Float → String
  | .untranslatable gate backend gap =>
    "Cannot translate '" ++ gate.name ++ "' for backend '" ++ backend.name ++ "': " ++ gap.message
  | .missingCredential backend credential =>
    "Backend '" ++ backend.name ++ "' requires " ++ credential ++ ", but none was supplied"
  | .taskFailed id reason => "Task " ++ id ++ " failed: " ++ reason
  | .taskTimeout id waited => "Task " ++ id ++ " did not finish within " ++ waited.text
  | .incompleteResult id expected actual =>
    "Task " ++ id ++ " returned " ++ toString actual ++ " of " ++ toString expected ++ " shots"
  | .taskCancelled id => "Task " ++ id ++ " was cancelled"
  | .unsupportedTarget backend target =>
    "Backend '" ++ backend.name ++ "' does not support target '" ++ target ++ "'"
  | .unavailable reason => "Backend not available: " ++ reason.message
  | .malformedCircuit reason => "Invalid circuit: " ++ reason.message
  | .malformedRequest reason => "Invalid request: " ++ reason.message
  | .circuit fault => fault.message
  | .unreadable => "Serialization error"
  | .service text => "Backend error: " ++ text
  | .machine fault => fault.message

end CircuitBroker
