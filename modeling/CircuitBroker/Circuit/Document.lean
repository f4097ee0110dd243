/-
  CircuitBroker/Circuit/Document.lean
  ===================================
  **Circuits as JSON documents.**

  A circuit is written as its number of qubits and its operations, an operation as its
  gate, its groups of qubits and, if it has any, its parameters.  Reading a document
  records its operations one by one, so that it accepts exactly the circuits that could
  have been built.
-/
import CircuitBroker.Circuit
import CircuitBroker.Json.Parser
import CircuitBroker.Json.Printer

namespace CircuitBroker

/-- Why a document is not read: it has not the form of one, or a circuit refuses what it
    holds. -/
inductive DocumentFault where
  | malformed
  | refused (fault : CircuitFault Float)

/-- The numbers of qubits and the qubits of a document are below this. -/
def qubitBound : Nat := UInt32.size

/-! ### Writing -/

def Param.toJson : Param Float → Json
  | .angle a => .object [("angle", .ofFloat a)]
  | .count n => .object [("count", .ofNat n)]
  | .flag b => .object [("flag", .bool b)]
  | .mode m => .object [("mode", .string m.name)]

def Operation.toJson (op : Operation Float) : Json :=
  let params := if op.params.isEmpty then [] else [("params", .array (op.params.map Param.toJson))]
  .object ([("kind", .string op.gate.name),
    ("qubit_groups", .array (op.groups.map fun g => .array (g.map .ofNat)))] ++ params)

def Circuit.toJson (c : Circuit Float) : Json :=
  .object [("num_qubits", .ofNat c.numQubits),
    ("operations", .array (c.operations.map Operation.toJson))]

/-! ### Reading -/

def Param.ofJson? (j : Json) : Option (Param Float) := do
  let (tag, value) ← j.tagged?
  match tag with
  | "angle" => value.toFloat?.map .angle
  | "count" => (value.toNatBelow? wordSize).map .count
  | "flag" => value.toBool?.map .flag
  | "mode" => (value.unitTag?.bind ControlMode.ofName?).map .mode
  | _ => none

/-- A required field is there, an optional one has a default, and neither may be `null`. -/
def Operation.ofJson? (j : Json) : Option (Operation Float) := do
  match ← j.record? [["kind"], ["qubit_groups"], ["params"]] with
  | [some kind, some groups, params] =>
    let gate ← kind.unitTag?.bind Gate.ofName?
    let groups ← groups.listOf? (Json.listOf? (Json.toNatBelow? qubitBound))
    let params ← match params with
      | some j => j.listOf? Param.ofJson?
      | none => some []
    some ⟨gate, groups, params⟩
  | _ => none

def Circuit.ofJson (j : Json) : Except DocumentFault (Circuit Float) :=
  let raw? : Option (Nat × List (Operation Float)) := do
    match ← j.record? [["num_qubits"], ["operations"]] with
    | [some numQubits, operations] =>
      let numQubits ← numQubits.toNatBelow? qubitBound
      let operations ← match operations with
        | some j => j.listOf? Operation.ofJson?
        | none => some []
      some (numQubits, operations)
    | _ => none
  match raw? with
  | none => .error .malformed
  | some (numQubits, operations) =>
    match (Circuit.new numQubits).bind (·.pushAll operations) with
    | .ok c => .ok c
    | .error fault => .error (.refused fault)

/-- The circuit a text holds.  A circuit that is refused is reported before anything that
    follows the document. -/
def Circuit.ofText (text : String) : Except DocumentFault (Circuit Float) :=
  match Json.readPrefix? text with
  | none => .error .malformed
  | some (j, rest) => do
    let c ← Circuit.ofJson j
    if (Json.skipBlanks rest).isEmpty then .ok c else .error .malformed

end CircuitBroker
