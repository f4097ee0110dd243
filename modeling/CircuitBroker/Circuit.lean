/-
  CircuitBroker/Circuit.lean
  ==========================
  **Circuits: a log of operations on numbered qubits.**

  Operations are executed in the order in which they were recorded.  A circuit takes an
  operation only if `Operation.validate` accepts it, so what is recorded always has the
  shape its gate's signature asks for, on distinct qubits of the circuit, with finite
  angles; a refused operation leaves the circuit as it was.
-/
import CircuitBroker.Failure

namespace CircuitBroker

variable {R : Type}

/-- A gate with its qubits, in groups, and its parameters. -/
structure Operation (R : Type) where
  gate : Gate
  groups : List (List Nat)
  params : List (Param R)
  deriving DecidableEq, Inhabited

namespace Operation

/-! ### Parts of an operation -/

def qubits (op : Operation R) : List Nat := op.groups.flatten

def angles (op : Operation R) : List R := op.params.filterMap Param.angle?

/-- The first group: the controls of a multi-controlled gate. -/
def controls (op : Operation R) : List Nat := op.groups.headD []

def target? (op : Operation R) : Option Nat := (op.groups[1]?).bind List.head?

def ancillas (op : Operation R) : List Nat := (op.groups[2]?).getD []

/-- The decomposition asked for; the plain one unless a parameter says otherwise. -/
def mode (op : Operation R) : ControlMode := (op.params.findSome? Param.mode?).getD .noAncilla

def flag (op : Operation R) : Bool :=
  op.params.any fun
    | .flag b => b
    | _ => false

/-! ### Validation -/

/-- Every qubit below `numQubits` and none twice; `seen` holds the qubits before these. -/
def checkQubits (gate : Gate) (numQubits : Nat) :
    List Nat → List Nat → Except (CircuitFault R) Unit
  | _, [] => .ok ()
  | seen, q :: qs =>
    if numQubits ≤ q then .error (.qubitOutOfBounds q numQubits gate)
    else if seen.contains q then .error (.duplicateQubit q gate)
    else checkQubits gate numQubits (q :: seen) qs

def layoutAllows : QubitLayout → List Nat → Bool
  | .fixed n, sizes => sizes.length == n && sizes.all (· == 1)
  | .controlled ancillas, sizes =>
    2 ≤ sizes.length && sizes.length ≤ (if ancillas then 3 else 2) &&
      sizes.headD 0 != 0 && (sizes[1]?).getD 0 == 1

def checkParams [Magnitude R] (gate : Gate) (controls : Nat) :
    Nat → List ParamKind → List (Param R) → Except (CircuitFault R) Unit
  | position, kind :: kinds, param :: params =>
    if param.kind ≠ kind then .error (.wrongParams gate (.wrongKind position kind param))
    else
      match param with
      | .angle a =>
        if Magnitude.isFinite a then checkParams gate controls (position + 1) kinds params
        else .error (.wrongParams gate (.notFinite position))
      | .count n =>
        if n = controls then checkParams gate controls (position + 1) kinds params
        else .error (.wrongParams gate (.wrongControlCount n controls))
      | _ => checkParams gate controls (position + 1) kinds params
  | _, _, _ => .ok ()

/-- Whether a circuit of `numQubits` qubits may record an operation.  Qubits are looked at
    first, then their grouping, then the parameters. -/
def validate [Magnitude R] (op : Operation R) (numQubits : Nat) : Except (CircuitFault R) Unit := do
  checkQubits op.gate numQubits [] op.qubits
  let sizes := op.groups.map List.length
  let signature := op.gate.signature
  unless layoutAllows signature.qubits sizes do
    throw (.wrongGroups op.gate sizes)
  unless op.params.length = signature.params.length do
    throw (.wrongParams op.gate (.wrongNumber signature.params.length op.params.length))
  checkParams op.gate op.controls.length 0 signature.params op.params

/-! ### Text -/

def qubitText (q : Nat) : String := "q" ++ toString q

/-- The gate, its parameters in parentheses and each group in brackets. -/
def text (op : Operation Float) : String :=
  let params :=
    if op.params.isEmpty then ""
    else "(" ++ ", ".intercalate (op.params.map Param.text) ++ ")"
  let groups := op.groups.map fun g => " [" ++ ", ".intercalate (g.map qubitText) ++ "]"
  op.gate.name ++ params ++ String.join groups

end Operation

def ascending (qubits : List Nat) : List Nat :=
  (qubits.mergeSort (· ≤ ·)).eraseDups

/-- A number of qubits and a log of operations on them. -/
structure Circuit (R : Type) where
  numQubits : Nat
  operations : List (Operation R)
  deriving DecidableEq, Inhabited

namespace Circuit

def new (numQubits : Nat) : Except (CircuitFault R) (Circuit R) :=
  if numQubits = 0 then .error .noQubits else .ok ⟨numQubits, []⟩

/-- Records an operation at the end of the log of the circuit in hand, if it is valid there. -/
def record [Magnitude R] (op : Operation R) :
    ExceptT (CircuitFault R) (StateM (Circuit R)) Unit := do
  MonadExcept.ofExcept (op.validate (← get).numQubits)
  modify fun c => { c with operations := c.operations ++ [op] }

/-- The circuit with an operation recorded, if that was taken. -/
def push [Magnitude R] (c : Circuit R) (op : Operation R) : Except (CircuitFault R) (Circuit R) :=
  let (outcome, c') := (record op).run.run c
  outcome.map fun () => c'

/-- Records operations one after the other, up to the first that is refused. -/
def pushAll [Magnitude R] (c : Circuit R) (ops : List (Operation R)) :
    Except (CircuitFault R) (Circuit R) :=
  ops.foldlM push c

def size (c : Circuit R) : Nat := c.operations.length

def isEmpty (c : Circuit R) : Bool := c.operations.isEmpty

def hasMeasurements (c : Circuit R) : Bool := c.operations.any (·.gate.isMeasurement)

/-- The qubits measured by some operations, ascending; measuring all of them ends the
    search. -/
def measuredBy (numQubits : Nat) : List (Operation R) → List Nat → List Nat
  | [], found => ascending found
  | op :: ops, found =>
    match op.gate with
    | .measureAll => List.range numQubits
    | .measure => measuredBy numQubits ops (found ++ op.qubits)
    | _ => measuredBy numQubits ops found

def measuredQubits (c : Circuit R) : List Nat := measuredBy c.numQubits c.operations []

end Circuit

end CircuitBroker
