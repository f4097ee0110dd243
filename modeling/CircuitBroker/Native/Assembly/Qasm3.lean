/-
  CircuitBroker/Native/Assembly/Qasm3.lean
  ========================================
  **Assembly programs as OpenQASM 3 documents.**

  The text sent to a device is written in two steps: `Qasm3.ofAssembly` makes a document
  of gate definitions and statements, `Qasm3.text` prints it.  An instruction of the
  included gate library is a call of that name; `inv` and `ctrl` modifiers stand for the
  instructions the library lacks; for the rest the document defines a gate, once, in the
  order in which they are first needed.
-/
import CircuitBroker.Native.Assembly.Qasm2

namespace CircuitBroker

variable {R : Type}

namespace Qasm3

/-! ### Gate definitions -/

inductive BodyAngle where
  | theta
  | halfPi
  | minusHalfPi
  deriving DecidableEq

/-- A call in the body of a definition; operands are numbered as the definition lists
    them. -/
structure BodyCall where
  gate : String
  angle : Option BodyAngle
  operands : List Nat
  deriving DecidableEq

/-- A gate with or without an angle `theta`, on so many operands. -/
structure Definition where
  name : String
  hasAngle : Bool
  arity : Nat
  body : List BodyCall
  deriving DecidableEq

def call (gate : String) (operands : List Nat) : BodyCall := ⟨gate, none, operands⟩

def turn (gate : String) (angle : BodyAngle) (operand : Nat) : BodyCall :=
  ⟨gate, some angle, [operand]⟩

/-- `rz(theta)` on the second operand between two controlled `x`. -/
def parityTurn : List BodyCall := [call "cx" [0, 1], turn "rz" .theta 1, call "cx" [0, 1]]

def iswap : Definition :=
  ⟨"iswap", false, 2,
    [call "s" [0], call "s" [1], call "h" [0], call "cx" [0, 1], call "cx" [1, 0], call "h" [1]]⟩

def dcx : Definition := ⟨"dcx", false, 2, [call "cx" [0, 1], call "cx" [1, 0]]⟩

def rxx : Definition :=
  ⟨"rxx", true, 2,
    [call "h" [0], call "h" [1]] ++ parityTurn ++ [call "h" [1], call "h" [0]]⟩

def ryy : Definition :=
  ⟨"ryy", true, 2,
    [turn "rx" .halfPi 0, turn "rx" .halfPi 1] ++ parityTurn ++
      [turn "rx" .minusHalfPi 0, turn "rx" .minusHalfPi 1]⟩

def rzz : Definition := ⟨"rzz", true, 2, parityTurn⟩

def rzx : Definition := ⟨"rzx", true, 2, [call "h" [1]] ++ parityTurn ++ [call "h" [1]]⟩

def rccx : Definition :=
  ⟨"rccx", false, 3,
    [call "h" [2], call "t" [2], call "cx" [1, 2], call "tdg" [2], call "cx" [0, 2],
     call "t" [2], call "cx" [1, 2], call "tdg" [2], call "h" [2]]⟩

def rc3x : Definition :=
  ⟨"rc3x", false, 4,
    [call "h" [3], call "t" [3], call "cx" [2, 3], call "tdg" [3], call "h" [3],
     call "cx" [0, 3], call "t" [3], call "cx" [1, 3], call "tdg" [3], call "cx" [0, 3],
     call "t" [3], call "cx" [1, 3], call "tdg" [3], call "h" [3], call "t" [3],
     call "cx" [2, 3], call "tdg" [3], call "h" [3]]⟩

def definition? : AssemblyGate R → Option Definition
  | .iswap => some iswap
  | .dcx => some dcx
  | .rxx _ => some rxx
  | .ryy _ => some ryy
  | .rzz _ => some rzz
  | .rzx _ => some rzx
  | .rccx => some rccx
  | .rc3x => some rc3x
  | _ => none

/-! ### Statements -/

inductive Modifier where
  | inverse
  | control
  | controls (n : Nat)
  deriving DecidableEq

inductive Statement (R : Type) where
  | call (modifiers : List Modifier) (gate : String) (angles : List R) (operands : List Nat)
  | barrier (operands : List Nat)
  | measure (bit operand : Nat)

def Statement.ofGate [Zero R] [Sub R] [Elementary R] (g : AssemblyGate R) (operands : List Nat) :
    Statement R :=
  let quarter : R := Elementary.half Elementary.pi
  match g with
  | .u theta phi lambda => .call [] "U" [theta, phi, lambda] operands
  | .r theta phi => .call [] "U" [theta, phi - quarter, quarter - phi] operands
  | .sxdg => .call [.inverse] "sx" [] operands
  | .csx => .call [.control] "sx" [] operands
  | .cu1 lambda => .call [] "cp" [lambda] operands
  | .cu3 theta phi lambda => .call [] "cu" [theta, phi, lambda, 0] operands
  | .c3x => .call [.controls 3] "x" [] operands
  | .c3sx => .call [.controls 3] "sx" [] operands
  | .c4x => .call [.controls 4] "x" [] operands
  | .mcx n _ => .call [.controls n] "x" [] operands
  | .mcphase lambda n => .call [.controls n] "p" [lambda] operands
  | g => .call [] g.name g.angles operands

/-- The statement of an instruction; ancillas are left out. -/
def Statement.ofInstruction [Zero R] [Sub R] [Elementary R] : AssemblyInstruction R → Statement R
  | .gate g qubits _ => .ofGate g qubits
  | .barrier qubits => .barrier qubits
  | .measure q => .measure q q

end Qasm3

open Qasm3

/-- A register of qubits and one of bits, gate definitions, and statements. -/
structure Qasm3 (R : Type) where
  numQubits : Nat
  definitions : List Definition
  statements : List (Statement R)

namespace Qasm3

def gate? : AssemblyInstruction R → Option (AssemblyGate R)
  | .gate g _ _ => some g
  | _ => none

/-- The definitions some gates need, each once, in order of first need. -/
def definitionsFor (gates : List (AssemblyGate R)) : List Definition :=
  (gates.filterMap definition?).eraseDups

def ofAssembly [Zero R] [Sub R] [Elementary R] (c : Assembly R) : Qasm3 R :=
  ⟨c.numQubits, definitionsFor (c.instructions.filterMap gate?),
    c.instructions.map Statement.ofInstruction⟩

/-! ### Text -/

def BodyAngle.text : BodyAngle → String
  | .theta => "theta"
  | .halfPi => "pi/2"
  | .minusHalfPi => "-pi/2"

def letter (operand : Nat) : String := String.singleton (Char.ofNat ('a'.toNat + operand))

def BodyCall.text (c : BodyCall) : String :=
  let angle := match c.angle with
    | some a => "(" ++ a.text ++ ")"
    | none => ""
  c.gate ++ angle ++ " " ++ ", ".intercalate (c.operands.map letter) ++ ";"

def Definition.text (d : Definition) : String :=
  "gate " ++ d.name ++ (if d.hasAngle then "(theta)" else "") ++ " " ++
    ", ".intercalate ((List.range d.arity).map letter) ++ " \x7b " ++
    " ".intercalate (d.body.map BodyCall.text) ++ " \x7d\n"

def Modifier.text : Modifier → String
  | .inverse => "inv @ "
  | .control => "ctrl @ "
  | .controls n => "ctrl(" ++ toString n ++ ") @ "

def operands (qubits : List Nat) : String := ", ".intercalate (qubits.map Assembly.operand)

def Statement.text (shown : R → String) : Statement R → String
  | .call modifiers gate angles qubits =>
    String.join (modifiers.map Modifier.text) ++ gate ++ Assembly.angleList shown angles ++ " " ++
      operands qubits ++ ";\n"
  | .barrier qubits => "barrier " ++ operands qubits ++ ";\n"
  | .measure bit qubit =>
    "c[" ++ toString bit ++ "] = measure " ++ Assembly.operand qubit ++ ";\n"

/-- The document as text, its angles as they are shown. -/
def text (shown : R → String) (d : Qasm3 R) : String :=
  "OPENQASM 3.0;\ninclude \"stdgates.inc\";\n" ++ String.join (d.definitions.map Definition.text) ++
    "qubit[" ++ toString d.numQubits ++ "] q;\nbit[" ++ toString d.numQubits ++ "] c;\n" ++
    String.join (d.statements.map (Statement.text shown))

end Qasm3

def Assembly.qasm3 (c : Assembly Float) : String := (Qasm3.ofAssembly c).text (Decimal.text .plain)

end CircuitBroker
