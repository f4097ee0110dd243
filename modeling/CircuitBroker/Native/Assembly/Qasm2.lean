/-
  CircuitBroker/Native/Assembly/Qasm2.lean
  ========================================
  **Assembly programs as OpenQASM 2 text.**

  One line an instruction, under its own name; ancillas follow the other operands.
-/
import CircuitBroker.Native.Assembly

namespace CircuitBroker

def Assembly.operand (q : Nat) : String := "q[" ++ toString q ++ "]"

/-- Angles in parentheses; nothing at all without angles. -/
def Assembly.angleList {R : Type} (shown : R → String) (angles : List R) : String :=
  if angles.isEmpty then "" else "(" ++ ", ".intercalate (angles.map shown) ++ ")"

def AssemblyInstruction.qasm2 : AssemblyInstruction Float → String
  | .gate g qubits ancillas =>
    g.name ++ Assembly.angleList (Decimal.text .plain) g.angles ++ " " ++
      ",".intercalate ((qubits ++ ancillas).map Assembly.operand) ++ ";\n"
  | .barrier qubits => "barrier " ++ ",".intercalate (qubits.map Assembly.operand) ++ ";\n"
  | .measure q => "measure " ++ Assembly.operand q ++ " -> c[" ++ toString q ++ "];\n"

def Assembly.qasm2 (c : Assembly Float) : String :=
  "OPENQASM 2.0;\ninclude \"qelib1.inc\";\nqreg q[" ++ toString c.numQubits ++ "];\ncreg c[" ++
    toString c.numQubits ++ "];\n" ++ String.join (c.instructions.map AssemblyInstruction.qasm2)

end CircuitBroker
