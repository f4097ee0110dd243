/-
  CircuitBroker/Native.lean
  =========================
  **A circuit in the form of a backend.**

  Every backend has its own form of circuit.  `Native.ofCircuit` translates a recorded
  circuit into the form of a backend; a native circuit can be drawn and lowered whatever
  its form.
-/
import CircuitBroker.Native.Assembly.Qasm3
import CircuitBroker.Native.Moments.Diagram
import CircuitBroker.Native.Ion
import CircuitBroker.Native.Modifiers
import CircuitBroker.Native.Functors

namespace CircuitBroker

/-- A circuit in the form of a backend. -/
inductive Native (R : Type) where
  | assembly (program : Assembly R)
  | moments (circuit : MomentCircuit R)
  | ion (circuit : IonCircuit R)
  | modifiers (program : ModifierProgram R)
  | functors (program : FunctorProgram R)

namespace Native

variable {R : Type}

def numQubits : Native R → Nat
  | .assembly p => p.numQubits
  | .moments c => c.numQubits
  | .ion c => c.inner.numQubits
  | .modifiers p => p.numQubits
  | .functors p => p.numQubits

def ofCircuit [Zero R] [One R] [Add R] [Sub R] [Neg R] [Mul R] [BEq R] [Elementary R]
    [Magnitude R] [AngleLabel R] (backend : Backend) (c : Circuit R) :
    Except (Failure R) (Native R) :=
  match backend with
  | .qiskit => (Assembly.ofCircuit c).map .assembly
  | .cirq => (MomentCircuit.ofCircuit .cirq c).map .moments
  | .ionq => (IonCircuit.ofCircuit c).map .ion
  | .braket => (ModifierProgram.ofCircuit c).map .modifiers
  | .qsharp => (FunctorProgram.ofCircuit c).map .functors

def lower [Zero R] [One R] [Add R] [Sub R] [Neg R] [Mul R] [BEq R] [Elementary R] [Magnitude R] :
    Native R → Except (Failure R) (LoweredCircuit (Amplitude R))
  | .assembly p => p.lower
  | .moments c => c.lower
  | .ion c => c.lower
  | .modifiers p => p.lower
  | .functors p => p.lower

/-- A native circuit as its backend shows it: a program text or a diagram. -/
def text : Native Float → Except MachineFault String
  | .assembly p => .ok p.qasm2
  | .moments c => c.diagram
  | .ion c => c.inner.diagram
  | .modifiers p => .ok p.text
  | .functors p => .ok p.text

end Native

end CircuitBroker
