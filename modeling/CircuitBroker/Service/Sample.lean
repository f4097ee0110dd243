/-
  CircuitBroker/Service/Sample.lean
  =================================
  **Outcomes as numbers.**

  Some services report an outcome as a number of at most 128 bits, bit `q` of which is the
  value of qubit `q`.
-/
import CircuitBroker.Simulation.Simulator
import CircuitBroker.Text.Numeral

namespace CircuitBroker.Sample

/-- A number below `2 ^ 128`: at least one digit, perhaps after a plus sign. -/
def read? (base : Nat) (s : String) : Option Nat := Numeral.read? base (1 <<< 128) s

def readHex? (s : String) : Option Nat :=
  match s.toList with
  | '0' :: 'x' :: rest => read? 16 (String.ofList rest)
  | _ => read? 16 s

/-- The bits of a number at the measured qubits; beyond 128 bits there are only zeros. -/
def bitstring (measured : List Nat) (n : Nat) : String :=
  Simulator.bitstring measured fun q => q < 128 && n.testBit q

end CircuitBroker.Sample
