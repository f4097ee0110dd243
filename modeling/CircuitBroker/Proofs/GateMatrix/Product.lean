/-
  CircuitBroker/Proofs/GateMatrix/Product.lean
  ============================================
  **Entries of a product.**

  A product passes over the zero entries of its left factor.  Where equality is what `==`
  decides, this changes no sum, so an entry is a row times a column.
-/
import CircuitBroker.Proofs.Amplitude
import CircuitBroker.Proofs.Statevector.Controls

namespace CircuitBroker

instance {R : Type} [BEq R] [LawfulBEq R] : LawfulBEq (Amplitude R) where
  eq_of_beq h := by
    obtain ⟨hre, him⟩ := Bool.and_eq_true_iff.mp h
    exact Amplitude.ext (eq_of_beq hre) (eq_of_beq him)
  rfl := Bool.and_eq_true_iff.mpr ⟨beq_self_eq_true _, beq_self_eq_true _⟩

namespace GateMatrix

variable {K : Type} [CommRing K] [BEq K]

theorem OnQubits.mul {a : GateMatrix K} {k : Nat} (h : a.OnQubits k) (b : GateMatrix K) :
    (a.mul b).OnQubits k := by
  rw [GateMatrix.mul, h.dim]
  exact onQubits_ofFn _

variable [LawfulBEq K]

theorem get_mul (a b : GateMatrix K) {r c : Nat} (hr : r < a.dim) (hc : c < a.dim) :
    (a.mul b).get r c = ∑ k ∈ Finset.range a.dim, a.get r k * b.get k c := by
  have hfold : ∀ count acc, (List.range count).foldl
      (fun acc k => if a.get r k == 0 then acc else acc + a.get r k * b.get k c) acc =
        acc + ∑ k ∈ Finset.range count, a.get r k * b.get k c := by
    intro count acc
    induction count with
    | zero => simp
    | succ count ih =>
      rw [List.range_succ, List.foldl_append, ih, Finset.sum_range_succ, List.foldl_cons,
        List.foldl_nil]
      split
      · next h => rw [eq_of_beq h, zero_mul, add_zero]
      · rw [add_assoc]
  rw [mul, get_ofFn _ hr hc, hfold, zero_add]

end GateMatrix

end CircuitBroker
