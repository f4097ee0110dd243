/-
  CircuitBroker/Proofs/Amplitude.lean
  ===================================
  **Amplitudes over a commutative ring form a commutative ring.**

  The operations are those the programs run with; only the laws are new.
-/
import CircuitBroker.Amplitude
import Mathlib

namespace CircuitBroker.Amplitude

variable {R : Type}

/-! ### The ring -/

section Ring

variable [CommRing R]

/-- Both parts times a whole number; the ring's repeated addition. -/
instance : SMul Nat (Amplitude R) := ⟨fun n a => ⟨n • a.re, n • a.im⟩⟩

instance : SMul Int (Amplitude R) := ⟨fun n a => ⟨n • a.re, n • a.im⟩⟩

@[simp] theorem nsmul_re (n : Nat) (a : Amplitude R) : (n • a).re = n • a.re := rfl
@[simp] theorem nsmul_im (n : Nat) (a : Amplitude R) : (n • a).im = n • a.im := rfl
@[simp] theorem zsmul_re (n : Int) (a : Amplitude R) : (n • a).re = n • a.re := rfl
@[simp] theorem zsmul_im (n : Int) (a : Amplitude R) : (n • a).im = n • a.im := rfl

instance : CommRing (Amplitude R) where
  add_assoc a b c := by ext <;> simp [add_assoc]
  zero_add a := by ext <;> simp
  add_zero a := by ext <;> simp
  add_comm a b := by ext <;> simp [add_comm]
  neg_add_cancel a := by ext <;> simp
  sub_eq_add_neg a b := by ext <;> simp [sub_eq_add_neg]
  nsmul := (· • ·)
  nsmul_zero a := by ext <;> simp
  nsmul_succ n a := by ext <;> simp [add_mul]
  zsmul := (· • ·)
  zsmul_zero' a := by ext <;> simp
  zsmul_succ' n a := by ext <;> simp [add_mul]
  zsmul_neg' n a := by ext <;> simp [Int.negSucc_eq]; ring; ring
  mul_assoc a b c := by ext <;> simp <;> ring
  one_mul a := by ext <;> simp
  mul_one a := by ext <;> simp
  left_distrib a b c := by ext <;> simp <;> ring
  right_distrib a b c := by ext <;> simp <;> ring
  zero_mul a := by ext <;> simp
  mul_zero a := by ext <;> simp
  mul_comm a b := by ext <;> simp <;> ring

instance [Nontrivial R] : Nontrivial (Amplitude R) :=
  ⟨0, 1, fun h => zero_ne_one (congrArg re h)⟩

@[simp] theorem conjugate_zero : Conjugate.conj (0 : Amplitude R) = 0 := by
  ext <;> simp [Conjugate.conj, conj]

@[simp] theorem conjugate_one : Conjugate.conj (1 : Amplitude R) = 1 := by
  ext <;> simp [Conjugate.conj, conj]

end Ring

end CircuitBroker.Amplitude
