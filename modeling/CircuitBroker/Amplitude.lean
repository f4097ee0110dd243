/-
  CircuitBroker/Amplitude.lean
  ============================
  **Complex numbers over the scalars of a circuit.**

  An amplitude is a pair of real scalars.  The product is written out in the order in
  which a rounded sum of products is taken, so that the same definitions give exact
  amplitudes over a ring and rounded ones over doubles.
-/
import CircuitBroker.Scalar

namespace CircuitBroker

/-- A conjugation: the one operation of complex numbers that a ring does not have. -/
class Conjugate (K : Type) where
  conj : K → K

/-- The complex number `re + im·i`. -/
@[ext]
structure Amplitude (R : Type) where
  re : R
  im : R
  deriving Inhabited

namespace Amplitude

variable {R : Type}

instance [Zero R] : Zero (Amplitude R) := ⟨⟨0, 0⟩⟩
instance [Zero R] [One R] : One (Amplitude R) := ⟨⟨1, 0⟩⟩
instance [Add R] : Add (Amplitude R) := ⟨fun a b => ⟨a.re + b.re, a.im + b.im⟩⟩
instance [Sub R] : Sub (Amplitude R) := ⟨fun a b => ⟨a.re - b.re, a.im - b.im⟩⟩
instance [Neg R] : Neg (Amplitude R) := ⟨fun a => ⟨-a.re, -a.im⟩⟩
instance [Add R] [Sub R] [Mul R] : Mul (Amplitude R) :=
  ⟨fun a b => ⟨a.re * b.re - a.im * b.im, a.re * b.im + a.im * b.re⟩⟩
instance [BEq R] : BEq (Amplitude R) := ⟨fun a b => a.re == b.re && a.im == b.im⟩

def i [Zero R] [One R] : Amplitude R := ⟨0, 1⟩

def ofReal [Zero R] (x : R) : Amplitude R := ⟨x, 0⟩

/-- The point of the unit circle at an angle. -/
def phase [Elementary R] (angle : R) : Amplitude R := ⟨Elementary.cos angle, Elementary.sin angle⟩

def scale [Mul R] (a : Amplitude R) (x : R) : Amplitude R := ⟨a.re * x, a.im * x⟩

def divide [Div R] (a : Amplitude R) (x : R) : Amplitude R := ⟨a.re / x, a.im / x⟩

def conj [Neg R] (a : Amplitude R) : Amplitude R := ⟨a.re, -a.im⟩

instance [Neg R] : Conjugate (Amplitude R) := ⟨conj⟩

/-- The squared modulus, the probability an amplitude stands for. -/
def normSq [Add R] [Mul R] (a : Amplitude R) : R := a.re * a.re + a.im * a.im

def modulus [Magnitude R] (a : Amplitude R) : R := Magnitude.hypot a.re a.im

@[simp] theorem zero_re [Zero R] : (0 : Amplitude R).re = 0 := rfl
@[simp] theorem zero_im [Zero R] : (0 : Amplitude R).im = 0 := rfl
@[simp] theorem one_re [Zero R] [One R] : (1 : Amplitude R).re = 1 := rfl
@[simp] theorem one_im [Zero R] [One R] : (1 : Amplitude R).im = 0 := rfl
@[simp] theorem add_re [Add R] (a b : Amplitude R) : (a + b).re = a.re + b.re := rfl
@[simp] theorem add_im [Add R] (a b : Amplitude R) : (a + b).im = a.im + b.im := rfl
@[simp] theorem sub_re [Sub R] (a b : Amplitude R) : (a - b).re = a.re - b.re := rfl
@[simp] theorem sub_im [Sub R] (a b : Amplitude R) : (a - b).im = a.im - b.im := rfl
@[simp] theorem neg_re [Neg R] (a : Amplitude R) : (-a).re = -a.re := rfl
@[simp] theorem neg_im [Neg R] (a : Amplitude R) : (-a).im = -a.im := rfl
@[simp] theorem mul_re [Add R] [Sub R] [Mul R] (a b : Amplitude R) :
    (a * b).re = a.re * b.re - a.im * b.im := rfl
@[simp] theorem mul_im [Add R] [Sub R] [Mul R] (a b : Amplitude R) :
    (a * b).im = a.re * b.im + a.im * b.re := rfl

end Amplitude

end CircuitBroker
