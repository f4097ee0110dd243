/-
  CircuitBroker/Proofs/GateMatrix/Library.lean
  ============================================
  **The matrices of the gate libraries are unitary.**

  A backend that has no form of its own for a gate kind keeps a matrix for it, and a matrix
  becomes a gate only if it passes the unitarity check.  `LibraryPasses` says that all of them
  do.  It is a matter of rounding where scalars are rounded; over the reals it holds
  (`libraryPasses`), because the columns of each matrix are orthonormal: those of a matrix of
  blocks if those of the blocks are, those of a controlled matrix if those of its base are, and
  those of an interaction because the product of two reflections is one.
-/
import CircuitBroker.GateMatrix.Custom
import CircuitBroker.Native.Assembly
import CircuitBroker.Proofs.GateMatrix.Algebra
import CircuitBroker.Proofs.GateMatrix.Identities

namespace CircuitBroker

/-! ## 1. What the libraries hold -/

/-- The gates whose matrix some backend keeps. -/
def AssemblyGate.isKept {R : Type} : AssemblyGate R → Bool
  | .sdg | .tdg | .sx | .sxdg | .p _ | .u1 _ | .u2 .. | .r .. | .u .. | .u3 .. | .cy | .ch | .csx
  | .dcx | .rxx _ | .ryy _ | .rzz _ | .rzx _ | .cp _ | .cu1 _ | .crx _ | .cry _ | .crz _ | .cu3 ..
  | .cu .. | .rccx | .c3sx | .rc3x => true
  | _ => false

section Matrix

variable {R : Type} [Zero R] [One R] [Add R] [Sub R] [Neg R] [Mul R] [Elementary R]

def AssemblyGate.matrix (g : AssemblyGate R) : GateMatrix (Amplitude R) :=
  match g.lowered with
  | (m, 0) => m
  | (m, controls + 1) => m.controlled (controls + 1)

variable (R) [BEq R] [Magnitude R]

/-- Every matrix a library keeps, at whatever finite angles, passes the unitarity check. -/
def LibraryPasses : Prop :=
  ∀ g : AssemblyGate R, g.isKept = true → (∀ a ∈ g.angles, Magnitude.isFinite a = true) →
    g.matrix.excessDeviation? = none

end Matrix

/-! ## 2. Orthonormal columns -/

namespace GateMatrix

open Amplitude (ofReal phase i)
open Elementary (half pi)
open Conjugate (conj)
open LawfulConjugate (conjugate_add conjugate_mul conjugate_conjugate)
open scoped Matrix

/-- A matrix of a dimension whose conjugate transpose is its inverse. -/
structure Orthonormal (u : GateMatrix (Amplitude ℝ)) (n : Nat) : Prop where
  dim : u.dim = n
  columns : ∀ r < n, ∀ c < n,
    ∑ j ∈ Finset.range n, conj (u.get j r) * u.get j c = if r = c then 1 else 0

/-- A matrix inverted by its conjugate transpose deviates by nothing. -/
theorem unitarityDeviation_eq_zero {u : GateMatrix (Amplitude ℝ)}
    (h : ∀ r < u.dim, ∀ c < u.dim, (u.adjoint.mul u).get r c = if r = c then 1 else 0) :
    u.unitarityDeviation = 0 := by
  have hkeep : ∀ (f : ℝ → Nat → ℝ) (l : List Nat), (∀ k ∈ l, f 0 k = 0) → l.foldl f 0 = 0 := by
    intro f l hl
    induction l with
    | nil => rfl
    | cons k l ih =>
      obtain ⟨hk, hrest⟩ := List.forall_mem_cons.mp hl
      rw [List.foldl_cons, hk, ih hrest]
  rw [unitarityDeviation]
  refine hkeep _ _ fun r hr => hkeep _ _ fun c hc => ?_
  rw [h r (List.mem_range.mp hr) c (List.mem_range.mp hc)]
  have hdifference : ((if r = c then 1 else 0) -
      Amplitude.ofReal (if r = c then (1 : ℝ) else 0) : Amplitude ℝ) = 0 := by
    split <;> ext <;> simp [Amplitude.ofReal]
  dsimp only
  rw [hdifference]
  simp [Amplitude.modulus, Magnitude.hypot, Magnitude.max]

theorem Orthonormal.excessDeviation? {u : GateMatrix (Amplitude ℝ)} {n : Nat}
    (h : u.Orthonormal n) : u.excessDeviation? = none := by
  obtain ⟨rfl, hcolumns⟩ := h
  have hzero : u.unitarityDeviation = 0 := by
    refine unitarityDeviation_eq_zero fun r hr c hc => ?_
    rw [get_mul u.adjoint u hr hc, ← hcolumns r hr c hc]
    refine Finset.sum_congr rfl fun j hj => ?_
    rw [adjoint, get_ofFn _ hr (Finset.mem_range.mp hj)]
  rw [GateMatrix.excessDeviation?, hzero]
  simp [Magnitude.lt, Magnitude.tolerance]

/-- As matrices of linear algebra: the conjugate transpose times the matrix is one. -/
theorem orthonormal_iff {u : GateMatrix (Amplitude ℝ)} {n : Nat} :
    u.Orthonormal n ↔ u.dim = n ∧ (u.toMatrix n)ᵀ.map conj * u.toMatrix n = 1 := by
  have hentry (row col : Fin n) : ((u.toMatrix n)ᵀ.map conj * u.toMatrix n) row col =
      ∑ j ∈ Finset.range n, conj (u.get j row) * u.get j col := by
    rw [Matrix.mul_apply, Finset.sum_range]
    rfl
  constructor
  · rintro ⟨hdim, hcolumns⟩
    refine ⟨hdim, Matrix.ext fun row col => ?_⟩
    rw [hentry, hcolumns row row.isLt col col.isLt, Matrix.one_apply]
    exact if_congr Fin.ext_iff.symm rfl rfl
  · rintro ⟨hdim, hproduct⟩
    refine ⟨hdim, fun r hr c hc => ?_⟩
    rw [← hentry ⟨r, hr⟩ ⟨c, hc⟩, hproduct, Matrix.one_apply]
    exact if_congr Fin.ext_iff rfl rfl

/-- **Controls keep the columns orthonormal**: the blocks are multiplied one by one. -/
theorem Orthonormal.controlled {u : GateMatrix (Amplitude ℝ)} {k : Nat}
    (h : u.Orthonormal (2 ^ k)) (count : Nat) :
    (u.controlled count).Orthonormal (2 ^ (count + k)) := by
  obtain ⟨hdim, hproduct⟩ := orthonormal_iff.mp h
  obtain ⟨offset, hoffset⟩ := exists_offset count k
  rw [← hoffset, orthonormal_iff, toMatrix_controlled hdim hoffset]
  refine ⟨?_, ?_⟩
  · rw [GateMatrix.controlled, ofFn, hdim, Nat.shiftLeft_eq, ← pow_add, Nat.add_comm, hoffset]
  · rw [lastBlock_adjoint, lastBlock_mul, hproduct, lastBlock_one]

structure OrthonormalPair (a b c d : Amplitude ℝ) : Prop where
  first : conj a * a + conj c * c = 1
  second : conj b * b + conj d * d = 1
  apart : conj a * b + conj c * d = 0

theorem OrthonormalPair.apart' {a b c d : Amplitude ℝ} (h : OrthonormalPair a b c d) :
    conj b * a + conj d * c = 0 := by
  have hconj := congrArg conj h.apart
  rw [conjugate_add, conjugate_mul, conjugate_mul, conjugate_conjugate, conjugate_conjugate,
    Amplitude.conjugate_zero] at hconj
  rw [mul_comm (conj b), mul_comm (conj d)]
  exact hconj

/-- **A matrix of blocks of two has orthonormal columns if the blocks have.** -/
theorem orthonormal_of_blocks {u : GateMatrix (Amplitude ℝ)} (blocks : Nat)
    (hdim : u.dim = 2 * blocks)
    (houtside : ∀ r < 2 * blocks, ∀ c < 2 * blocks, r / 2 ≠ c / 2 → u.get r c = 0)
    (hblocks : ∀ v < blocks, OrthonormalPair (u.get (2 * v) (2 * v)) (u.get (2 * v) (2 * v + 1))
      (u.get (2 * v + 1) (2 * v)) (u.get (2 * v + 1) (2 * v + 1))) :
    u.Orthonormal (2 * blocks) := by
  refine ⟨hdim, fun r hr c hc => ?_⟩
  have hpairs : ∀ (f : Nat → Amplitude ℝ) (n : Nat), ∑ j ∈ Finset.range (2 * n), f j =
      ∑ v ∈ Finset.range n, (f (2 * v) + f (2 * v + 1)) := by
    intro f n
    induction n with
    | zero => rfl
    | succ n ih =>
      rw [Nat.mul_succ, Finset.sum_range_succ, Finset.sum_range_succ, ih,
        Finset.sum_range_succ (fun v => f (2 * v) + f (2 * v + 1)), add_assoc]
  have hzero : ∀ v < blocks, v ≠ r / 2 → ∀ bit < 2, u.get (2 * v + bit) r = 0 := by
    intro v hv hne bit hbit
    exact houtside _ (by omega) r hr (by omega)
  rw [hpairs, Finset.sum_eq_single (r / 2)]
  · by_cases hsame : r / 2 = c / 2
    · have hblock := hblocks (r / 2) (by omega)
      obtain ⟨x, hx | hx⟩ : ∃ x, r = 2 * x ∨ r = 2 * x + 1 := ⟨r / 2, by omega⟩
      all_goals
        have hhalf : r / 2 = x := by omega
        obtain hy | hy : c = 2 * x ∨ c = 2 * x + 1 := by omega
        all_goals
          rw [hhalf] at hblock ⊢
          rw [hx, hy]
      · rw [if_pos rfl]
        exact hblock.first
      · rw [if_neg (by omega)]
        exact hblock.apart
      · rw [if_neg (by omega)]
        exact hblock.apart'
      · rw [if_pos rfl]
        exact hblock.second
    · rw [houtside (2 * (r / 2)) (by omega) c hc (by omega),
        houtside (2 * (r / 2) + 1) (by omega) c hc (by omega), mul_zero, mul_zero, add_zero,
        if_neg (by omega)]
  · intro v hv hne
    have hleft := hzero v (Finset.mem_range.mp hv) hne
    rw [← Nat.add_zero (2 * v), hleft 0 (by decide), Nat.add_zero, hleft 1 (by decide),
      Amplitude.conjugate_zero, zero_mul, zero_mul, add_zero]
  · intro hout
    exact absurd (Finset.mem_range.mpr (by omega)) hout

/-! ## 3. One qubit -/

theorem conj_phase_mul (x : ℝ) : conj (phase x) * phase x = 1 := by
  ext
  · simp only [conj, Amplitude.conj, phase, Amplitude.mul_re, Amplitude.one_re, Elementary.cos,
      Elementary.sin]
    linarith [Real.cos_sq_add_sin_sq x]
  · simp only [conj, Amplitude.conj, phase, Amplitude.mul_im, Amplitude.one_im]
    ring

theorem conj_ofReal (x : ℝ) : conj (ofReal x) = ofReal x := by
  ext <;> simp [conj, Amplitude.conj, ofReal]

theorem conj_neg (a : Amplitude ℝ) : conj (-a) = -conj a := by
  ext <;> simp [conj, Amplitude.conj]

theorem cos_mul_add_sin_mul (x : ℝ) : (ofReal (Elementary.cos x) : Amplitude ℝ) *
    ofReal (Elementary.cos x) + ofReal (Elementary.sin x) * ofReal (Elementary.sin x) = 1 := by
  ext
  · simp only [ofReal, Amplitude.add_re, Amplitude.mul_re, Amplitude.one_re, Elementary.cos,
      Elementary.sin]
    linarith [Real.cos_sq_add_sin_sq x]
  · simp [ofReal]

theorem orthonormal_square {a b c d : Amplitude ℝ} (h : OrthonormalPair a b c d) :
    (Standard.square a b c d).Orthonormal 2 := by
  refine orthonormal_of_blocks 1 rfl (fun r hr c hc hne => absurd hne (by omega)) fun v hv => ?_
  obtain rfl : v = 0 := by omega
  exact h

theorem orthonormal_diagonal {a b : Amplitude ℝ} (ha : conj a * a = 1) (hb : conj b * b = 1) :
    (diagonal [a, b]).Orthonormal 2 := by
  refine orthonormal_of_blocks 1 rfl (fun r hr c hc hne => absurd hne (by omega)) fun v hv => ?_
  obtain rfl : v = 0 := by omega
  constructor
  · simpa [get_diagonal] using ha
  · simpa [get_diagonal] using hb
  · simp [get_diagonal]

theorem orthonormal_p (lambda : ℝ) : (Standard.p lambda).Orthonormal 2 :=
  orthonormal_diagonal (by simp) (conj_phase_mul lambda)

theorem orthonormal_rz (theta : ℝ) : (Standard.rz theta).Orthonormal 2 :=
  orthonormal_diagonal (conj_phase_mul _) (conj_phase_mul _)

theorem orthonormal_x : (Standard.x : GateMatrix (Amplitude ℝ)).Orthonormal 2 := by
  refine orthonormal_square ⟨?_, ?_, ?_⟩
  all_goals simp

theorem orthonormal_y : (Standard.y : GateMatrix (Amplitude ℝ)).Orthonormal 2 := by
  refine orthonormal_square ⟨?_, ?_, ?_⟩
  all_goals ext <;> simp [conj, Amplitude.conj, i]

theorem orthonormal_z : (Standard.z : GateMatrix (Amplitude ℝ)).Orthonormal 2 := by
  refine orthonormal_square ⟨?_, ?_, ?_⟩
  all_goals simp [conj_neg]

theorem orthonormal_h : (Standard.h : GateMatrix (Amplitude ℝ)).Orthonormal 2 := by
  have hv := Amplitude.invSqrtTwo_sq_add_self
  refine orthonormal_square ⟨?_, ?_, ?_⟩
  · rw [conj_ofReal]
    exact hv
  · rw [conj_neg, conj_ofReal, neg_mul_neg]
    exact hv
  · rw [conj_ofReal]
    ring

theorem orthonormal_sx : (Standard.sx : GateMatrix (Amplitude ℝ)).Orthonormal 2 := by
  refine orthonormal_square ⟨?_, ?_, ?_⟩
  all_goals ext <;> simp [conj, Amplitude.conj, half] <;> norm_num

theorem orthonormal_sxdg : (Standard.sxdg : GateMatrix (Amplitude ℝ)).Orthonormal 2 := by
  have hentries : (Standard.sxdg : GateMatrix (Amplitude ℝ)) = Standard.square ⟨half 1, -half 1⟩
      ⟨half 1, - -half 1⟩ ⟨half 1, - -half 1⟩ ⟨half 1, -half 1⟩ := rfl
  rw [hentries]
  refine orthonormal_square ⟨?_, ?_, ?_⟩
  all_goals ext <;> simp [conj, Amplitude.conj, half] <;> norm_num

theorem orthonormal_rx (theta : ℝ) : (Standard.rx theta).Orthonormal 2 := by
  have hunit := Real.cos_sq_add_sin_sq (half theta)
  refine orthonormal_square ⟨?_, ?_, ?_⟩
  · ext <;> simp [conj, Amplitude.conj, ofReal, Elementary.cos, Elementary.sin]
    linarith
  · ext <;> simp [conj, Amplitude.conj, ofReal, Elementary.cos, Elementary.sin]
    linarith
  · ext <;> simp [conj, Amplitude.conj, ofReal]
    ring

theorem orthonormal_ry (theta : ℝ) : (Standard.ry theta).Orthonormal 2 := by
  have hunit := cos_mul_add_sin_mul (half theta)
  have hneg : (ofReal (-Elementary.sin (half theta)) : Amplitude ℝ) =
      -ofReal (Elementary.sin (half theta)) := by
    ext <;> simp [ofReal]
  refine orthonormal_square ⟨?_, ?_, ?_⟩
  all_goals simp only [hneg, conj_neg, conj_ofReal]
  · exact hunit
  · linear_combination hunit
  · ring

theorem orthonormal_u (theta phi lambda : ℝ) : (Standard.u theta phi lambda).Orthonormal 2 := by
  let s : Amplitude ℝ := ofReal (Elementary.sin (half theta))
  let d : Amplitude ℝ := ofReal (Elementary.cos (half theta))
  have hunit : d * d + s * s = 1 := cos_mul_add_sin_mul (half theta)
  have hphi := conj_phase_mul phi
  have hlambda := conj_phase_mul lambda
  refine orthonormal_square ⟨?_, ?_, ?_⟩
  all_goals simp only [scale_eq_mul, conjugate_mul, conj_neg, conj_ofReal, Amplitude.phase_add]
  · linear_combination hunit + s * s * hphi
  · linear_combination hunit + s * s * hlambda +
      d * d * (conj (phase lambda) * phase lambda) * hphi + d * d * hlambda
  · linear_combination s * d * phase lambda * hphi

/-- A factor of modulus one keeps the columns orthonormal. -/
theorem Orthonormal.scaled {u : GateMatrix (Amplitude ℝ)} {n : Nat} (h : u.Orthonormal n)
    {factor : Amplitude ℝ} (hfactor : conj factor * factor = 1) :
    (u.scaled factor).Orthonormal n := by
  refine ⟨h.dim, fun r hr c hc => ?_⟩
  rw [← h.columns r hr c hc]
  refine Finset.sum_congr rfl fun j _ => ?_
  rw [get_scaled, get_scaled, conjugate_mul]
  linear_combination conj (u.get j r) * u.get j c * hfactor

/-! ## 4. Several qubits -/

/-- **A permutation has orthonormal columns**: in each of them one row is one, and no two have the
    same. -/
theorem orthonormal_permutation {images : List Nat} (hnodup : images.Nodup)
    (hlt : ∀ image ∈ images, image < images.length) :
    (permutation images : GateMatrix (Amplitude ℝ)).Orthonormal images.length := by
  refine ⟨rfl, fun r hr c hc => ?_⟩
  have himage : images.getD r 0 < images.length := by
    rw [List.getD_eq_getElem _ _ hr]
    exact hlt _ (List.getElem_mem hr)
  have hinjective : images.getD c 0 = images.getD r 0 ↔ r = c := by
    rw [List.getD_eq_getElem _ _ hr, List.getD_eq_getElem _ _ hc, hnodup.getElem_inj_iff]
    exact eq_comm
  have hterm : ∀ j ∈ Finset.range images.length,
      conj ((permutation images : GateMatrix (Amplitude ℝ)).get j r) *
        (permutation images : GateMatrix (Amplitude ℝ)).get j c =
          if images.getD r 0 = j then if images.getD c 0 = j then 1 else 0 else 0 := by
    intro j hj
    rw [get_permutation _ (Finset.mem_range.mp hj) hr, get_permutation _ (Finset.mem_range.mp hj) hc]
    by_cases hrow : images.getD r 0 = j
    · rw [if_pos hrow, if_pos hrow, Amplitude.conjugate_one, one_mul]
    · rw [if_neg hrow, if_neg hrow, Amplitude.conjugate_zero, zero_mul]
  rw [Finset.sum_congr rfl hterm, Finset.sum_ite_eq, if_pos (Finset.mem_range.mpr himage)]
  exact if_congr hinjective rfl rfl

theorem conj_i : conj (i : Amplitude ℝ) = -i := by
  ext <;> simp [conj, Amplitude.conj, i]

theorem orthonormal_rccx : (Standard.rccx : GateMatrix (Amplitude ℝ)).Orthonormal 8 := by
  have hi := Amplitude.i_mul_i
  refine orthonormal_of_blocks 4 rfl ?_ fun v hv => ?_
  · exact fun r hr c hc hne => get_patched_of_ne (by simp) hr hc hne
  · interval_cases v
    all_goals
      constructor <;>
        simp (disch := decide) [Standard.rccx, get_patched, conj_neg, conj_i, hi]

theorem orthonormal_rc3x : (Standard.rc3x : GateMatrix (Amplitude ℝ)).Orthonormal 16 := by
  have hi := Amplitude.i_mul_i
  refine orthonormal_of_blocks 8 rfl ?_ fun v hv => ?_
  · exact fun r hr c hc hne => get_patched_of_ne (by simp) hr hc hne
  · interval_cases v
    all_goals
      constructor <;>
        simp (disch := decide) [Standard.rc3x, get_patched, conj_neg, conj_i, hi]

structure Reflection (a : GateMatrix (Amplitude ℝ)) : Prop where
  dim : a.dim = 2
  adjoint : ∀ r < 2, ∀ c < 2, conj (a.get r c) = a.get c r
  square : ∀ r < 2, ∀ c < 2,
    a.get r 0 * a.get 0 c + a.get r 1 * a.get 1 c = if r = c then 1 else 0

theorem reflection_square {a b c d : Amplitude ℝ} (ha : conj a = a) (hb : conj b = c)
    (hd : conj d = d) (hfirst : a * a + b * c = 1) (hsecond : c * b + d * d = 1)
    (hapart : b * (a + d) = 0) (hapart' : c * (a + d) = 0) :
    Reflection (Standard.square a b c d) := by
  have hc : conj c = b := by rw [← hb, conjugate_conjugate]
  refine ⟨rfl, fun r hr l hl => ?_, fun r hr l hl => ?_⟩
  all_goals
    obtain rfl | rfl : r = 0 ∨ r = 1 := by omega
    all_goals obtain rfl | rfl : l = 0 ∨ l = 1 := by omega
  · exact ha
  · exact hb
  · exact hc
  · exact hd
  · exact hfirst
  · change a * b + b * d = 0
    linear_combination hapart
  · change c * a + d * c = 0
    linear_combination hapart'
  · exact hsecond

theorem reflection_x : Reflection (Standard.x : GateMatrix (Amplitude ℝ)) :=
  reflection_square (by simp) (by simp) (by simp) (by simp) (by simp) (by simp) (by simp)

theorem reflection_y : Reflection (Standard.y : GateMatrix (Amplitude ℝ)) := by
  have hi := Amplitude.i_mul_i
  refine reflection_square (by simp) ?_ (by simp) ?_ ?_ (by simp) (by simp)
  · rw [conj_neg, conj_i, neg_neg]
  · simp [hi]
  · simp [hi]

theorem reflection_z : Reflection (Standard.z : GateMatrix (Amplitude ℝ)) :=
  reflection_square (by simp) (by simp) (by simp [conj_neg]) (by simp) (by simp) (by simp) (by simp)

/-- **The interaction of two reflections has orthonormal columns.**  Their product is a
    reflection, and what mixes the two summands cancels. -/
theorem orthonormal_interaction {a b : GateMatrix (Amplitude ℝ)} (ha : Reflection a)
    (hb : Reflection b) (theta : ℝ) : (Standard.interaction a b theta).Orthonormal 4 := by
  let s : Amplitude ℝ := ⟨0, -Elementary.sin (half theta)⟩
  let d : Amplitude ℝ := ofReal (Elementary.cos (half theta))
  let p (r c : Nat) : Amplitude ℝ := a.get (r / 2) (c / 2) * b.get (r % 2) (c % 2)
  have hentry : ∀ r < 4, ∀ c < 4, (Standard.interaction a b theta).get r c =
      (if r = c then 1 else 0) * d + p r c * s :=
    fun r hr c hc => get_interaction ha.dim hb.dim theta hr hc
  have hadjoint : ∀ r < 4, ∀ c < 4, conj (p r c) = p c r := by
    intro r hr c hc
    change conj (_ * _) = _
    rw [conjugate_mul, ha.adjoint _ (by omega) _ (by omega), hb.adjoint _ (by omega) _ (by omega)]
  have hsquare : ∀ r < 4, ∀ c < 4,
      ∑ j ∈ Finset.range 4, p r j * p j c = if r = c then 1 else 0 := by
    intro r hr c hc
    have hleft := ha.square (r / 2) (by omega) (c / 2) (by omega)
    have hright := hb.square (r % 2) (by omega) (c % 2) (by omega)
    have hboth : (if r = c then (1 : Amplitude ℝ) else 0) =
        (if r / 2 = c / 2 then 1 else 0) * if r % 2 = c % 2 then 1 else 0 := by
      rw [ite_mul, one_mul, zero_mul, ← ite_and]
      exact if_congr (by omega) rfl rfl
    rw [hboth, ← hleft, ← hright]
    simp only [Finset.sum_range_succ, Finset.sum_range_zero, p]
    norm_num
    ring
  have hs : conj s = -s := by
    ext <;> simp [conj, Amplitude.conj, s]
  have hunit : d * d - s * s = 1 := by
    ext
    · simp only [d, s, ofReal, Amplitude.sub_re, Amplitude.mul_re, Amplitude.one_re,
        Elementary.cos, Elementary.sin]
      linarith [Real.cos_sq_add_sin_sq (half theta)]
    · simp [d, s, ofReal]
  refine ⟨rfl, fun r hr c hc => ?_⟩
  have hterm : ∀ j ∈ Finset.range 4, conj ((Standard.interaction a b theta).get j r) *
      (Standard.interaction a b theta).get j c =
        (if j = r then if j = c then d * d else 0 else 0) +
          (if j = r then p j c * d * s else 0) - (if j = c then p r j * d * s else 0) -
            p r j * p j c * (s * s) := by
    intro j hj
    have hj' := Finset.mem_range.mp hj
    have hd : conj d = d := conj_ofReal _
    rw [hentry j hj' r hr, hentry j hj' c hc, conjugate_add, conjugate_mul, conjugate_mul,
      hadjoint j hj' r hr, hs, hd]
    by_cases hjr : j = r
    · by_cases hjc : j = c
      · simp only [if_pos hjr, if_pos hjc, Amplitude.conjugate_one]
        ring
      · simp only [if_pos hjr, if_neg hjc, Amplitude.conjugate_one]
        ring
    · by_cases hjc : j = c
      · simp only [if_neg hjr, if_pos hjc, Amplitude.conjugate_zero]
        ring
      · simp only [if_neg hjr, if_neg hjc, Amplitude.conjugate_zero]
        ring
  have hrow : ∀ (x : Nat) (f : Nat → Amplitude ℝ), x < 4 →
      ∑ j ∈ Finset.range 4, (if j = x then f j else 0) = f x := by
    intro x f hx
    rw [Finset.sum_ite_eq', if_pos (Finset.mem_range.mpr hx)]
  rw [Finset.sum_congr rfl hterm, Finset.sum_sub_distrib, Finset.sum_sub_distrib,
    Finset.sum_add_distrib, ← Finset.sum_mul, hsquare r hr c hc, hrow r _ hr, hrow r _ hr,
    hrow c _ hc]
  by_cases hrc : r = c
  · subst hrc
    simp only [if_true]
    linear_combination hunit
  · simp only [if_neg hrc]
    ring

end GateMatrix

/-! ## 5. All libraries -/

open GateMatrix in
/-- **Over the reals every matrix of a library is unitary.** -/
theorem libraryPasses : LibraryPasses ℝ := by
  rintro g hkept -
  cases g
  case sdg | tdg | p | u1 => exact (orthonormal_p _).excessDeviation?
  case sx => exact orthonormal_sx.excessDeviation?
  case sxdg => exact orthonormal_sxdg.excessDeviation?
  case u2 | r | u | u3 => exact (orthonormal_u _ _ _).excessDeviation?
  case cy => exact (orthonormal_y.controlled (k := 1) 1).excessDeviation?
  case ch => exact (orthonormal_h.controlled (k := 1) 1).excessDeviation?
  case csx => exact (orthonormal_sx.controlled (k := 1) 1).excessDeviation?
  case dcx => exact (orthonormal_permutation (by decide) (by decide)).excessDeviation?
  case rxx => exact (orthonormal_interaction reflection_x reflection_x _).excessDeviation?
  case ryy => exact (orthonormal_interaction reflection_y reflection_y _).excessDeviation?
  case rzz => exact (orthonormal_interaction reflection_z reflection_z _).excessDeviation?
  case rzx => exact (orthonormal_interaction reflection_z reflection_x _).excessDeviation?
  case cp | cu1 => exact ((orthonormal_p _).controlled (k := 1) 1).excessDeviation?
  case crx => exact ((orthonormal_rx _).controlled (k := 1) 1).excessDeviation?
  case cry => exact ((orthonormal_ry _).controlled (k := 1) 1).excessDeviation?
  case crz => exact ((orthonormal_rz _).controlled (k := 1) 1).excessDeviation?
  case cu3 => exact ((orthonormal_u _ _ _).controlled (k := 1) 1).excessDeviation?
  case cu theta phi lambda gamma =>
    have hscaled := (orthonormal_u theta phi lambda).scaled (conj_phase_mul gamma)
    exact (hscaled.controlled (k := 1) 1).excessDeviation?
  case rccx => exact orthonormal_rccx.excessDeviation?
  case c3sx => exact (orthonormal_sx.controlled (k := 1) 3).excessDeviation?
  case rc3x => exact orthonormal_rc3x.excessDeviation?
  -- the gates that have a form of their own everywhere
  all_goals cases hkept

end CircuitBroker
