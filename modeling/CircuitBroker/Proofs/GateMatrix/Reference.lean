/-
  CircuitBroker/Proofs/GateMatrix/Reference.lean
  ==============================================
  **The reference matrices are unitary at every angle.**

  `Standard.references` lists them.  Over the reals each is undone by its conjugate transpose, and
  so is each under controls; and of the rotations the conjugate transpose is the rotation back.
-/
import CircuitBroker.Proofs.GateMatrix.Library
import CircuitBroker.Proofs.GateMatrix.Unitary

namespace CircuitBroker.GateMatrix

open Amplitude (phase ofReal i)
open Elementary (half pi)
open Conjugate (conj)
open LawfulConjugate (conjugate_add conjugate_mul conjugate_conjugate)

/-! ## 1. From columns to the whole matrix -/

/-- **A whole matrix with orthonormal columns is undone by its conjugate transpose.** -/
theorem Orthonormal.exactlyUnitary {u : GateMatrix (Amplitude ℝ)} {k : Nat}
    (h : u.Orthonormal (2 ^ k)) (hwhole : u.OnQubits k) : u.ExactlyUnitary k := by
  refine ⟨hwhole, (hwhole.adjoint.mul u).ext (onQubits_identity k) rfl ?_⟩
  rw [toMatrix_mul hwhole.adjoint.dim, toMatrix_adjoint hwhole.dim, toMatrix_identity rfl]
  exact (orthonormal_iff.mp h).2

theorem onQubits_square {K : Type} (a b c d : K) : (Standard.square a b c d).OnQubits 1 :=
  ⟨rfl, rfl⟩

theorem onQubits_diagonal {K : Type} [Zero K] (a b : K) : (diagonal [a, b]).OnQubits 1 :=
  onQubits_ofFn (k := 1) _

theorem onQubits_patched {n k : Nat} (hn : n = 2 ^ k) (places : List (Nat × Nat × Amplitude ℝ)) :
    (Standard.patched n places).OnQubits k := by
  subst hn
  exact onQubits_ofFn _

theorem OnQubits.scaled {u : GateMatrix (Amplitude ℝ)} {k : Nat} (h : u.OnQubits k)
    (factor : Amplitude ℝ) : (u.scaled factor).OnQubits k :=
  ⟨h.dim, by rw [GateMatrix.scaled, Array.size_map, h.size]⟩

theorem OnQubits.add {a b : GateMatrix (Amplitude ℝ)} {k : Nat} (ha : a.OnQubits k)
    (hb : b.OnQubits k) : (a.add b).OnQubits k :=
  ⟨ha.dim, by rw [GateMatrix.add, Array.size_zipWith, ha.size, hb.size, Nat.min_self]⟩

theorem onQubits_interaction {a b : GateMatrix (Amplitude ℝ)} (ha : a.OnQubits 1)
    (hb : b.OnQubits 1) (theta : ℝ) : (Standard.interaction a b theta).OnQubits 2 :=
  ((onQubits_identity 2).scaled _).add ((ha.kron hb).scaled _)

/-! ## 2. Rotations back -/

theorem half_neg (x : ℝ) : half (-x) = -half x := by
  simp only [half]
  ring

theorem cos_half_neg (x : ℝ) : Elementary.cos (half (-x)) = Elementary.cos (half x) := by
  rw [half_neg]
  exact Real.cos_neg _

theorem sin_half_neg (x : ℝ) : Elementary.sin (half (-x)) = -Elementary.sin (half x) := by
  rw [half_neg]
  exact Real.sin_neg _

theorem adjoint_square (a b c d : Amplitude ℝ) :
    (Standard.square a b c d).adjoint = Standard.square (conj a) (conj c) (conj b) (conj d) := by
  apply (onQubits_square a b c d).adjoint.ext (onQubits_square _ _ _ _) (n := 2) rfl
  rw [toMatrix_adjoint (n := 2) rfl]
  refine Matrix.ext fun row col => ?_
  fin_cases row <;> fin_cases col <;> rfl

theorem adjoint_diagonal (a b : Amplitude ℝ) :
    (diagonal [a, b]).adjoint = diagonal [conj a, conj b] := by
  apply (onQubits_diagonal a b).adjoint.ext (onQubits_diagonal _ _) (n := 2) rfl
  rw [toMatrix_adjoint (n := 2) rfl]
  refine Matrix.ext fun row col => ?_
  rw [Matrix.map_apply, Matrix.transpose_apply, toMatrix_apply, toMatrix_apply,
    get_diagonal _ _ col.isLt row.isLt, get_diagonal _ _ row.isLt col.isLt]
  fin_cases row <;> fin_cases col <;> simp

/-- Turning back conjugates the factor of the product, and leaves that of the identity alone. -/
theorem adjoint_interaction {a b : GateMatrix (Amplitude ℝ)} (ha : Reflection a)
    (hb : Reflection b) (hwhole : a.OnQubits 1) (hwhole' : b.OnQubits 1) (theta : ℝ) :
    Standard.interaction a b (-theta) = (Standard.interaction a b theta).adjoint := by
  have hinteraction := onQubits_interaction hwhole hwhole' theta
  apply (onQubits_interaction hwhole hwhole' (-theta)).ext hinteraction.adjoint (n := 4) rfl
  rw [toMatrix_adjoint (n := 4) hinteraction.dim]
  refine Matrix.ext fun row col => ?_
  have hsin : (⟨0, -Elementary.sin (half (-theta))⟩ : Amplitude ℝ) =
      conj ⟨0, -Elementary.sin (half theta)⟩ := by
    rw [sin_half_neg]
    rfl
  have hsame : ((if (row : Nat) = col then 1 else 0) : Amplitude ℝ) =
      conj (if (col : Nat) = row then 1 else 0) := by
    rw [apply_ite conj, Amplitude.conjugate_one, Amplitude.conjugate_zero]
    exact if_congr eq_comm rfl rfl
  rw [Matrix.map_apply, Matrix.transpose_apply, toMatrix_apply, toMatrix_apply,
    get_interaction ha.dim hb.dim _ row.isLt col.isLt,
    get_interaction ha.dim hb.dim _ col.isLt row.isLt, conjugate_add, conjugate_mul, conjugate_mul,
    conjugate_mul, conj_ofReal, ha.adjoint _ (by omega) _ (by omega),
    hb.adjoint _ (by omega) _ (by omega), cos_half_neg, hsin, hsame]

namespace Standard

theorem rx_neg (theta : ℝ) : rx (-theta) = (rx theta).adjoint := by
  simp only [rx, cos_half_neg, sin_half_neg, adjoint_square, conj_ofReal]
  rfl

theorem ry_neg (theta : ℝ) : ry (-theta) = (ry theta).adjoint := by
  simp only [ry, cos_half_neg, sin_half_neg, neg_neg, adjoint_square, conj_ofReal]

theorem p_neg (lambda : ℝ) : p (-lambda) = (p lambda).adjoint := by
  rw [p, p, adjoint_diagonal, Amplitude.conjugate_one, Amplitude.phase_neg]
  rfl

theorem rz_neg (theta : ℝ) : rz (-theta) = (rz theta).adjoint := by
  have hback : phase (half theta) = conj (phase (half (-theta))) := by
    rw [half_neg, Amplitude.phase_neg]
    exact (conjugate_conjugate _).symm
  rw [rz, rz, adjoint_diagonal, neg_neg, ← hback, half_neg, Amplitude.phase_neg]
  rfl

/-! ## 3. The list -/

/-- The reference matrices, each at the angles it has. -/
noncomputable def references (theta phi lambda gamma : ℝ) : List (GateMatrix (Amplitude ℝ)) :=
  [id, x, y, z, h, s, sdg, t, tdg, sx, sxdg, rx theta, ry theta, rz theta, p lambda,
    u theta phi lambda, u2 phi lambda, r theta phi, swap, iswap, dcx, rxx theta, ryy theta,
    rzz theta, rzx theta, cu theta phi lambda gamma, rccx, rc3x]

theorem exactlyUnitary_square {a b c d : Amplitude ℝ} (h : (square a b c d).Orthonormal 2) :
    (square a b c d).ExactlyUnitary 1 :=
  h.exactlyUnitary (k := 1) (onQubits_square a b c d)

theorem exactlyUnitary_p (lambda : ℝ) : (p lambda).ExactlyUnitary 1 :=
  (orthonormal_p lambda).exactlyUnitary (k := 1) (onQubits_diagonal _ _)

theorem exactlyUnitary_rz (theta : ℝ) : (rz theta).ExactlyUnitary 1 :=
  (orthonormal_rz theta).exactlyUnitary (k := 1) (onQubits_diagonal _ _)

theorem exactlyUnitary_u (theta phi lambda : ℝ) : (u theta phi lambda).ExactlyUnitary 1 :=
  exactlyUnitary_square (orthonormal_u theta phi lambda)

theorem exactlyUnitary_sx : (sx : GateMatrix (Amplitude ℝ)).ExactlyUnitary 1 :=
  exactlyUnitary_square orthonormal_sx

theorem exactlyUnitary_cu (theta phi lambda gamma : ℝ) :
    (cu theta phi lambda gamma).ExactlyUnitary 2 := by
  have hturned := (orthonormal_u theta phi lambda).scaled (conj_phase_mul gamma)
  exact (hturned.exactlyUnitary (k := 1) ((onQubits_square _ _ _ _).scaled _)).controlled 1

theorem orthonormal_iswap : (iswap : GateMatrix (Amplitude ℝ)).Orthonormal 4 := by
  have hi := Amplitude.i_mul_i
  refine ⟨rfl, fun r hr c hc => ?_⟩
  interval_cases r <;> interval_cases c <;>
    simp [Finset.sum_range_succ, iswap, get, conj_i, hi]

theorem exactlyUnitary_permutation {images : List Nat} {k : Nat} (hlength : images.length = 2 ^ k)
    (hnodup : images.Nodup) (hlt : ∀ image ∈ images, image < images.length) :
    (permutation images : GateMatrix (Amplitude ℝ)).ExactlyUnitary k := by
  apply Orthonormal.exactlyUnitary
  · rw [← hlength]
    exact orthonormal_permutation hnodup hlt
  · rw [permutation, hlength]
    exact onQubits_ofFn _

theorem exactlyUnitary_interaction {a b : GateMatrix (Amplitude ℝ)} (ha : Reflection a)
    (hb : Reflection b) (hwhole : a.OnQubits 1) (hwhole' : b.OnQubits 1) (theta : ℝ) :
    (interaction a b theta).ExactlyUnitary 2 :=
  (orthonormal_interaction ha hb theta).exactlyUnitary (k := 2)
    (onQubits_interaction hwhole hwhole' theta)

theorem onQubits_x : (x : GateMatrix (Amplitude ℝ)).OnQubits 1 := onQubits_square _ _ _ _

theorem onQubits_y : (y : GateMatrix (Amplitude ℝ)).OnQubits 1 := onQubits_square _ _ _ _

theorem onQubits_z : (z : GateMatrix (Amplitude ℝ)).OnQubits 1 := onQubits_square _ _ _ _

/-- At all angles every reference matrix is unitary. -/
theorem exactlyUnitary_of_mem_references {theta phi lambda gamma : ℝ} :
    ∀ u ∈ references theta phi lambda gamma, ∃ k, u.ExactlyUnitary k := by
  simp only [references, List.forall_mem_cons, List.not_mem_nil, false_imp_iff, implies_true,
    and_true]
  refine ⟨⟨1, exactlyUnitary_identity 1⟩, ⟨1, exactlyUnitary_square orthonormal_x⟩,
    ⟨1, exactlyUnitary_square orthonormal_y⟩, ⟨1, exactlyUnitary_square orthonormal_z⟩,
    ⟨1, exactlyUnitary_square orthonormal_h⟩, ⟨1, exactlyUnitary_p _⟩, ⟨1, exactlyUnitary_p _⟩,
    ⟨1, exactlyUnitary_p _⟩, ⟨1, exactlyUnitary_p _⟩, ⟨1, exactlyUnitary_sx⟩,
    ⟨1, exactlyUnitary_sx.adjoint⟩, ⟨1, exactlyUnitary_square (orthonormal_rx theta)⟩,
    ⟨1, exactlyUnitary_square (orthonormal_ry theta)⟩, ⟨1, exactlyUnitary_rz theta⟩,
    ⟨1, exactlyUnitary_p lambda⟩, ⟨1, exactlyUnitary_u _ _ _⟩, ⟨1, exactlyUnitary_u _ _ _⟩,
    ⟨1, exactlyUnitary_u _ _ _⟩, ⟨2, exactlyUnitary_permutation rfl (by decide) (by decide)⟩,
    ⟨2, orthonormal_iswap.exactlyUnitary (k := 2) ⟨rfl, rfl⟩⟩,
    ⟨2, exactlyUnitary_permutation rfl (by decide) (by decide)⟩,
    ⟨2, exactlyUnitary_interaction reflection_x reflection_x onQubits_x onQubits_x theta⟩,
    ⟨2, exactlyUnitary_interaction reflection_y reflection_y onQubits_y onQubits_y theta⟩,
    ⟨2, exactlyUnitary_interaction reflection_z reflection_z onQubits_z onQubits_z theta⟩,
    ⟨2, exactlyUnitary_interaction reflection_z reflection_x onQubits_z onQubits_x theta⟩,
    ⟨2, exactlyUnitary_cu theta phi lambda gamma⟩, ⟨3, ?_⟩, ⟨4, ?_⟩⟩
  · exact orthonormal_rccx.exactlyUnitary (k := 3) (onQubits_patched (n := 8) rfl _)
  · exact orthonormal_rc3x.exactlyUnitary (k := 4) (onQubits_patched (n := 16) rfl _)

/-- **Every reference matrix is unitary**, at all angles and under any number of controls, and
    turning the other way is the conjugate transpose. -/
theorem references_unitary (theta phi lambda gamma : ℝ) :
    (∀ u ∈ references theta phi lambda gamma, ∃ k, u.ExactlyUnitary k ∧
      ∀ count, (u.controlled count).ExactlyUnitary (count + k)) ∧
    ∀ rotation ∈ [rx, ry, rz, p, rxx, ryy, rzz, rzx],
      rotation (-theta) = (rotation theta).adjoint := by
  constructor
  · intro u hu
    obtain ⟨k, hunitary⟩ := exactlyUnitary_of_mem_references u hu
    exact ⟨k, hunitary, hunitary.controlled⟩
  · simp only [List.forall_mem_cons, List.not_mem_nil, false_imp_iff, implies_true, and_true]
    exact ⟨rx_neg theta, ry_neg theta, rz_neg theta, p_neg theta,
      adjoint_interaction reflection_x reflection_x onQubits_x onQubits_x theta,
      adjoint_interaction reflection_y reflection_y onQubits_y onQubits_y theta,
      adjoint_interaction reflection_z reflection_z onQubits_z onQubits_z theta,
      adjoint_interaction reflection_z reflection_x onQubits_z onQubits_x theta⟩

theorem references_unitary_quarter :
    rccx ∈ references pi (half pi) 0 1 ∧ rzx (R := ℝ) ∈ [rx, ry, rz, p, rxx, ryy, rzz, rzx] ∧
      (∃ k, (rccx : GateMatrix (Amplitude ℝ)).ExactlyUnitary k ∧
        ∀ count, (rccx.controlled count : GateMatrix (Amplitude ℝ)).ExactlyUnitary (count + k)) ∧
      rzx (-pi) = (rzx pi : GateMatrix (Amplitude ℝ)).adjoint := by
  have hmem : rccx ∈ references pi (half pi) 0 1 := by simp [references]
  have hrotation : rzx (R := ℝ) ∈ [rx, ry, rz, p, rxx, ryy, rzz, rzx] := by simp
  obtain ⟨hunitary, hback⟩ := references_unitary pi (half pi) 0 1
  exact ⟨hmem, hrotation, hunitary _ hmem, hback _ hrotation⟩

end Standard

end CircuitBroker.GateMatrix
