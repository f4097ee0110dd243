/-
  CircuitBroker/Proofs/GateMatrix/Identities.lean
  ===============================================
  **Reference matrices as products of simpler ones.**

  Each identity says that a run of gates on one target turns every pair of amplitudes as a
  single matrix does, global phase included.  The scalars are the reals; what is used of
  them is that angles add as points of the unit circle multiply, that an eighth of a turn
  squares to the imaginary unit, and that one over the square root of two squares to a half.
-/
import CircuitBroker.GateMatrix.Standard
import CircuitBroker.Proofs.Scalar
import CircuitBroker.Proofs.Statevector.Turn

namespace CircuitBroker

open Amplitude (phase ofReal i)
open Elementary (half pi)
open Simulator (turns)

namespace GateMatrix

/-! ## 1. What the basic gates do to a pair -/

section Turn

variable {K : Type} [CommRing K]

@[simp] theorem turn_square (a b c d : K) (p : K × K) :
    (Standard.square a b c d).turn p = (a * p.1 + b * p.2, c * p.1 + d * p.2) := rfl

theorem get_diagonal (a b : K) {r c : Nat} (hr : r < 2) (hc : c < 2) :
    (diagonal [a, b]).get r c = if r = c then [a, b].getD r 0 else 0 :=
  get_ofFn _ hr hc

theorem get_permutation (image : List Nat) {r c : Nat} (hr : r < image.length)
    (hc : c < image.length) :
    (permutation image : GateMatrix K).get r c = if image.getD c 0 = r then 1 else 0 :=
  get_ofFn _ hr hc

@[simp] theorem turn_diagonal (a b : K) (p : K × K) :
    (diagonal [a, b]).turn p = (a * p.1, b * p.2) := by
  simp [turn, get_diagonal]

theorem turn_adjoint [Conjugate K] {m : GateMatrix K} (hdim : m.dim = 2) (p : K × K) :
    m.adjoint.turn p =
      (Conjugate.conj (m.get 0 0) * p.1 + Conjugate.conj (m.get 1 0) * p.2,
        Conjugate.conj (m.get 0 1) * p.1 + Conjugate.conj (m.get 1 1) * p.2) := by
  have hget : ∀ r < 2, ∀ c < 2, m.adjoint.get r c = Conjugate.conj (m.get c r) := by
    intro r hr c hc
    rw [adjoint, hdim]
    exact get_ofFn _ hr hc
  simp [turn, hget]

end Turn

variable (q : Amplitude ℝ × Amplitude ℝ) (bit : Nat → Bool)

@[simp] theorem turn_x : (Standard.x : GateMatrix (Amplitude ℝ)).turn q = (q.2, q.1) := by
  simp [Standard.x]

@[simp] theorem turn_p (lambda : ℝ) : (Standard.p lambda).turn q = (q.1, phase lambda * q.2) := by
  simp [Standard.p]

@[simp] theorem turn_adjoint_p (lambda : ℝ) :
    (Standard.p lambda).adjoint.turn q = (q.1, phase (-lambda) * q.2) := by
  have hphase : Conjugate.conj (phase lambda) = phase (-lambda) := (Amplitude.phase_neg lambda).symm
  rw [turn_adjoint (m := Standard.p lambda) rfl]
  simp [Standard.p, get_diagonal, hphase]

@[simp] theorem turn_h : (Standard.h : GateMatrix (Amplitude ℝ)).turn q =
    (ofReal Elementary.invSqrtTwo * q.1 + ofReal Elementary.invSqrtTwo * q.2,
      ofReal Elementary.invSqrtTwo * q.1 + -ofReal Elementary.invSqrtTwo * q.2) := rfl

@[simp] theorem turn_adjoint_h : (Standard.h : GateMatrix (Amplitude ℝ)).adjoint.turn q =
    Standard.h.turn q := by
  have hconj : ∀ x : ℝ, Conjugate.conj (ofReal x) = ofReal x := fun x => by
    ext <;> simp [ofReal, Conjugate.conj, Amplitude.conj]
  have hneg : ∀ a : Amplitude ℝ, Conjugate.conj (-a) = -Conjugate.conj a := fun a => by
    ext <;> simp [Conjugate.conj, Amplitude.conj]
  rw [turn_adjoint (m := Standard.h) rfl, turn_h]
  simp [Standard.h, Standard.square, GateMatrix.get, hconj, hneg]

theorem turns_adjoint_s : turns bit [(Standard.s.adjoint, [])] q = Standard.sdg.turn q := by
  have hrun : turns bit [(Standard.s.adjoint, [])] q = (Standard.p _).adjoint.turn q := rfl
  rw [hrun, turn_adjoint_p, Standard.sdg, turn_p]

theorem turns_adjoint_t : turns bit [(Standard.t.adjoint, [])] q = Standard.tdg.turn q := by
  have hrun : turns bit [(Standard.t.adjoint, [])] q = (Standard.p _).adjoint.turn q := rfl
  rw [hrun, turn_adjoint_p, Standard.tdg, turn_p]

/-! ## 2. Square roots of `x` -/

theorem half_add_half_i : (⟨half 1, half 1⟩ : Amplitude ℝ) =
    ofReal Elementary.invSqrtTwo * ofReal Elementary.invSqrtTwo * (1 + i) := by
  have hsq := Amplitude.invSqrtTwo_sq
  ext
  · simp [ofReal, i, half, hsq]
  · simp [ofReal, i, half, hsq]

theorem half_sub_half_i : (⟨half 1, -half 1⟩ : Amplitude ℝ) =
    ofReal Elementary.invSqrtTwo * ofReal Elementary.invSqrtTwo * (1 - i) := by
  have hsq := Amplitude.invSqrtTwo_sq
  ext
  · simp [ofReal, i, half, hsq]
  · simp [ofReal, i, half, hsq]

noncomputable def sxMoves : List (GateMatrix (Amplitude ℝ) × List Nat) :=
  [(Standard.h, []), (Standard.s, []), (Standard.h, [])]

noncomputable def sxdgMoves : List (GateMatrix (Amplitude ℝ) × List Nat) :=
  [(Standard.h.adjoint, []), (Standard.s.adjoint, []), (Standard.h.adjoint, [])]

theorem turns_sx : turns bit sxMoves q = Standard.sx.turn q := by
  simp only [sxMoves, turns, List.foldl_cons, List.foldl_nil, List.all_nil, if_true, turn_h, Standard.s,
    turn_p, Amplitude.phase_half_pi, Standard.sx, half_add_half_i, half_sub_half_i, turn_square]
  ext1 <;> ring

theorem turns_sxdg : turns bit sxdgMoves q = Standard.sxdg.turn q := by
  have hconj : ∀ x y : ℝ, Conjugate.conj (⟨x, y⟩ : Amplitude ℝ) = ⟨x, -y⟩ := fun _ _ => rfl
  have hentries : Standard.sxdg.turn q =
      ((⟨half 1, -half 1⟩ : Amplitude ℝ) * q.1 + (⟨half 1, half 1⟩ : Amplitude ℝ) * q.2,
        (⟨half 1, half 1⟩ : Amplitude ℝ) * q.1 + (⟨half 1, -half 1⟩ : Amplitude ℝ) * q.2) := by
    rw [Standard.sxdg, turn_adjoint (m := Standard.sx) rfl]
    simp [Standard.sx, Standard.square, GateMatrix.get, hconj]
  have hminus : phase (-half (pi : ℝ)) = -i := by
    rw [Amplitude.phase_neg, Amplitude.phase_half_pi]
    ext <;> simp [Amplitude.conj, i]
  simp only [hentries, sxdgMoves, turns, List.foldl_cons, List.foldl_nil, List.all_nil, if_true,
    turn_adjoint_h, turn_h, Standard.s, turn_adjoint_p, hminus, half_add_half_i, half_sub_half_i]
  ext1 <;> ring

/-! ## 3. Rotations -/

theorem scale_eq_mul (a : Amplitude ℝ) (x : ℝ) : a.scale x = a * ofReal x := by
  ext <;> simp [Amplitude.scale, ofReal]

/-- A rotation between two phase gates. -/
noncomputable def rotationMoves (theta phi lambda : ℝ) :
    List (GateMatrix (Amplitude ℝ) × List Nat) :=
  [(Standard.p lambda, []), (Standard.ry theta, []), (Standard.p phi, [])]

theorem turns_u (theta phi lambda : ℝ) :
    turns bit (rotationMoves theta phi lambda) q = (Standard.u theta phi lambda).turn q := by
  have hneg : ofReal (-Elementary.sin (half theta)) = -ofReal (Elementary.sin (half theta)) := by
    ext <;> simp [ofReal]
  simp only [rotationMoves, turns, List.foldl_cons, List.foldl_nil, List.all_nil, if_true, turn_p,
    Standard.ry, Standard.u, turn_square, scale_eq_mul, Amplitude.phase_add, hneg]
  ext1 <;> ring

theorem phase_eq (x : ℝ) : phase x = ofReal (Elementary.cos x) + i * ofReal (Elementary.sin x) := by
  ext <;> simp [phase, ofReal, i]

theorem phase_half_neg (x : ℝ) :
    phase (half (-x)) = ofReal (Elementary.cos (half x)) - i * ofReal (Elementary.sin (half x)) := by
  have hneg : half (-x) = -half x := by simp only [half]; ring
  rw [hneg, Amplitude.phase_neg]
  ext <;> simp [phase, Amplitude.conj, ofReal, i]

noncomputable def rzxMoves (theta : ℝ) (c : Nat) : List (GateMatrix (Amplitude ℝ) × List Nat) :=
  [(Standard.h, []), (Standard.x, [c]), (Standard.rz theta, []), (Standard.x, [c]),
    (Standard.h, [])]

/-- It is a rotation about `x`, against its direction where the control is one. -/
theorem turns_rzx (theta : ℝ) (c : Nat) : turns bit (rzxMoves theta c) q =
      let s : Amplitude ℝ := (if bit c then i else -i) * ofReal (Elementary.sin (half theta))
      let d : Amplitude ℝ := ofReal (Elementary.cos (half theta))
      (d * q.1 + s * q.2, s * q.1 + d * q.2) := by
  have hv := Amplitude.invSqrtTwo_sq_add_self
  have hplus := phase_eq (half theta)
  have hminus := phase_half_neg theta
  cases hc : bit c <;>
    simp only [rzxMoves, turns, List.foldl_cons, List.foldl_nil, List.all_nil, List.all_cons, hc,
      if_true, Bool.false_eq_true, Bool.and_true, if_false, turn_h, Standard.rz, turn_diagonal,
      turn_x, hplus, hminus] <;>
    ext1 <;> grind

/-! ## 4. Doubly and triply controlled `x` up to phases -/

/-- A controlled `x` between an eighth of a turn and its inverse, in the other basis. -/
theorem turns_flip_between (c : Nat) :
    turns bit [(Standard.h, []), (Standard.t, []), (Standard.x, [c]), (Standard.t.adjoint, []),
        (Standard.h, [])] q =
      if bit c then
        (ofReal Elementary.invSqrtTwo * q.1 - ofReal Elementary.invSqrtTwo * i * q.2,
          ofReal Elementary.invSqrtTwo * i * q.1 - ofReal Elementary.invSqrtTwo * q.2)
      else q := by
  have hv := Amplitude.invSqrtTwo_sq_add_self
  have hi := Amplitude.i_mul_i
  cases hc : bit c with
  | false =>
    simp only [turns, List.foldl_cons, List.foldl_nil, List.all_nil, List.all_cons, hc, if_true,
      Bool.false_eq_true, Bool.and_true, if_false, turn_h, Standard.t, turn_p, turn_adjoint_p,
      Amplitude.phase_quarter, Amplitude.phase_neg_quarter]
    ext1 <;> grind
  | true =>
    simp only [turns, List.foldl_cons, List.foldl_nil, List.all_nil, List.all_cons, hc, if_true,
      Bool.and_true, turn_h, Standard.t, turn_p, turn_adjoint_p, turn_x, Amplitude.phase_quarter,
      Amplitude.phase_neg_quarter]
    ext1 <;> grind

/-- Two controlled `x` gates, each twice, among eighths of a turn: a phase where both controls
    are one. -/
theorem turns_phase_between (a b : Nat) :
    turns bit [(Standard.x, [a]), (Standard.t, []), (Standard.x, [b]), (Standard.t.adjoint, []),
        (Standard.x, [a]), (Standard.t, []), (Standard.x, [b]), (Standard.t.adjoint, [])] q =
      if bit a && bit b then (i * q.1, -i * q.2) else q := by
  have hv := Amplitude.invSqrtTwo_sq_add_self
  have hi := Amplitude.i_mul_i
  cases ha : bit a <;> cases hb : bit b <;>
    simp only [turns, List.foldl_cons, List.foldl_nil, List.all_nil, List.all_cons, ha, hb, if_true,
      Bool.and_true, Bool.and_false, Bool.false_eq_true, if_false, Standard.t, turn_p,
      turn_adjoint_p, turn_x, Amplitude.phase_quarter, Amplitude.phase_neg_quarter] <;>
    ext1 <;> grind

noncomputable def rccxMoves (a b : Nat) : List (GateMatrix (Amplitude ℝ) × List Nat) :=
  [(Standard.h, []), (Standard.t, []), (Standard.x, [b]), (Standard.t.adjoint, []),
    (Standard.x, [a]), (Standard.t, []), (Standard.x, [b]), (Standard.t.adjoint, []),
    (Standard.h, [])]

theorem turns_rccx (a b : Nat) : turns bit (rccxMoves a b) q =
      if bit a then if bit b then (-i * q.2, i * q.1) else (q.1, -q.2) else q := by
  have hv := Amplitude.invSqrtTwo_sq_add_self
  have hi := Amplitude.i_mul_i
  cases ha : bit a <;> cases hb : bit b <;>
    simp only [rccxMoves, turns, List.foldl_cons, List.foldl_nil, List.all_nil, List.all_cons, ha,
      hb, if_true, Bool.and_true, Bool.false_eq_true, if_false, Standard.t, turn_h, turn_p,
      turn_adjoint_p, turn_x, Amplitude.phase_quarter, Amplitude.phase_neg_quarter] <;>
    ext1 <;> grind

noncomputable def rc3xMoves (a b c : Nat) : List (GateMatrix (Amplitude ℝ) × List Nat) :=
  [(Standard.h, []), (Standard.t, []), (Standard.x, [c]), (Standard.t.adjoint, []),
    (Standard.h, []), (Standard.x, [a]), (Standard.t, []), (Standard.x, [b]),
    (Standard.t.adjoint, []), (Standard.x, [a]), (Standard.t, []), (Standard.x, [b]),
    (Standard.t.adjoint, []), (Standard.h, []), (Standard.t, []), (Standard.x, [c]),
    (Standard.t.adjoint, []), (Standard.h, [])]

theorem turns_rc3x (a b c : Nat) : turns bit (rc3xMoves a b c) q =
      if bit a && bit b then if bit c then (q.2, -q.1) else (i * q.1, -i * q.2) else q := by
  have hv := Amplitude.invSqrtTwo_sq_add_self
  have hi := Amplitude.i_mul_i
  -- the phase gate stands between two copies of one involution
  let outer : List (GateMatrix (Amplitude ℝ) × List Nat) :=
    [(Standard.h, []), (Standard.t, []), (Standard.x, [c]), (Standard.t.adjoint, []),
      (Standard.h, [])]
  let inner : List (GateMatrix (Amplitude ℝ) × List Nat) :=
    [(Standard.x, [a]), (Standard.t, []), (Standard.x, [b]), (Standard.t.adjoint, []),
      (Standard.x, [a]), (Standard.t, []), (Standard.x, [b]), (Standard.t.adjoint, [])]
  change turns bit outer (turns bit inner (turns bit outer q)) = _
  rw [turns_flip_between, turns_phase_between, turns_flip_between]
  cases ha : bit a <;> cases hb : bit b <;> cases hc : bit c <;>
    simp only [Bool.and_true, Bool.and_false, Bool.false_eq_true, if_true, if_false] <;>
    ext1 <;> grind

/-! ## 5. The blocks of the reference matrices -/

theorem get_patched {n : Nat} (places : List (Nat × Nat × Amplitude ℝ)) {r c : Nat} (hr : r < n)
    (hc : c < n) : (Standard.patched n places).get r c =
      ((places.find? fun q => q.1 = r ∧ q.2.1 = c).map fun q => q.2.2).getD
        (if r = c then 1 else 0) := by
  rw [Standard.patched, get_ofFn _ hr hc]
  cases places.find? fun q => decide (q.1 = r ∧ q.2.1 = c) <;> rfl

/-- A matrix that differs from the identity only inside two-by-two blocks. -/
theorem get_patched_of_ne {n : Nat} {places : List (Nat × Nat × Amplitude ℝ)}
    (hplaces : ∀ p ∈ places, p.1 / 2 = p.2.1 / 2) {r c : Nat} (hr : r < n) (hc : c < n)
    (hne : r / 2 ≠ c / 2) : (Standard.patched n places).get r c = 0 := by
  have hnone : places.find? (fun q => q.1 = r ∧ q.2.1 = c) = none := by
    rw [List.find?_eq_none]
    intro p hp hmatch
    simp only [decide_eq_true_eq] at hmatch
    have hblock := hplaces p hp
    rw [hmatch.1, hmatch.2] at hblock
    exact hne hblock
  rw [get_patched places hr hc, hnone, Option.map_none, Option.getD_none,
    if_neg fun he => hne (by rw [he])]

theorem turn_block (m : GateMatrix (Amplitude ℝ)) (v : Nat) : (m.block v).turn q =
    (m.get (2 * v) (2 * v) * q.1 + m.get (2 * v) (2 * v + 1) * q.2,
      m.get (2 * v + 1) (2 * v) * q.1 + m.get (2 * v + 1) (2 * v + 1) * q.2) := rfl

theorem turn_block_rccx (a b : Bool) :
    (Standard.rccx.block ((if a then 2 else 0) + if b then 1 else 0)).turn q =
      if a then if b then (-i * q.2, i * q.1) else (q.1, -q.2) else q := by
  cases a <;> cases b <;>
    simp (disch := decide) [turn_block, Standard.rccx, get_patched]

theorem turn_block_rc3x (a b c : Bool) :
    (Standard.rc3x.block ((if a then 4 else 0) + ((if b then 2 else 0) + if c then 1 else 0))).turn
        q =
      if a && b then if c then (q.2, -q.1) else (i * q.1, -i * q.2) else q := by
  cases a <;> cases b <;> cases c <;>
    simp (disch := decide) [turn_block, Standard.rc3x, get_patched]

theorem get_scaled (m : GateMatrix (Amplitude ℝ)) (factor : Amplitude ℝ) (r c : Nat) :
    (m.scaled factor).get r c = m.get r c * factor := by
  simp only [scaled, get, Array.getD_eq_getD_getElem?, Array.getElem?_map]
  cases m.entries[r * m.dim + c]? <;> simp

theorem turn_scaled (m : GateMatrix (Amplitude ℝ)) (factor : Amplitude ℝ) :
    (m.scaled factor).turn q = m.turn (factor * q.1, factor * q.2) := by
  simp only [turn, get_scaled]
  ext1 <;> ring

theorem get_add {a b : GateMatrix (Amplitude ℝ)} {n : Nat} (ha : a.dim = n) (hb : b.dim = n)
    (hsize : a.entries.size = b.entries.size) (r c : Nat) :
    (a.add b).get r c = a.get r c + b.get r c := by
  simp only [add, get, ha, hb, Array.getD_eq_getD_getElem?, Array.getElem?_zipWith]
  by_cases h : r * n + c < a.entries.size
  · rw [Array.getElem?_eq_getElem h, Array.getElem?_eq_getElem (hsize ▸ h)]
    rfl
  · rw [Array.getElem?_eq_none (by omega), Array.getElem?_eq_none (by omega)]
    simp

theorem get_interaction {a b : GateMatrix (Amplitude ℝ)} (ha : a.dim = 2) (hb : b.dim = 2)
    (theta : ℝ) {r c : Nat} (hr : r < 4) (hc : c < 4) :
    (Standard.interaction a b theta).get r c =
      (if r = c then 1 else 0) * ofReal (Elementary.cos (half theta)) +
        a.get (r / 2) (c / 2) * b.get (r % 2) (c % 2) * ⟨0, -Elementary.sin (half theta)⟩ := by
  have hkron : a.kron b = ofFn 4 fun i j => a.get (i / 2) (j / 2) * b.get (i % 2) (j % 2) := by
    rw [kron, ha, hb]
  have hsum := get_add (a := (identity 2).scaled (ofReal (Elementary.cos (half theta))))
    (b := (a.kron b).scaled ⟨0, -Elementary.sin (half theta)⟩) (n := 4) rfl
    (by rw [hkron]; rfl) (by rw [hkron]; simp [scaled, identity, one, ofFn]) r c
  rw [Standard.interaction, hsum, get_scaled, get_scaled, hkron, get_ofFn _ hr hc, identity, one,
    get_ofFn (n := 1 <<< 2) _ hr hc]

/-- The interaction of `z` and `x` leaves the first qubit alone. -/
theorem get_rzx_of_ne (theta : ℝ) {r c : Nat} (hr : r < 4) (hc : c < 4) (hne : r / 2 ≠ c / 2) :
    (Standard.rzx theta).get r c = 0 := by
  have hz : ∀ v < 2, ∀ w < 2, v ≠ w → (Standard.z : GateMatrix (Amplitude ℝ)).get v w = 0 := by
    intro v hv w hw hvw
    interval_cases v <;> interval_cases w <;> first | rfl | exact absurd rfl hvw
  rw [Standard.rzx, get_interaction rfl rfl theta hr hc,
    hz _ (by omega) _ (by omega) hne, if_neg fun he => hne (by rw [he])]
  ring

theorem turn_block_rzx (theta : ℝ) (b : Bool) :
    ((Standard.rzx theta).block (if b then 1 else 0)).turn q =
      let s : Amplitude ℝ := (if b then i else -i) * ofReal (Elementary.sin (half theta))
      let d : Amplitude ℝ := ofReal (Elementary.cos (half theta))
      (d * q.1 + s * q.2, s * q.1 + d * q.2) := by
  have hs : (⟨0, -Elementary.sin (half theta)⟩ : Amplitude ℝ) =
      -i * ofReal (Elementary.sin (half theta)) := by
    ext <;> simp [i, ofReal]
  have hz : ∀ v w, (Standard.z : GateMatrix (Amplitude ℝ)).get v w =
      #[(1 : Amplitude ℝ), 0, 0, -1].getD (v * 2 + w) 0 := fun _ _ => rfl
  have hx : ∀ v w, (Standard.x : GateMatrix (Amplitude ℝ)).get v w =
      #[(0 : Amplitude ℝ), 1, 1, 0].getD (v * 2 + w) 0 := fun _ _ => rfl
  cases b <;>
    simp (disch := decide) [turn_block, Standard.rzx, get_interaction, hs, hz, hx]

end GateMatrix

end CircuitBroker
