/-
  CircuitBroker/Proofs/GateMatrix/Algebra.lean
  ============================================
  **The algebra of gate matrices.**

  A matrix on qubits is determined by its entries (`OnQubits.ext`), so a law of gate matrices is a
  law of the matrices of linear algebra.  `toMatrix` is the passage there.  The product and the
  conjugate transpose keep their meaning; a tensor product becomes a Kronecker product whose pairs
  of indices are counted row after row, and a controlled matrix a block matrix with the identity in
  front.  Entries come from any commutative ring with a conjugation.
-/
import CircuitBroker.Proofs.GateMatrix.Product

namespace CircuitBroker

open Conjugate (conj)
open scoped Matrix Kronecker

/-! ## 1. Conjugations -/

/-- A conjugation keeps sums and products, and undoes itself. -/
class LawfulConjugate (K : Type) [CommRing K] [Conjugate K] : Prop where
  conjugate_add (a b : K) : conj (a + b) = conj a + conj b
  conjugate_mul (a b : K) : conj (a * b) = conj a * conj b
  conjugate_conjugate (a : K) : conj (conj a) = a

namespace LawfulConjugate

section

variable {K : Type} [CommRing K] [Conjugate K] [LawfulConjugate K]

theorem conjugate_zero : conj (0 : K) = 0 := by
  have hdouble : conj (0 : K) = conj 0 + conj 0 := by
    rw [← conjugate_add, add_zero]
  simpa using hdouble

theorem conjugate_one : conj (1 : K) = 1 := by
  calc conj (1 : K) = conj 1 * conj (conj 1) := by rw [conjugate_conjugate, mul_one]
    _ = conj (1 * conj 1) := (conjugate_mul 1 (conj 1)).symm
    _ = 1 := by rw [one_mul, conjugate_conjugate]

def hom : K →+* K where
  toFun := conj
  map_one' := conjugate_one
  map_mul' := conjugate_mul
  map_zero' := conjugate_zero
  map_add' := conjugate_add

end

instance {R : Type} [CommRing R] : LawfulConjugate (Amplitude R) where
  conjugate_add a b := by
    ext
    · rfl
    · exact neg_add a.im b.im
  conjugate_mul a b := by
    ext
    · simp [conj, Amplitude.conj]
    · simp [conj, Amplitude.conj]
      ring
  conjugate_conjugate a := by
    ext <;> simp [conj, Amplitude.conj]

end LawfulConjugate

namespace GateMatrix

open LawfulConjugate (hom conjugate_zero conjugate_one)

/-! ## 2. Matrices of linear algebra -/

section Entries

variable {K : Type} [CommRing K] {a b : GateMatrix K} {j k n : Nat}

def toMatrix (m : GateMatrix K) (n : Nat) : Matrix (Fin n) (Fin n) K := fun row col => m.get row col

theorem toMatrix_apply (m : GateMatrix K) (row col : Fin n) :
    m.toMatrix n row col = m.get row col := rfl

/-- **A matrix on qubits is determined by its entries.** -/
theorem OnQubits.ext (ha : a.OnQubits k) (hb : b.OnQubits k) (hn : n = 2 ^ k)
    (h : a.toMatrix n = b.toMatrix n) : a = b := by
  obtain ⟨dim, entries⟩ := a
  obtain ⟨dim', entries'⟩ := b
  obtain ⟨hdim, hsize⟩ := ha
  obtain ⟨hdim', hsize'⟩ := hb
  simp only at hdim hsize hdim' hsize'
  subst hn hdim hdim'
  congr 1
  apply Array.ext (hsize.trans hsize'.symm)
  intro p hp hp'
  have hpos := Nat.two_pow_pos k
  have hrow : p / 2 ^ k < 2 ^ k := Nat.div_lt_of_lt_mul (hsize ▸ hp)
  have hcol : p % 2 ^ k < 2 ^ k := Nat.mod_lt p hpos
  have hentry := congrFun (congrFun h ⟨p / 2 ^ k, hrow⟩) ⟨p % 2 ^ k, hcol⟩
  simpa only [toMatrix, get, Nat.div_add_mod', Array.getD_eq_getD_getElem?,
    Array.getElem?_eq_getElem hp, Array.getElem?_eq_getElem hp', Option.getD_some] using hentry

theorem toMatrix_ofFn (f : Nat → Nat → K) :
    (ofFn n f).toMatrix n = Matrix.of fun row col : Fin n => f row col := by
  ext row col
  exact get_ofFn f row.isLt col.isLt

theorem identity_eq (k : Nat) : (identity k : GateMatrix K) = one (2 ^ k) := by
  rw [identity, Nat.one_shiftLeft]

theorem onQubits_identity (k : Nat) : (identity k : GateMatrix K).OnQubits k := by
  rw [identity_eq]
  exact onQubits_ofFn _

theorem OnQubits.kron (ha : a.OnQubits j) (hb : b.OnQubits k) : (a.kron b).OnQubits (j + k) := by
  rw [GateMatrix.kron, ha.dim, hb.dim, ← pow_add]
  exact onQubits_ofFn _

theorem toMatrix_identity (hn : n = 2 ^ k) : (identity k : GateMatrix K).toMatrix n = 1 := by
  subst hn
  rw [identity_eq, one, toMatrix_ofFn]
  ext row col
  simp only [Matrix.of_apply, Matrix.one_apply, Fin.ext_iff]

theorem toMatrix_mul [BEq K] [LawfulBEq K] (ha : a.dim = n) (b : GateMatrix K) :
    (a.mul b).toMatrix n = a.toMatrix n * b.toMatrix n := by
  subst ha
  ext row col
  rw [toMatrix_apply, get_mul a b row.isLt col.isLt, Finset.sum_range, Matrix.mul_apply]
  rfl

theorem toMatrix_adjoint [Conjugate K] (ha : a.dim = n) :
    a.adjoint.toMatrix n = (a.toMatrix n)ᵀ.map conj := by
  subst ha
  exact toMatrix_ofFn _

/-- The index `i * n + k` of a tensor product stands for the pair of `i` and `k`. -/
theorem toMatrix_kron (ha : a.dim = j) (hb : b.dim = n) :
    (a.kron b).toMatrix (j * n) =
      Matrix.reindex finProdFinEquiv finProdFinEquiv (a.toMatrix j ⊗ₖ b.toMatrix n) := by
  subst ha hb
  exact toMatrix_ofFn _

def lastBlock (offset : Nat) (m : Matrix (Fin n) (Fin n) K) :
    Matrix (Fin (offset + n)) (Fin (offset + n)) K :=
  Matrix.reindex finSumFinEquiv finSumFinEquiv (Matrix.fromBlocks 1 0 0 m)

theorem lastBlock_one (offset : Nat) : lastBlock offset (1 : Matrix (Fin n) (Fin n) K) = 1 := by
  rw [lastBlock, Matrix.fromBlocks_one, Matrix.reindex_apply, Matrix.submatrix_one_equiv]

theorem lastBlock_mul (offset : Nat) (m m' : Matrix (Fin n) (Fin n) K) :
    lastBlock offset m * lastBlock offset m' = lastBlock offset (m * m') := by
  simp only [lastBlock, Matrix.reindex_apply, Matrix.submatrix_mul_equiv,
    Matrix.fromBlocks_multiply, Matrix.one_mul, Matrix.zero_mul, Matrix.mul_zero, add_zero,
    zero_add]

theorem lastBlock_adjoint [Conjugate K] [LawfulConjugate K] (offset : Nat)
    (m : Matrix (Fin n) (Fin n) K) :
    (lastBlock offset m)ᵀ.map conj = lastBlock offset (mᵀ.map conj) := by
  simp only [lastBlock, Matrix.reindex_apply, Matrix.transpose_submatrix, ← Matrix.submatrix_map,
    Matrix.fromBlocks_transpose, Matrix.fromBlocks_map, Matrix.transpose_one,
    Matrix.transpose_zero, Matrix.map_zero _ conjugate_zero,
    Matrix.map_one _ conjugate_zero conjugate_one]

/-- The block of the base begins at `offset`. -/
theorem toMatrix_controlled {count offset : Nat} (ha : a.dim = 2 ^ k)
    (hoffset : offset + 2 ^ k = 2 ^ (count + k)) :
    (a.controlled count).toMatrix (offset + 2 ^ k) = lastBlock offset (a.toMatrix (2 ^ k)) := by
  ext row col
  obtain ⟨row, rfl⟩ := finSumFinEquiv.surjective row
  obtain ⟨col, rfl⟩ := finSumFinEquiv.surjective col
  have hentry := get_controlled ha hoffset ((finSumFinEquiv row).isLt.trans_eq hoffset)
    ((finSumFinEquiv col).isLt.trans_eq hoffset)
  rw [toMatrix_apply, hentry, lastBlock, Matrix.reindex_apply, Matrix.submatrix_apply,
    Equiv.symm_apply_apply, Equiv.symm_apply_apply]
  rcases row with row | row <;> rcases col with col | col
  · have habove : ¬ (offset ≤ (row : Nat) ∧ offset ≤ (col : Nat)) := by omega
    obtain rfl | hne := eq_or_ne row col
    · simp
    · simp [habove, hne, Fin.val_ne_of_ne hne]
  · have hapart : (row : Nat) ≠ offset + col := by omega
    simp [hapart]
  · have hapart : offset + (row : Nat) ≠ col := by omega
    simp [hapart]
  · simp [toMatrix]

theorem exists_offset (count k : Nat) : ∃ offset, offset + 2 ^ k = 2 ^ (count + k) :=
  ⟨2 ^ (count + k) - 2 ^ k, Nat.sub_add_cancel (Nat.pow_le_pow_right (by decide) (by omega))⟩

end Entries

/-! ## 3. Laws of the product -/

section Product

variable {K : Type} [CommRing K] [BEq K] [LawfulBEq K] {a b c d : GateMatrix K} {j k : Nat}

protected theorem OnQubits.mul_assoc (ha : a.OnQubits k) (hb : b.OnQubits k) (c : GateMatrix K) :
    (a.mul b).mul c = a.mul (b.mul c) := by
  apply ((ha.mul b).mul c).ext (ha.mul _) rfl
  rw [toMatrix_mul (ha.mul b).dim, toMatrix_mul ha.dim, toMatrix_mul ha.dim, toMatrix_mul hb.dim,
    Matrix.mul_assoc]

theorem identity_mul (ha : a.OnQubits k) : (identity k).mul a = a := by
  apply ((onQubits_identity k).mul a).ext ha rfl
  rw [toMatrix_mul (onQubits_identity k).dim, toMatrix_identity rfl, Matrix.one_mul]

/-- An inverse on one side is one on both. -/
theorem mul_eq_identity_comm (ha : a.OnQubits k) (hb : b.OnQubits k) (h : a.mul b = identity k) :
    b.mul a = identity k := by
  have hproduct : a.toMatrix (2 ^ k) * b.toMatrix (2 ^ k) = 1 := by
    rw [← toMatrix_mul ha.dim, h, toMatrix_identity rfl]
  apply (hb.mul a).ext (onQubits_identity k) rfl
  rw [toMatrix_mul hb.dim, mul_eq_one_comm.mp hproduct, toMatrix_identity rfl]

theorem kron_mul_kron (ha : a.OnQubits j) (hb : b.OnQubits j) (hc : c.OnQubits k)
    (hd : d.OnQubits k) : (a.kron c).mul (b.kron d) = (a.mul b).kron (c.mul d) := by
  have hpow : 2 ^ j * 2 ^ k = 2 ^ (j + k) := (pow_add 2 j k).symm
  apply ((ha.kron hc).mul _).ext ((ha.mul b).kron (hc.mul d)) hpow
  rw [toMatrix_mul ((ha.kron hc).dim.trans hpow.symm), toMatrix_kron ha.dim hc.dim,
    toMatrix_kron hb.dim hd.dim, toMatrix_kron (ha.mul b).dim (hc.mul d).dim,
    toMatrix_mul ha.dim, toMatrix_mul hc.dim, Matrix.mul_kronecker_mul]
  simp only [Matrix.reindex_apply, Matrix.submatrix_mul_equiv]

theorem controlled_mul_controlled (ha : a.OnQubits k) (hb : b.OnQubits k) (count : Nat) :
    (a.controlled count).mul (b.controlled count) = (a.mul b).controlled count := by
  obtain ⟨offset, hoffset⟩ := exists_offset count k
  apply ((ha.controlled count).mul _).ext ((ha.mul b).controlled count) hoffset
  rw [toMatrix_mul ((ha.controlled count).dim.trans hoffset.symm),
    toMatrix_controlled ha.dim hoffset, toMatrix_controlled hb.dim hoffset,
    toMatrix_controlled (ha.mul b).dim hoffset, toMatrix_mul ha.dim, lastBlock_mul]

end Product

/-! ## 4. Laws of the tensor product and of controls -/

section Blocks

variable {K : Type} [CommRing K] {a : GateMatrix K} {j k : Nat}

theorem identity_kron_identity (j k : Nat) :
    (identity j : GateMatrix K).kron (identity k) = identity (j + k) := by
  have hpow : 2 ^ j * 2 ^ k = 2 ^ (j + k) := (pow_add 2 j k).symm
  apply ((onQubits_identity j).kron (onQubits_identity k)).ext (onQubits_identity _) hpow
  rw [toMatrix_kron (onQubits_identity j).dim (onQubits_identity k).dim, toMatrix_identity rfl,
    toMatrix_identity rfl, toMatrix_identity hpow, Matrix.one_kronecker_one]
  simp only [Matrix.reindex_apply, Matrix.submatrix_one_equiv]

theorem controlled_identity (count k : Nat) :
    (identity k : GateMatrix K).controlled count = identity (count + k) := by
  obtain ⟨offset, hoffset⟩ := exists_offset count k
  apply ((onQubits_identity k).controlled count).ext (onQubits_identity _) hoffset
  rw [toMatrix_controlled (onQubits_identity k).dim hoffset, toMatrix_identity rfl,
    toMatrix_identity hoffset, lastBlock_one]

/-- **Controls on top of controls are so many controls.**  The block of the base begins where the
    offsets add up to. -/
theorem controlled_controlled (ha : a.OnQubits k) (inner outer : Nat) :
    (a.controlled inner).controlled outer = a.controlled (inner + outer) := by
  have hinner := ha.controlled inner
  have hboth : (a.controlled (inner + outer)).OnQubits (outer + (inner + k)) := by
    rw [← Nat.add_assoc, Nat.add_comm outer]
    exact ha.controlled (inner + outer)
  obtain ⟨offset, hoffset⟩ := exists_offset inner k
  obtain ⟨offset', hoffset'⟩ := exists_offset outer (inner + k)
  have htotal : offset' + offset + 2 ^ k = 2 ^ (inner + outer + k) := by
    rw [Nat.add_assoc, hoffset, hoffset', ← Nat.add_assoc, Nat.add_comm outer]
  apply (hinner.controlled outer).ext hboth rfl
  ext row col
  have hrow := row.isLt
  have hcol := col.isLt
  rw [toMatrix_apply, toMatrix_apply, get_controlled hinner.dim hoffset' hrow hcol,
    get_controlled ha.dim htotal (by omega) (by omega)]
  by_cases hblock : offset' ≤ (row : Nat) ∧ offset' ≤ (col : Nat)
  · rw [if_pos hblock, get_controlled ha.dim hoffset (by omega) (by omega)]
    by_cases hlast : offset' + offset ≤ (row : Nat) ∧ offset' + offset ≤ (col : Nat)
    · rw [if_pos hlast, if_pos (by omega), Nat.sub_sub, Nat.sub_sub]
    · rw [if_neg hlast, if_neg (by omega)]
      exact if_congr (by omega) rfl rfl
  · have hlast : ¬ (offset' + offset ≤ (row : Nat) ∧ offset' + offset ≤ (col : Nat)) := by omega
    rw [if_neg hblock, if_neg hlast]

end Blocks

/-! ## 5. Laws of the conjugate transpose -/

section Adjoint

variable {K : Type} [CommRing K] [Conjugate K] [LawfulConjugate K] {a b : GateMatrix K} {j k : Nat}

theorem adjoint_adjoint (ha : a.OnQubits k) : a.adjoint.adjoint = a := by
  apply ha.adjoint.adjoint.ext ha rfl
  rw [toMatrix_adjoint ha.adjoint.dim, toMatrix_adjoint ha.dim]
  ext row col
  exact LawfulConjugate.conjugate_conjugate _

theorem adjoint_identity (k : Nat) : (identity k : GateMatrix K).adjoint = identity k := by
  have hwhole : (identity k : GateMatrix K).OnQubits k := onQubits_identity k
  apply hwhole.adjoint.ext hwhole rfl
  rw [toMatrix_adjoint hwhole.dim, toMatrix_identity rfl, Matrix.transpose_one,
    Matrix.map_one _ conjugate_zero conjugate_one]

theorem adjoint_mul [BEq K] [LawfulBEq K] (ha : a.OnQubits k) (hb : b.OnQubits k) :
    (a.mul b).adjoint = b.adjoint.mul a.adjoint := by
  apply (ha.mul b).adjoint.ext (hb.adjoint.mul _) rfl
  rw [toMatrix_adjoint (ha.mul b).dim, toMatrix_mul ha.dim, toMatrix_mul hb.adjoint.dim,
    toMatrix_adjoint ha.dim, toMatrix_adjoint hb.dim, Matrix.transpose_mul]
  exact Matrix.map_mul (f := hom)

theorem adjoint_kron (ha : a.OnQubits j) (hb : b.OnQubits k) :
    (a.kron b).adjoint = a.adjoint.kron b.adjoint := by
  have hpow : 2 ^ j * 2 ^ k = 2 ^ (j + k) := (pow_add 2 j k).symm
  apply (ha.kron hb).adjoint.ext (ha.adjoint.kron hb.adjoint) hpow
  rw [toMatrix_adjoint ((ha.kron hb).dim.trans hpow.symm), toMatrix_kron ha.dim hb.dim,
    toMatrix_kron ha.adjoint.dim hb.adjoint.dim, toMatrix_adjoint ha.dim, toMatrix_adjoint hb.dim]
  ext row col
  exact LawfulConjugate.conjugate_mul _ _

theorem adjoint_controlled (ha : a.OnQubits k) (count : Nat) :
    (a.controlled count).adjoint = a.adjoint.controlled count := by
  obtain ⟨offset, hoffset⟩ := exists_offset count k
  apply (ha.controlled count).adjoint.ext (ha.adjoint.controlled count) hoffset
  rw [toMatrix_adjoint ((ha.controlled count).dim.trans hoffset.symm),
    toMatrix_controlled ha.dim hoffset, toMatrix_controlled ha.adjoint.dim hoffset,
    toMatrix_adjoint ha.dim, lastBlock_adjoint]

end Adjoint

/-! ## 6. Images of vectors -/

section Apply

variable {K : Type} [CommRing K] {a b : GateMatrix K} {k n : Nat}

/-- The image of a vector is the product with it. -/
theorem getD_apply (ha : a.dim = n) (v : Array K) (row : Fin n) :
    (a.apply v).getD row 0 = (a.toMatrix n).mulVec (fun col => v.getD col 0) row := by
  subst ha
  have hfold : ∀ count, (List.range count).foldl
      (fun acc col => acc + a.get row col * v.getD col 0) 0 =
        ∑ col ∈ Finset.range count, a.get row col * v.getD col 0 := by
    intro count
    induction count with
    | zero => rfl
    | succ count ih =>
      rw [List.range_succ, List.foldl_append, ih, Finset.sum_range_succ, List.foldl_cons,
        List.foldl_nil]
  simp only [apply, Array.getD_eq_getD_getElem?, Array.getElem?_ofFn, row.isLt, dif_pos,
    Option.getD_some]
  simp only [← Array.getD_eq_getD_getElem?, hfold, Finset.sum_range]
  rfl

/-- **The image under a product is the image of the image.** -/
theorem apply_mul [BEq K] [LawfulBEq K] (ha : a.OnQubits k) (hb : b.OnQubits k) (v : Array K) :
    (a.mul b).apply v = a.apply (b.apply v) := by
  have hdim : (a.mul b).dim = a.dim := rfl
  apply Array.ext (by simp only [apply, Array.size_ofFn, hdim])
  intro p hp hp'
  have hrow : p < 2 ^ k := by
    simpa only [apply, Array.size_ofFn, ha.dim] using hp'
  have hentry : ((a.mul b).apply v).getD p 0 = (a.apply (b.apply v)).getD p 0 := by
    rw [getD_apply (ha.mul b).dim v ⟨p, hrow⟩, getD_apply ha.dim (b.apply v) ⟨p, hrow⟩,
      toMatrix_mul ha.dim, ← Matrix.mulVec_mulVec]
    congr 2
    funext col
    exact (getD_apply hb.dim v col).symm
  simpa only [Array.getD_eq_getD_getElem?, Array.getElem?_eq_getElem hp,
    Array.getElem?_eq_getElem hp', Option.getD_some] using hentry

end Apply

end GateMatrix

end CircuitBroker
