/-
  CircuitBroker/Proofs/Statevector/Gate.lean
  ==========================================
  **What a gate does to one amplitude.**

  A simulation goes through a state orbit by orbit and writes in place.  The main
  statement, `amplitude_applyMatrix`, says what is left at one index: the old amplitude
  where some control is zero, and otherwise the row of the matrix that the index names,
  times the old amplitudes of its orbit.  Everything about gates that follows (their
  order, their products, their controls) is read off this one equation.
-/
import CircuitBroker.Proofs.Statevector.Index

namespace CircuitBroker.Statevector

variable {K : Type} {n : Nat}

/-! ### Amplitudes -/

/-- The amplitude of an index; indices of no amplitude read zero. -/
def amplitude [Zero K] (ψ : Statevector K n) (index : Nat) : K := ψ.amplitudes.getD index 0

theorem ext_amplitude [Zero K] {ψ φ : Statevector K n}
    (h : ∀ i < 2 ^ n, ψ.amplitude i = φ.amplitude i) : ψ = φ := by
  obtain ⟨a, ha⟩ := ψ
  obtain ⟨b, hb⟩ := φ
  rw [Nat.one_shiftLeft] at ha hb
  congr
  apply Array.ext (by rw [ha, hb])
  intro i hia hib
  have hi := h i (ha ▸ hia)
  simpa [amplitude, Array.getD, hia, hib] using hi

/-! ### One orbit -/

section Orbit

variable [CommRing K] {targets controls : List Nat}

theorem zipIdx_map_range {α : Type} (f : Nat → α) (count : Nat) :
    ((List.range count).map f).zipIdx = (List.range count).map fun c => (f c, c) := by
  apply List.ext_getElem
  · simp
  · intro c _ _
    simp

theorem rowTimes_eq_sum (m : GateMatrix K) (row count : Nat) (v : Nat → K) :
    rowTimes m row ((List.range count).map v) =
      ∑ c ∈ Finset.range count, m.get row c * v c := by
  rw [rowTimes, zipIdx_map_range, List.foldl_map]
  induction count with
  | zero => rfl
  | succ count ih =>
    rw [List.range_succ, List.foldl_append, ih, Finset.sum_range_succ]
    rfl

/-- Writes to different places: every place holds what was written to it, the others what
    they held. -/
private theorem getD_foldl_write (place : Nat → Nat) (value : Nat → K) (a : Array K)
    (count : Nat) (hinj : ∀ c < count, ∀ d < count, place c = place d → c = d) :
    let b := (List.range count).foldl (fun b c => b.setIfInBounds (place c) (value c)) a
    b.size = a.size ∧ (∀ c < count, place c < a.size → b.getD (place c) 0 = value c) ∧
      ∀ i, (∀ c < count, place c ≠ i) → b.getD i 0 = a.getD i 0 := by
  induction count with
  | zero => simp
  | succ count ih =>
    obtain ⟨hsize, hwritten, hkept⟩ :=
      ih fun c hc d hd => hinj c (by omega) d (by omega)
    rw [List.range_succ, List.foldl_append]
    simp only [List.foldl_cons, List.foldl_nil, Array.size_setIfInBounds,
      Array.getD_eq_getD_getElem?, Array.getElem?_setIfInBounds] at hsize hwritten hkept ⊢
    refine ⟨hsize, ?_, ?_⟩
    · intro c hc hplace
      rw [hsize]
      by_cases hcc : c = count
      · subst hcc
        rw [if_pos rfl, if_pos hplace]
        rfl
      · have hne : place count ≠ place c :=
          fun he => hcc (hinj count (by omega) c hc he).symm
        rw [if_neg hne]
        exact hwritten c (by omega) hplace
    · intro i hi
      rw [if_neg (hi count (by omega))]
      exact hkept i fun c hc => hi c (by omega)

/-- One orbit, from its base: an index of the orbit gets its row of the matrix times the
    orbit, and no other index is touched. -/
theorem getD_updateOrbit (m : GateMatrix K) (ht : targets.Nodup) (a : Array K) {base : Nat}
    (hbase : ∀ q ∈ targets, base.testBit q = false) (i : Nat) :
    (replaceBits targets 0 i = base → i < a.size →
      (updateOrbit m (offsets targets) a base).getD i 0 =
        ∑ c ∈ Finset.range (2 ^ targets.length),
          m.get (localIndex targets i) c * a.getD (replaceBits targets c base) 0) ∧
    (replaceBits targets 0 i ≠ base →
      (updateOrbit m (offsets targets) a base).getD i 0 = a.getD i 0) := by
  have hplace : ∀ c, base ||| replaceBits targets c 0 = replaceBits targets c base :=
    or_replaceBits_zero hbase
  have hinj : ∀ c < 2 ^ targets.length, ∀ d < 2 ^ targets.length,
      replaceBits targets c base = replaceBits targets d base → c = d := by
    intro c hc d hd he
    have hread : localIndex targets (replaceBits targets c base) = c :=
      localIndex_replaceBits ht hc
    rw [← hread, he, localIndex_replaceBits ht hd]
  simp only [updateOrbit, offsets_eq ht, zipIdx_map_range, List.foldl_map, List.map_map,
    Function.comp_def, hplace, rowTimes_eq_sum]
  obtain ⟨-, hwritten, hkept⟩ := getD_foldl_write (fun c => replaceBits targets c base)
    (fun row => ∑ c ∈ Finset.range (2 ^ targets.length),
      m.get row c * a.getD (replaceBits targets c base) 0) a _ hinj
  constructor
  · intro h hi
    have hself : replaceBits targets (localIndex targets i) base = i := by
      rw [← h, replaceBits_replaceBits, replaceBits_localIndex]
    have hrow := hwritten (localIndex targets i) (localIndex_lt targets i) (hself.symm ▸ hi)
    rw [← hrow, hself]
  · intro h
    apply hkept
    rintro c - rfl
    apply h
    rw [replaceBits_replaceBits, replaceBits_zero_of_clear hbase]

/-- Some orbits, each from its base: an index whose base is among them gets its row of the
    matrix times its orbit, if the controls let it through. -/
theorem getD_updateOrbits (m : GateMatrix K) (ht : targets.Nodup) (hc : controls.Nodup)
    (hdisjoint : List.Disjoint controls targets) {i : Nat} (bases : List Nat) :
    ∀ a : Array K, bases.Nodup → i < a.size →
      (updateOrbits m targets controls a bases).getD i 0 =
        if replaceBits targets 0 i ∈ bases ∧ controls.all i.testBit then
          ∑ c ∈ Finset.range (2 ^ targets.length),
            m.get (localIndex targets i) c * a.getD (replaceBits targets c i) 0
        else a.getD i 0 := by
  induction bases with
  | nil => intro a _ _; simp [updateOrbits]
  | cons base bases ih =>
    intro a hnodup hi
    obtain ⟨hnotMem, hrest⟩ := List.nodup_cons.mp hnodup
    have hopen : updateOrbits m targets controls a (base :: bases) =
        updateOrbits m targets controls
          (if isBase targets controls base then updateOrbit m (offsets targets) a base else a)
          bases := rfl
    rw [hopen]
    by_cases hb : isBase targets controls base
    · have hparts := hb
      rw [isBase_eq ht hc, Bool.and_eq_true, List.all_eq_true] at hparts
      obtain ⟨hzero, hone⟩ := hparts
      have hclear : ∀ q ∈ targets, base.testBit q = false := by simpa using hzero
      rw [if_pos hb, ih _ hrest (by rw [size_updateOrbit]; exact hi)]
      by_cases hself : replaceBits targets 0 i = base
      · -- this is the orbit of the index, and it is processed only now
        have hall : controls.all i.testBit = true := by
          rw [← all_testBit_replaceBits hdisjoint 0 i, hself, hone]
        rw [if_neg (by rw [hself]; exact fun h => hnotMem h.1), if_pos (by simp [hself, hall]),
          (getD_updateOrbit m ht a hclear i).1 hself hi]
        simp only [← hself, replaceBits_replaceBits]
      · have hkept : ∀ c, (updateOrbit m (offsets targets) a base).getD
            (replaceBits targets c i) 0 = a.getD (replaceBits targets c i) 0 := by
          intro c
          apply (getD_updateOrbit m ht a hclear _).2
          rw [replaceBits_replaceBits]
          exact hself
        rw [(getD_updateOrbit m ht a hclear i).2 hself]
        simp only [hkept, List.mem_cons, hself, false_or]
    · rw [if_neg hb, ih a hrest hi]
      by_cases hself : replaceBits targets 0 i = base
      · -- the base is not let through, so neither is the index
        have hall : ¬ controls.all i.testBit = true := by
          intro hall
          apply hb
          rw [isBase_eq ht hc, ← hself, all_testBit_replaceBits hdisjoint, hall, Bool.and_true,
            List.all_eq_true]
          intro q hq
          rw [testBit_replaceBits_zero]
          simp [hq]
        simp only [hall, and_false, if_false, Bool.false_eq_true]
      · simp only [List.mem_cons, hself, false_or]

end Orbit

/-! ### One gate -/

section Gate

variable [CommRing K] {targets controls : List Nat}

/-- **The controlled matrix, amplitude by amplitude.**  Where some control is zero the
    amplitude stays; elsewhere it is the row of the matrix that the targets spell, times the
    amplitudes of the indices that differ at the targets only. -/
theorem amplitude_applyMatrix (ψ : Statevector K n) (m : GateMatrix K)
    (hnodup : (controls ++ targets).Nodup) {i : Nat} (hi : i < 2 ^ n)
    (hlt : ∀ q ∈ targets, q < n) :
    (ψ.applyMatrix m targets controls).amplitude i =
      if controls.all i.testBit then
        ∑ c ∈ Finset.range (2 ^ targets.length),
          m.get (localIndex targets i) c * ψ.amplitude (replaceBits targets c i)
      else ψ.amplitude i := by
  obtain ⟨hc, ht, hdisjoint⟩ := List.nodup_append'.mp hnodup
  have hmem : replaceBits targets 0 i ∈ List.range (1 <<< n) := by
    rw [List.mem_range, Nat.one_shiftLeft]
    exact replaceBits_lt hlt hi
  have hsize : i < ψ.amplitudes.size := by
    rw [ψ.size_amplitudes, Nat.one_shiftLeft]
    exact hi
  rw [amplitude, applyMatrix, getD_updateOrbits m ht hc hdisjoint _ _ List.nodup_range hsize]
  simp only [hmem, true_and]
  rfl

theorem amplitude_applyMatrix_replaceBits (ψ : Statevector K n) (m : GateMatrix K)
    (hnodup : (controls ++ targets).Nodup) {i : Nat} (hi : i < 2 ^ n)
    (hlt : ∀ q ∈ targets, q < n) {others : List Nat} (hothers : ∀ q ∈ others, q < n)
    (hdisjoint : List.Disjoint (controls ++ targets) others) (value : Nat) :
    (ψ.applyMatrix m targets controls).amplitude (replaceBits others value i) =
      if controls.all i.testBit then
        ∑ c ∈ Finset.range (2 ^ targets.length), m.get (localIndex targets i) c *
          ψ.amplitude (replaceBits others value (replaceBits targets c i))
      else ψ.amplitude (replaceBits others value i) := by
  obtain ⟨hcontrols, htargets⟩ := List.disjoint_append_left.mp hdisjoint
  rw [amplitude_applyMatrix ψ m hnodup (replaceBits_lt hothers hi) hlt,
    all_testBit_replaceBits hcontrols, localIndex_replaceBits_of_disjoint htargets]
  simp only [replaceBits_comm htargets]

/-- **Gates on different qubits commute.** -/
theorem applyMatrix_comm (ψ : Statevector K n) (m m' : GateMatrix K)
    {targets' controls' : List Nat} (hnodup : (controls ++ targets).Nodup)
    (hnodup' : (controls' ++ targets').Nodup) (hlt : ∀ q ∈ targets, q < n)
    (hlt' : ∀ q ∈ targets', q < n)
    (hdisjoint : List.Disjoint (controls ++ targets) (controls' ++ targets')) :
    (ψ.applyMatrix m targets controls).applyMatrix m' targets' controls' =
      (ψ.applyMatrix m' targets' controls').applyMatrix m targets controls := by
  have hd : List.Disjoint (controls ++ targets) targets' :=
    (List.disjoint_append_right.mp hdisjoint).2
  have hd' : List.Disjoint (controls' ++ targets') targets :=
    (List.disjoint_append_left.mp hdisjoint).2.symm
  apply ext_amplitude
  intro i hi
  rw [amplitude_applyMatrix (ψ.applyMatrix m targets controls) m' hnodup' hi hlt',
    amplitude_applyMatrix (ψ.applyMatrix m' targets' controls') m hnodup hi hlt]
  simp only [amplitude_applyMatrix_replaceBits ψ m hnodup hi hlt hlt' hd,
    amplitude_applyMatrix_replaceBits ψ m' hnodup' hi hlt' hlt hd',
    amplitude_applyMatrix ψ m hnodup hi hlt, amplitude_applyMatrix ψ m' hnodup' hi hlt']
  by_cases h : controls.all i.testBit <;> by_cases h' : controls'.all i.testBit
  · -- both gates act: the two sums over columns change places
    simp only [h, h', if_true, Finset.mul_sum]
    rw [Finset.sum_comm]
    refine Finset.sum_congr rfl fun c _ => Finset.sum_congr rfl fun d _ => ?_
    rw [replaceBits_comm (List.disjoint_append_left.mp hd).2, mul_left_comm]
  · simp only [h, h', if_true, if_false, Bool.false_eq_true]
  · simp only [h, h', if_true, if_false, Bool.false_eq_true]
  · simp only [h, h', if_false, Bool.false_eq_true]

end Gate

end CircuitBroker.Statevector
