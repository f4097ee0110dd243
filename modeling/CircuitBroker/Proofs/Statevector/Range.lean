/-
  CircuitBroker/Proofs/Statevector/Range.lean
  ===========================================
  **Which gates use no amplitude but those there are.**

  A gate is run from the least index of each orbit, by adding the bits of its targets to it.
  The largest of these sums has all target bits, and a target that is listed twice counts
  twice.  So a gate stays inside the state exactly if its target bits add up to an index, or if
  its controls let no orbit through (`fits_iff`).

  The sums are words if those of all target bits and of all control bits are (`GateWords`), and
  these are if no qubit is repeated (`gateWords_of_nodup`).
-/
import CircuitBroker.Proofs.Statevector.Controls
import CircuitBroker.Proofs.Traversal
import CircuitBroker.Proofs.Word

namespace CircuitBroker.Statevector

variable {K : Type} {targets controls : List Nat} {n : Nat}

/-- The bits of a column add up to no more than all bits do. -/
theorem foldl_offset_le (value total : Nat) (targets : List Nat) :
    ∀ done start start' : Nat, start ≤ start' →
      (targets.zipIdx done).foldl
          (fun o (q, j) => if value.testBit (total - 1 - j) then o + 1 <<< q else o) start ≤
        targets.foldl (fun m q => m + 1 <<< q) start' := by
  induction targets with
  | nil => exact fun _ _ _ h => h
  | cons q qs ih =>
    intro done start start' h
    rw [List.zipIdx_cons, List.foldl_cons, List.foldl_cons]
    apply ih
    dsimp only
    split
    · exact Nat.add_le_add_right h _
    · exact h.trans (Nat.le_add_right _ _)

/-- The last column has all bits. -/
theorem foldl_offset_last (total : Nat) (targets : List Nat) :
    ∀ done start : Nat, total = done + targets.length →
      (targets.zipIdx done).foldl
          (fun o (q, j) => if (2 ^ total - 1).testBit (total - 1 - j) then o + 1 <<< q else o)
          start =
        targets.foldl (fun m q => m + 1 <<< q) start := by
  induction targets with
  | nil => exact fun _ _ _ => rfl
  | cons q qs ih =>
    intro done start htotal
    rw [List.length_cons] at htotal
    have hbit : (2 ^ total - 1).testBit (total - 1 - done) = true := by
      rw [Nat.testBit_two_pow_sub_one]
      exact decide_eq_true (by omega)
    rw [List.zipIdx_cons, List.foldl_cons, List.foldl_cons]
    dsimp only
    rw [if_pos hbit]
    exact ih (done + 1) _ (by omega)

theorem le_mask_of_mem_offsets {o : Nat} (h : o ∈ offsets targets) : o ≤ mask targets := by
  obtain ⟨value, -, rfl⟩ := List.mem_map.mp h
  exact foldl_offset_le value targets.length targets 0 0 0 le_rfl

theorem mask_mem_offsets (targets : List Nat) : mask targets ∈ offsets targets := by
  refine List.mem_map.mpr ⟨2 ^ targets.length - 1, ?_, ?_⟩
  · have hpos := Nat.two_pow_pos targets.length
    rw [List.mem_range, Nat.one_shiftLeft]
    omega
  · exact foldl_offset_last targets.length targets 0 0 (by omega)

theorem mask_lt (hnodup : targets.Nodup) (hlt : ∀ q ∈ targets, q < n) : mask targets < 2 ^ n := by
  apply Nat.lt_pow_two_of_testBit
  intro r hr
  rw [testBit_mask hnodup]
  exact decide_eq_false fun hmem => absurd (hlt r hmem) (by omega)

/-- **A gate stays inside the state exactly if its target bits add up to an index, or its
    controls let nothing through.** -/
theorem fits_iff {m : GateMatrix K} (hm : m.OnQubits targets.length) :
    fits n m targets controls = true ↔
      mask targets < 2 ^ n ∨ ¬ (mask controls < 2 ^ n ∧ mask controls &&& mask targets = 0) := by
  have hlen : (offsets targets).length = 2 ^ targets.length := by
    simp [offsets, Nat.one_shiftLeft]
  have hentries : ((offsets targets).length - 1) * m.dim + ((offsets targets).length - 1) <
      m.entries.size := by
    have hpos := Nat.two_pow_pos targets.length
    obtain ⟨d, hd⟩ : ∃ d, 2 ^ targets.length = d + 1 := ⟨2 ^ targets.length - 1, by omega⟩
    rw [hm.dim, hm.size, hlen, hd, Nat.add_sub_cancel]
    nlinarith
  simp only [fits, List.all_eq_true, List.mem_filter, List.mem_range, Bool.and_eq_true,
    decide_eq_true_eq, hentries, and_true, Nat.one_shiftLeft, isBase, beq_iff_eq]
  constructor
  · intro h
    by_contra hnot
    obtain ⟨hmask, hcontrols, hapart⟩ : ¬ mask targets < 2 ^ n ∧ mask controls < 2 ^ n ∧
        mask controls &&& mask targets = 0 := by tauto
    -- the least index the controls let through, and its last column
    have hlast := h (mask controls) ⟨hcontrols, hapart, Nat.and_self _⟩ _ (mask_mem_offsets targets)
    have hle : mask targets ≤ mask controls ||| mask targets := Nat.right_le_or
    omega
  · rintro (hmask | hnone) base ⟨hbase, hzero, hone⟩ o ho
    · exact Nat.or_lt_two_pow hbase ((le_mask_of_mem_offsets ho).trans_lt hmask)
    · refine absurd ⟨?_, ?_⟩ hnone
      · rw [← hone]
        exact Nat.and_le_left.trans_lt hbase
      · rw [← hone, Nat.and_right_comm, hzero, Nat.zero_and]

/-- **A control that is named twice is a control on the next qubit**: its bit is added to
    itself. -/
theorem applyMatrix_control_twice [Zero K] [Add K] [Mul K] (ψ : Statevector K n)
    (m : GateMatrix K) (targets : List Nat) (q : Nat) :
    ψ.applyMatrix m targets [q, q] = ψ.applyMatrix m targets [q + 1] := by
  have hmask : mask [q, q] = mask [q + 1] := by
    simp only [mask, List.foldl_cons, List.foldl_nil, Nat.one_shiftLeft, pow_succ]
    ring
  have hbase : isBase targets [q, q] = isBase targets [q + 1] := by
    funext index
    rw [isBase, isBase, hmask]
  rw [applyMatrix, applyMatrix]
  congr 1
  rw [updateOrbits, updateOrbits, hbase]

/-- A matrix on different qubits of a state stays inside the state. -/
theorem fits_of_lt {m : GateMatrix K} (hm : m.OnQubits targets.length) (htargets : targets.Nodup)
    (hlt : ∀ q ∈ targets, q < n) : fits n m targets controls = true :=
  (fits_iff hm).mpr (.inl (mask_lt htargets hlt))

/-! ### Words -/

theorem mask_eq_sum (qubits : List Nat) : mask qubits = (qubits.map (1 <<< ·)).sum := by
  rw [List.sum_eq_foldl, List.foldl_map, mask]

theorem lt_of_mask_lt {qubits : List Nat} (h : mask qubits < 2 ^ n) : ∀ q ∈ qubits, q < n := by
  intro q hq
  have hle : 1 <<< q ≤ mask qubits := by
    rw [mask_eq_sum]
    exact List.single_le_sum (fun _ _ => Nat.zero_le _) _ (List.mem_map_of_mem hq)
  rw [Nat.one_shiftLeft] at hle
  exact (Nat.pow_lt_pow_iff_right (by decide)).mp (hle.trans_lt h)

theorem lt_of_bit {position word : Nat} (h : Word.bit position = .ok word) : position < 64 :=
  (Word.bit_eq_ok_iff.mp h).1.resolve_right (by decide)

theorem mask?_eq_ok_iff {qubits : List Nat} {word : Nat} :
    mask? qubits = .ok word ↔ mask qubits < wordSize ∧ mask qubits = word := by
  have hbits : qubits.mapM Word.bit = .ok (qubits.map (1 <<< ·)) ↔ ∀ q ∈ qubits, q < 64 := by
    rw [mapM_eq_ok_iff, List.forall₂_map_right_iff, List.forall₂_same]
    exact forall₂_congr fun q _ => ⟨lt_of_bit, Word.bit_of_lt⟩
  rw [mask?, bind_eq_ok, mask_eq_sum]
  constructor
  · rintro ⟨bits, hmap, hsum⟩
    have hlt : ∀ q ∈ qubits, q < 64 := fun q hq =>
      lt_of_bit (exists_of_mapM_eq_ok hmap q hq).choose_spec
    obtain rfl : qubits.map (1 <<< ·) = bits := Except.ok.inj ((hbits.mpr hlt).symm.trans hmap)
    obtain ⟨hbuild, hword⟩ := Word.sum_eq_ok_iff.mp hsum
    have hlt := hbuild.resolve_right (by decide)
    exact ⟨hlt, (Nat.mod_eq_of_lt hlt).symm.trans hword⟩
  · rintro ⟨hword, rfl⟩
    rw [← mask_eq_sum] at hword
    refine ⟨_, hbits.mpr (lt_of_mask_lt hword), Word.sum_of_lt ?_⟩
    rwa [← mask_eq_sum]

/-- The bits of a gate add up to words: those of its targets, those of its controls, and there are
    as many columns as a word can count. -/
def GateWords (targets controls : List Nat) : Prop :=
  targets.length < 64 ∧ mask targets < wordSize ∧ mask controls < wordSize

theorem gateWords_of_nodup (hn : n < 64) (hnodup : (controls ++ targets).Nodup)
    (hlt : ∀ q ∈ controls ++ targets, q < n) : GateWords targets controls := by
  obtain ⟨hcontrols, htargets, -⟩ := List.nodup_append'.mp hnodup
  obtain ⟨hcontrolsLt, htargetsLt⟩ := List.forall_mem_append.mp hlt
  have hfew : targets.length ≤ (List.range n).length :=
    (htargets.subperm fun q hq => List.mem_range.mpr (htargetsLt q hq)).length_le
  rw [List.length_range] at hfew
  have hword : 2 ^ n < wordSize := Nat.pow_lt_pow_right (by decide) hn
  exact ⟨hfew.trans_lt hn, (mask_lt htargets htargetsLt).trans hword,
    (mask_lt hcontrols hcontrolsLt).trans hword⟩

theorem gateFault?_of_words {m : GateMatrix K} (h : GateWords targets controls) :
    gateFault? n m targets controls =
      if fits n m targets controls then none else some .indexOutOfRange := by
  obtain ⟨hfew, htargets, hcontrols⟩ := h
  rw [gateFault?, Word.bit_of_lt hfew, mask?_eq_ok_iff.mpr ⟨htargets, rfl⟩,
    mask?_eq_ok_iff.mpr ⟨hcontrols, rfl⟩]
  rfl

theorem exists_gateFault?_of_not_words {m : GateMatrix K} (h : ¬ GateWords targets controls) :
    ∃ fault, gateFault? n m targets controls = some fault := by
  rw [gateFault?]
  match hfew : Word.bit targets.length, htargets : mask? targets, hcontrols : mask? controls with
  | .error fault, _, _ => exact ⟨fault, rfl⟩
  | .ok _, .error fault, _ => exact ⟨fault, rfl⟩
  | .ok _, .ok _, .error fault => exact ⟨fault, rfl⟩
  | .ok _, .ok _, .ok _ =>
    exact absurd ⟨lt_of_bit hfew, (mask?_eq_ok_iff.mp htargets).1,
      (mask?_eq_ok_iff.mp hcontrols).1⟩ h

/-- **A matrix on different qubits of a state can be applied to it.** -/
theorem applyMatrix?_of_nodup [Zero K] [Add K] [Mul K] (ψ : Statevector K n) {m : GateMatrix K}
    (hn : n < 64) (hm : m.OnQubits targets.length) (hnodup : (controls ++ targets).Nodup)
    (hlt : ∀ q ∈ controls ++ targets, q < n) :
    ψ.applyMatrix? m targets controls = .ok (ψ.applyMatrix m targets controls) := by
  have hfits : fits n m targets controls = true :=
    fits_of_lt hm (List.nodup_append'.mp hnodup).2.1 fun q hq => hlt q (List.mem_append_right _ hq)
  rw [applyMatrix?, gateFault?_of_words (gateWords_of_nodup hn hnodup hlt), if_pos hfits]

/-- What has been applied is the matrix. -/
theorem eq_of_applyMatrix? [Zero K] [Add K] [Mul K] {ψ φ : Statevector K n} {m : GateMatrix K}
    (h : ψ.applyMatrix? m targets controls = .ok φ) : ψ.applyMatrix m targets controls = φ := by
  rw [applyMatrix?] at h
  split at h
  · cases h
  · exact Except.ok.inj h

theorem zero?_eq_ok_iff [Zero K] [One K] {ψ : Statevector K n} :
    zero? n = .ok ψ ↔ n < 64 ∧ zero n = ψ := by
  rw [zero?, bind_eq_ok]
  constructor
  · rintro ⟨word, hbit, hzero⟩
    exact ⟨lt_of_bit hbit, Except.ok.inj hzero⟩
  · rintro ⟨hn, rfl⟩
    exact ⟨_, Word.bit_of_lt hn, rfl⟩

section Measurements

variable {R : Type} [Zero R] [Add R] [Mul R] {ψ : Statevector (Amplitude R) n} {q : Nat}

theorem probabilityOne?_of_lt (hq : q < 64) : ψ.probabilityOne? q = .ok (ψ.probabilityOne q) := by
  rw [probabilityOne?, Word.bit_of_lt hq]
  rfl

theorem measure?_eq_ok_iff [One R] [Sub R] [Div R] [Elementary R] [Magnitude R] {draw : R}
    {found : Bool × Statevector (Amplitude R) n} :
    ψ.measure? q draw = .ok found ↔ q < 64 ∧ ψ.measure q draw = found := by
  rw [measure?, bind_eq_ok]
  constructor
  · rintro ⟨word, hbit, hmeasure⟩
    exact ⟨lt_of_bit hbit, Except.ok.inj hmeasure⟩
  · rintro ⟨hq, rfl⟩
    exact ⟨_, Word.bit_of_lt hq, rfl⟩

end Measurements

end CircuitBroker.Statevector
