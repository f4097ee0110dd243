/-
  CircuitBroker/Proofs/GateMatrix/Sizes.lean
  ==========================================
  **Which sizes the checks of a matrix let through.**

  Sizes are machine words.  The square of a dimension fits a word up to `2 ^ 31`, the bit of an
  arity up to 63; beyond, a build that checks its arithmetic is at fault, and in one that does
  not both wrap around.  `ofEntries?` then accepts the dimensions from `2 ^ 32` on with no entry
  at all (`exists_ofEntries?_iff`), and a custom gate of 64 qubits or more is asked for the
  dimension of its arity modulo 64 (`exists_new_iff`).  Rows are safe: there are as many entries
  as the rows hold, and no entries is not the square of their number (`onQubits_of_ofRows?`).
  `size_checks_exact_iff` says of each check where it is exact.
-/
import CircuitBroker.GateMatrix.Custom
import CircuitBroker.Proofs.Statevector.Controls
import CircuitBroker.Proofs.Word

namespace CircuitBroker

variable {K : Type}

/-! ## 1. Powers of two as machine words -/

theorem isPowerOfTwo_iff {n : Nat} : isPowerOfTwo n = true ↔ ∃ k, n = 2 ^ k := by
  simp only [isPowerOfTwo, Bool.and_eq_true, decide_eq_true_iff, Nat.one_shiftLeft]
  constructor
  · rintro ⟨-, hlog⟩
    exact ⟨n.log2, hlog.symm⟩
  · rintro ⟨k, rfl⟩
    exact ⟨(Nat.two_pow_pos k).ne', by rw [Nat.log2_two_pow]⟩

theorem two_pow_lt_wordSize_iff {k : Nat} : 2 ^ k < wordSize ↔ k < 64 :=
  Nat.pow_lt_pow_iff_right (a := 2) (m := 64) (by decide)

section Build

variable [Build]

/-- **The square of a power of two is zero as a word from `2 ^ 32` on**, and exact before. -/
theorem mul_two_pow_eq_ok_iff {k count : Nat} :
    Word.mul (2 ^ k) (2 ^ k) = .ok count ↔
      (k < 32 ∨ Build.checks = false) ∧ (if k < 32 then 2 ^ k * 2 ^ k else 0) = count := by
  rw [Word.mul, Word.reduce_eq_ok_iff, ← pow_add, two_pow_lt_wordSize_iff]
  refine and_congr (or_congr_left (by omega)) (Eq.congr_left ?_)
  split
  case isTrue hsmall => exact Nat.mod_eq_of_lt (two_pow_lt_wordSize_iff.mpr (by omega))
  case isFalse hlarge => exact Nat.mod_eq_zero_of_dvd (pow_dvd_pow 2 (by omega : 64 ≤ k + k))

theorem mul_two_pow_exact_iff {k : Nat} :
    Word.mul (2 ^ k) (2 ^ k) = .ok (2 ^ k * 2 ^ k) ↔ k < 32 := by
  rw [mul_two_pow_eq_ok_iff]
  split
  case isTrue hsmall => simp [hsmall]
  case isFalse hlarge =>
    have hpos : 0 < 2 ^ k * 2 ^ k := by positivity
    simp only [hlarge, iff_false, not_and]
    exact fun _ hzero => hpos.ne hzero

namespace GateMatrix

/-! ## 2. Entries -/

theorem ofEntries?_eq_ok_iff {dim : Nat} {entries : Array K} {m : GateMatrix K} :
    ofEntries? dim entries = .ok (.ok m) ↔
      (∃ k, dim = 2 ^ k) ∧ Word.mul dim dim = .ok entries.size ∧ ⟨dim, entries⟩ = m := by
  rw [← isPowerOfTwo_iff, ofEntries?]
  split
  case isTrue hdim => simp_all [pure, Except.pure]
  case isFalse hdim =>
    have hpower : isPowerOfTwo dim = true := by simpa using hdim
    match Word.mul dim dim with
    | .error _ => simp [bind, Except.bind]
    | .ok count =>
      by_cases hcount : entries.size = count
      · simp [bind, Except.bind, pure, Except.pure, hcount, hpower]
      · simp [bind, Except.bind, pure, Except.pure, hcount, Ne.symm hcount]

/-- **What is accepted**: a power of two with its square of entries below `2 ^ 32`, and, where
    nothing is checked, one with no entry from there on. -/
theorem exists_ofEntries?_iff {dim : Nat} (hword : dim < wordSize) {entries : Array K} :
    (∃ m, ofEntries? dim entries = .ok (.ok m)) ↔
      ∃ k < 64, dim = 2 ^ k ∧ (k < 32 ∨ Build.checks = false) ∧
        entries.size = if k < 32 then dim * dim else 0 := by
  simp only [ofEntries?_eq_ok_iff, exists_and_left, exists_eq', and_true]
  constructor
  · rintro ⟨⟨k, rfl⟩, hsize⟩
    obtain ⟨hbuild, hcount⟩ := mul_two_pow_eq_ok_iff.mp hsize
    exact ⟨k, two_pow_lt_wordSize_iff.mp hword, rfl, hbuild, hcount.symm⟩
  · rintro ⟨k, -, rfl, hbuild, hsize⟩
    exact ⟨⟨k, rfl⟩, mul_two_pow_eq_ok_iff.mpr ⟨hbuild, hsize.symm⟩⟩

/-- **Where the arithmetic is checked, larger dimensions are a fault.** -/
theorem ofEntries?_of_large (hchecks : Build.checks = true) {k : Nat} (hlarge : 32 ≤ k)
    (entries : Array K) : ofEntries? (2 ^ k) entries = .error .overflow := by
  have hsquare : Word.mul (2 ^ k) (2 ^ k) = .error .overflow := by
    rw [Word.mul, Word.reduce_eq_error_iff, ← pow_add]
    exact ⟨⟨Nat.le_of_not_lt fun h => by have := two_pow_lt_wordSize_iff.mp h; omega, hchecks⟩, rfl⟩
  rw [ofEntries?, isPowerOfTwo_iff.mpr ⟨k, rfl⟩, hsquare]
  rfl

/-- An accepted matrix has the entries its dimension asks for exactly if its dimension is below
    `2 ^ 32`. -/
theorem onQubits_iff_of_ofEntries? {dim : Nat} {entries : Array K} {m : GateMatrix K}
    (h : ofEntries? dim entries = .ok (.ok m)) : (∃ k, m.OnQubits k) ↔ dim < 2 ^ 32 := by
  obtain ⟨⟨k, rfl⟩, hsize, rfl⟩ := ofEntries?_eq_ok_iff.mp h
  rw [Nat.pow_lt_pow_iff_right (by decide), ← mul_two_pow_exact_iff, hsize, Except.ok.injEq]
  constructor
  · rintro ⟨j, hdim, hentries⟩
    obtain rfl : k = j := Nat.pow_right_injective le_rfl hdim
    exact hentries
  · intro hentries
    exact ⟨k, rfl, hentries⟩

/-! ## 3. Rows -/

theorem ofRows?_eq_ok_iff {rows : List (List K)} {m : GateMatrix K} :
    ofRows? rows = .ok (.ok m) ↔ (∀ row ∈ rows, row.length = rows.length) ∧
      ofEntries? rows.length rows.flatten.toArray = .ok (.ok m) := by
  rw [ofRows?]
  split
  case isTrue hany =>
    obtain ⟨row, hrow, hlength⟩ := List.any_eq_true.mp hany
    simp only [Except.ok.injEq, reduceCtorEq, false_iff, not_and]
    exact fun hsquare => absurd (hsquare row hrow) (of_decide_eq_true hlength)
  case isFalse hany =>
    have hsquare : ∀ row ∈ rows, row.length = rows.length := by simpa using hany
    exact ⟨fun h => ⟨hsquare, h⟩, And.right⟩

omit [Build] in
theorem size_flatten {rows : List (List K)} (hsquare : ∀ row ∈ rows, row.length = rows.length) :
    rows.flatten.toArray.size = rows.length * rows.length := by
  rw [List.size_toArray, List.length_flatten, List.sum_eq_card_nsmul _ rows.length]
  · rw [List.length_map, smul_eq_mul]
  · simpa using hsquare

/-- **Rows that are accepted are a matrix with all its entries.** -/
theorem onQubits_of_ofRows? {rows : List (List K)} {m : GateMatrix K}
    (h : ofRows? rows = .ok (.ok m)) : m.dim = rows.length ∧ ∃ k < 32, m.OnQubits k := by
  obtain ⟨hsquare, hentries⟩ := ofRows?_eq_ok_iff.mp h
  have hcount := size_flatten hsquare
  obtain ⟨⟨k, hk⟩, hsize, rfl⟩ := ofEntries?_eq_ok_iff.mp hentries
  rw [hcount, hk] at hsize
  -- The square is the number of entries itself, so it has not wrapped around.
  exact ⟨rfl, k, mul_two_pow_exact_iff.mp hsize, hk, by rw [hcount, hk]⟩

theorem exists_ofRows?_iff {rows : List (List K)} : (∃ m, ofRows? rows = .ok (.ok m)) ↔
    (∀ row ∈ rows, row.length = rows.length) ∧ ∃ k < 32, rows.length = 2 ^ k := by
  constructor
  · rintro ⟨m, h⟩
    obtain ⟨hdim, k, hsmall, hwhole⟩ := onQubits_of_ofRows? h
    exact ⟨(ofRows?_eq_ok_iff.mp h).1, k, hsmall, hdim.symm.trans hwhole.dim⟩
  · rintro ⟨hsquare, k, hsmall, hk⟩
    have hsize : Word.mul rows.length rows.length = .ok rows.flatten.toArray.size := by
      rw [size_flatten hsquare, hk, mul_two_pow_exact_iff.mpr hsmall]
    exact ⟨_, ofRows?_eq_ok_iff.mpr ⟨hsquare, ofEntries?_eq_ok_iff.mpr ⟨⟨k, hk⟩, hsize, rfl⟩⟩⟩

end GateMatrix

/-! ## 4. Custom gates -/

namespace CustomGate

open GateMatrix

variable {R : Type} [Zero R] [One R] [Add R] [Sub R] [Neg R] [Mul R] [BEq R] [Magnitude R]

theorem new_eq_ok_iff {name : String} {arity : Nat} {u : GateMatrix (Amplitude R)}
    {labels : List String} {g : CustomGate R} : new name arity u labels = .ok g ↔
      Word.bit arity = .ok u.dim ∧ labels.length = arity ∧ u.excessDeviation? = none ∧
        ⟨name, arity, u, labels⟩ = g := by
  rw [new]
  split
  case h_1 fault hfault => simp [hfault]
  case h_2 dim hbit =>
    rw [hbit, Except.ok.injEq]
    split
    case isTrue hdim => simp [Ne.symm hdim]
    case isFalse hdim =>
      split
      case isTrue hlabels => simp [hlabels]
      case isFalse hlabels => split <;> simp_all

theorem exists_new_iff {name : String} {arity : Nat} {u : GateMatrix (Amplitude R)}
    {labels : List String} : (∃ g, new name arity u labels = .ok g) ↔
      (arity < 64 ∨ Build.checks = false) ∧ u.dim = 2 ^ (arity % 64) ∧
        labels.length = arity ∧ u.excessDeviation? = none := by
  simp only [new_eq_ok_iff, Word.bit_eq_ok_iff, exists_and_left, exists_eq', and_true, and_assoc,
    @eq_comm _ u.dim]

theorem new_of_large (hchecks : Build.checks = true) {arity : Nat} (hlarge : 64 ≤ arity)
    (name : String) (u : GateMatrix (Amplitude R)) (labels : List String) :
    new name arity u labels = .error (.machine .overflow) := by
  rw [new, Word.bit_eq_error_iff.mpr ⟨⟨hlarge, hchecks⟩, rfl⟩]

/-- The dimension of an accepted gate is that of its arity exactly if it acts on fewer than 64
    qubits. -/
theorem dim_of_new {name : String} {arity : Nat} {u : GateMatrix (Amplitude R)}
    {labels : List String} {g : CustomGate R} (h : new name arity u labels = .ok g) :
    g.matrix = u ∧ (g.matrix.dim = 2 ^ arity ↔ arity < 64) := by
  obtain ⟨hbit, -, -, rfl⟩ := new_eq_ok_iff.mp h
  refine ⟨rfl, ?_⟩
  rw [← (Word.bit_eq_ok_iff.mp hbit).2, Nat.pow_right_inj (by decide)]
  omega

end CustomGate

/-! ## 5. Where the checks are exact -/

open GateMatrix

section Exact

variable {R : Type} [Zero R] [One R] [Add R] [Sub R] [Neg R] [Mul R] [BEq R] [Magnitude R]

/-- **The size checks are exact where no word wraps around.**  Entries are accepted for a power of
    two, with its square of entries up to `2 ^ 31` and with none above, so the matrix is whole
    exactly if the dimension is below `2 ^ 32`.  Rows are accepted up to `2 ^ 31` of them, and are
    always a whole matrix.  A gate is asked for the dimension of its arity modulo 64, which is that
    of its arity exactly if the arity is below 64.  A build that checks its arithmetic ends with a
    fault wherever a word would wrap around, and so its checks are exact. -/
theorem size_checks_exact_iff :
    (∀ (dim : Nat) (entries : Array K),
      (dim < wordSize → ((∃ m, ofEntries? dim entries = .ok (.ok m)) ↔
        ∃ k < 64, dim = 2 ^ k ∧ (k < 32 ∨ Build.checks = false) ∧
          entries.size = if k < 32 then dim * dim else 0)) ∧
      (Build.checks = true → ∀ k, 32 ≤ k → dim = 2 ^ k →
        ofEntries? dim entries = .error .overflow) ∧
      ∀ m, ofEntries? dim entries = .ok (.ok m) →
        ⟨dim, entries⟩ = m ∧ ((∃ k, m.OnQubits k) ↔ dim < 2 ^ 32)) ∧
    (∀ rows : List (List K),
      ((∃ m, ofRows? rows = .ok (.ok m)) ↔
        (∀ row ∈ rows, row.length = rows.length) ∧ ∃ k < 32, rows.length = 2 ^ k) ∧
      ∀ m, ofRows? rows = .ok (.ok m) → m.dim = rows.length ∧ ∃ k < 32, m.OnQubits k) ∧
    ∀ (name : String) (arity : Nat) (u : GateMatrix (Amplitude R)) (labels : List String),
      ((∃ g, CustomGate.new name arity u labels = .ok g) ↔
        (arity < 64 ∨ Build.checks = false) ∧ u.dim = 2 ^ (arity % 64) ∧
          labels.length = arity ∧ u.excessDeviation? = none) ∧
      (Build.checks = true → 64 ≤ arity →
        CustomGate.new name arity u labels = .error (.machine .overflow)) ∧
      ∀ g, CustomGate.new name arity u labels = .ok g →
        g.matrix = u ∧ (g.matrix.dim = 2 ^ arity ↔ arity < 64) := by
  refine ⟨?entries, ?rows, ?gates⟩
  case entries =>
    intro dim entries
    refine ⟨fun hword => exists_ofEntries?_iff hword, ?_, fun m h => ?_⟩
    · rintro hchecks k hlarge rfl
      exact ofEntries?_of_large hchecks hlarge entries
    · exact ⟨(ofEntries?_eq_ok_iff.mp h).2.2, onQubits_iff_of_ofEntries? h⟩
  case rows =>
    intro rows
    exact ⟨exists_ofRows?_iff, fun m h => onQubits_of_ofRows? h⟩
  case gates =>
    intro name arity u labels
    refine ⟨CustomGate.exists_new_iff, fun hchecks hlarge => ?_, fun g h => CustomGate.dim_of_new h⟩
    exact CustomGate.new_of_large hchecks hlarge name u labels

end Exact

end Build

open GateMatrix

/-- The flip, from its entries, from its rows and as a gate, and a gate that is too large. -/
theorem size_checks_exact_flip :
    let flip : GateMatrix (Amplitude Float) := ⟨2, #[0, 1, 1, 0]⟩
    (∃ m, ofEntries? 2 flip.entries = .ok (.ok m) ∧ ∃ k, m.OnQubits k) ∧
      (∃ m, ofRows? [[0, 1], [1, (0 : Amplitude Float)]] = .ok (.ok m) ∧ ∃ k < 32, m.OnQubits k) ∧
      (∃ g, CustomGate.new "g" 1 flip ["g"] = .ok g ∧ g.matrix.dim = 2 ^ 1) ∧
      CustomGate.new "g" 64 flip [] = .error (.machine .overflow) := by
  intro flip
  obtain ⟨hentries, hrows, hgates⟩ := size_checks_exact_iff (K := Amplitude Float) (R := Float)
  obtain ⟨haccepts, -, hwhole⟩ := hentries 2 flip.entries
  obtain ⟨m, hm⟩ := (haccepts (by decide)).mpr ⟨1, by decide, rfl, .inl (by decide), rfl⟩
  obtain ⟨hrowsAccepts, hrowsWhole⟩ := hrows [[0, 1], [1, 0]]
  obtain ⟨m', hm'⟩ := hrowsAccepts.mpr ⟨by simp, 1, by decide, rfl⟩
  obtain ⟨hgateAccepts, -, hgateDim⟩ := hgates "g" 1 flip ["g"]
  obtain ⟨g, hg⟩ := hgateAccepts.mpr ⟨.inl (by decide), rfl, rfl, by decide +kernel⟩
  obtain ⟨-, hlarge, -⟩ := hgates "g" 64 flip []
  exact ⟨⟨m, hm, (hwhole m hm).2.mpr (by decide)⟩, ⟨m', hm', (hrowsWhole m' hm').2⟩,
    ⟨g, hg, (hgateDim g hg).2.mpr (by decide)⟩, hlarge rfl (by decide)⟩

/-- **Sizes that wrap around are accepted** where nothing is checked: a matrix of dimension
    `2 ^ 32` without entries, and a gate of 64 qubits with one entry. -/
theorem wrapped_sizes_accepted :
    letI := wrappingBuild
    (ofEntries? (2 ^ 32) (#[] : Array (Amplitude Float)) = .ok (.ok ⟨2 ^ 32, #[]⟩) ∧
      (#[] : Array (Amplitude Float)).size ≠ 2 ^ 32 * 2 ^ 32) ∧
    let one : GateMatrix (Amplitude Float) := ⟨1, #[1]⟩
    CustomGate.new "g" 64 one (List.replicate 64 "g") =
        .ok ⟨"g", 64, one, List.replicate 64 "g"⟩ ∧
      one.dim ≠ 2 ^ 64 := by
  let _ := wrappingBuild
  refine ⟨⟨ofEntries?_eq_ok_iff.mpr ⟨⟨32, rfl⟩, by decide, rfl⟩, by decide⟩, ?_⟩
  intro one
  exact ⟨CustomGate.new_eq_ok_iff.mpr ⟨by decide, by decide, by decide +kernel, rfl⟩, by decide⟩

end CircuitBroker
