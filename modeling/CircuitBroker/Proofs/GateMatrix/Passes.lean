/-
  CircuitBroker/Proofs/GateMatrix/Passes.lean
  ===========================================
  **Matrices that are written cell by cell.**

  A pass starts from a store of zeros and writes one cell after the other.  What it has written
  so far is a function of rows and columns: a step changes it at one cell (`write?_ofFn`), and by
  induction a whole pass changes it at the cells it comes to (`foldlM_ofFn`).  So each pass gives
  the matrix that the operation is defined by, if the square of the dimension is a word.  If it
  is none there is no matrix at all: in a build that does not check its arithmetic the store of
  zeros is empty then, and the first cell has no place in it (`size_of_foldlM_write`).
-/
import CircuitBroker.Proofs.GateMatrix.Algebra
import CircuitBroker.Proofs.GateMatrix.Sizes
import CircuitBroker.Proofs.Traversal

namespace CircuitBroker.GateMatrix

variable {K : Type} {n : Nat}

/-! ## 1. What a pass has written -/

theorem ofFn_congr {f g : Nat → Nat → K} (h : ∀ i < n, ∀ j < n, f i j = g i j) :
    ofFn n f = ofFn n g := by
  simp only [ofFn, GateMatrix.mk.injEq, true_and]
  congr 1
  funext p
  have hpos : 0 < n := Nat.pos_of_mul_pos_left (Nat.zero_lt_of_lt p.isLt)
  exact h _ (Nat.div_lt_of_lt_mul p.isLt) _ (Nat.mod_lt _ hpos)

theorem cell_lt {rows row col : Nat} (hrow : row < rows) (hcol : col < n) :
    row * n + col < rows * n :=
  calc row * n + col < row * n + n := Nat.add_lt_add_left hcol _
    _ = (row + 1) * n := (Nat.succ_mul row n).symm
    _ ≤ rows * n := Nat.mul_le_mul_right n hrow

/-- The row and the column of a cell are read off its position. -/
theorem cell_eq_iff {row col p : Nat} (hcol : col < n) :
    row * n + col = p ↔ row = p / n ∧ col = p % n := by
  constructor
  · rintro rfl
    rw [Nat.mul_comm, Nat.mul_add_div (Nat.zero_lt_of_lt hcol), Nat.mul_add_mod,
      Nat.div_eq_of_lt hcol, Nat.mod_eq_of_lt hcol]
    exact ⟨(Nat.add_zero row).symm, rfl⟩
  · rintro ⟨rfl, rfl⟩
    exact Nat.div_add_mod' p n

/-- **A pass of steps that each write some cells.** -/
theorem foldlM_ofFn {ι : Type} {step : Array K → ι → Except MachineFault (Array K)}
    (f : Nat → Nat → K) (P : ι → Nat → Nat → Prop) [∀ x i j, Decidable (P x i j)] {xs : List ι}
    (hstep : ∀ x ∈ xs, ∀ g, step (ofFn n g).entries x =
      .ok (ofFn n fun i j => if P x i j then f i j else g i j).entries) (g : Nat → Nat → K) :
    xs.foldlM step (ofFn n g).entries =
      .ok (ofFn n fun i j => if ∃ x ∈ xs, P x i j then f i j else g i j).entries := by
  induction xs generalizing g with
  | nil => simp [pure, Except.pure]
  | cons x xs ih =>
    obtain ⟨hfirst, hrest⟩ := List.forall_mem_cons.mp hstep
    rw [List.foldlM_cons, hfirst]
    refine (ih hrest _).trans (congrArg (Except.ok <| GateMatrix.entries ·) (ofFn_congr ?_))
    intro i _ j _
    by_cases hx : P x i j
    · simp [hx]
    · simp [hx]

/-- A pass that comes to every cell that is not yet as it should be. -/
theorem foldlM_covering {ι : Type} {step : Array K → ι → Except MachineFault (Array K)}
    (f : Nat → Nat → K) (P : ι → Nat → Nat → Prop) [∀ x i j, Decidable (P x i j)] {xs : List ι}
    (hstep : ∀ x ∈ xs, ∀ g, step (ofFn n g).entries x =
      .ok (ofFn n fun i j => if P x i j then f i j else g i j).entries) (g : Nat → Nat → K)
    (hcover : ∀ i < n, ∀ j < n, f i j = g i j ∨ ∃ x ∈ xs, P x i j) :
    xs.foldlM step (ofFn n g).entries = .ok (ofFn n f).entries := by
  refine (foldlM_ofFn f P hstep g).trans
    (congrArg (Except.ok <| GateMatrix.entries ·) (ofFn_congr ?_))
  intro i hi j hj
  rcases hcover i hi j hj with hsame | hwritten
  · simp [hsame]
  · rw [if_pos hwritten]

/-- A pass that comes to a cell had room for it, and keeps the room. -/
theorem size_of_foldlM_write {ι : Type} {step : Array K → ι → Except MachineFault (Array K)}
    (hstep : ∀ x cells cells', step cells x = .ok cells' →
      0 < cells.size ∧ cells'.size = cells.size)
    {xs : List ι} {cells cells' : Array K} (h : xs.foldlM step cells = .ok cells') :
    (xs ≠ [] → 0 < cells.size) ∧ cells'.size = cells.size := by
  induction xs generalizing cells with
  | nil =>
    cases h
    exact ⟨fun hne => absurd rfl hne, rfl⟩
  | cons x xs ih =>
    rw [List.foldlM_cons] at h
    obtain ⟨next, hfirst, hrest⟩ := bind_eq_ok.mp h
    obtain ⟨hroom, hkept⟩ := hstep x cells next hfirst
    exact ⟨fun _ => hroom, (ih hrest).2.trans hkept⟩

theorem two_pow_mul_self_lt {k : Nat} (hk : k < 32) : 2 ^ k * 2 ^ k < wordSize := by
  rw [← pow_add]
  exact two_pow_lt_wordSize_iff.mpr (by omega)

/-- A power of two whose square is no word, cut to a word. -/
theorem dvd_two_pow_mod {k : Nat} (hk : ¬ k < 32) : 2 ^ 32 ∣ 2 ^ k % wordSize :=
  (Nat.dvd_mod_iff (pow_dvd_pow 2 (by decide : 32 ≤ 64))).mpr (pow_dvd_pow 2 (Nat.le_of_not_lt hk))

theorem mem_square {i j : Nat} : (i, j) ∈ square n ↔ i < n ∧ j < n := by
  simp [square]

theorem square_ne_nil (hpos : 0 < n) : square n ≠ [] :=
  List.ne_nil_of_mem (mem_square.mpr ⟨hpos, hpos⟩)

section Words

variable [Build]

/-! ## 2. Single cells -/

theorem zeros?_of_lt [Zero K] (hfit : n * n < wordSize) :
    zeros? n = .ok (ofFn n fun _ _ => (0 : K)).entries := by
  rw [zeros?, Word.mul_of_lt hfit]
  refine congrArg Except.ok (Array.ext (by simp [ofFn]) fun p _ _ => ?_)
  simp [ofFn]

theorem read?_of_lt [Zero K] {a : GateMatrix K} (hsize : a.entries.size = a.dim * a.dim)
    (hfit : a.dim * a.dim < wordSize) {i j : Nat} (hi : i < a.dim) (hj : j < a.dim) :
    a.read? i j = .ok (a.get i j) := by
  have hcell := cell_lt hi hj
  have hthere : i * a.dim + j < a.entries.size := hsize.symm ▸ hcell
  rw [read?, Word.cell_of_lt (hcell.trans hfit)]
  simp only [bind, Except.bind, Array.getElem?_eq_getElem hthere, pure, Except.pure, get,
    Array.getD_eq_getD_getElem?, Option.getD_some]

/-- **One cell written.** -/
theorem write?_ofFn (hfit : n * n < wordSize) {row col : Nat} (hrow : row < n) (hcol : col < n)
    (f g : Nat → Nat → K) :
    write? n (ofFn n g).entries row col (f row col) =
      .ok (ofFn n fun i j => if row = i ∧ col = j then f i j else g i j).entries := by
  have hcell := cell_lt hrow hcol
  have hsize : (ofFn n g).entries.size = n * n := by simp [ofFn]
  rw [write?, Word.cell_of_lt (hcell.trans hfit)]
  change (if row * n + col < (ofFn n g).entries.size then _ else _) = _
  rw [if_pos (hsize.symm ▸ hcell)]
  refine congrArg Except.ok (Array.ext (by simp [ofFn]) fun p hp hp' => ?_)
  have hthere : p < (ofFn n g).entries.size := by simpa using hp
  rw [Array.getElem_setIfInBounds hthere]
  simp only [ofFn, Array.getElem_ofFn, cell_eq_iff hcol]
  split
  case isTrue h => rw [h.1, h.2]
  case isFalse => rfl

theorem size_of_write? {cells cells' : Array K} {row col : Nat} {entry : K}
    (h : write? n cells row col entry = .ok cells') :
    0 < cells.size ∧ cells'.size = cells.size := by
  obtain ⟨position, -, h⟩ := bind_eq_ok.mp h
  split at h
  case isTrue hthere =>
    cases h
    exact ⟨Nat.zero_lt_of_lt hthere, Array.size_setIfInBounds⟩
  case isFalse => cases h

/-- **Where the square of a dimension is no word there is no room for a cell.** -/
theorem size_of_zeros? [Zero K] (hlarge : 2 ^ 32 ∣ n) {cells : Array K}
    (h : zeros? n = .ok cells) : cells.size = 0 := by
  obtain ⟨size, hsize, h⟩ := bind_eq_ok.mp h
  cases h
  rw [Word.mul, Word.reduce_eq_ok_iff] at hsize
  rw [Array.size_replicate, ← hsize.2]
  exact Nat.mod_eq_zero_of_dvd (mul_dvd_mul hlarge hlarge)

theorem foldlM_zeros?_ne_ok [Zero K] (hlarge : 2 ^ 32 ∣ n) {zeros : Array K}
    (hzeros : zeros? n = .ok zeros) {ι : Type}
    {step : Array K → ι → Except MachineFault (Array K)}
    (hstep : ∀ x cells cells', step cells x = .ok cells' →
      0 < cells.size ∧ cells'.size = cells.size)
    {xs : List ι} (hxs : xs ≠ []) (cells : Array K) : xs.foldlM step zeros ≠ .ok cells := by
  intro h
  have hroom := (size_of_foldlM_write hstep h).1 hxs
  have hnone := size_of_zeros? hlarge hzeros
  omega

/-! ## 3. Diagonals -/

theorem writeDiagonal?_ofFn (hfit : n * n < wordSize) {entries : List K}
    (hlength : entries.length ≤ n)
    (f g : Nat → Nat → K) (hf : ∀ i (hi : i < entries.length), entries[i] = f i i) :
    writeDiagonal? n entries (ofFn n g).entries =
      .ok (ofFn n fun i j => if i = j ∧ i < entries.length then f i j else g i j).entries := by
  refine (foldlM_ofFn f (fun (x : K × Nat) i j => x.2 = i ∧ x.2 = j) ?_ g).trans
    (congrArg (Except.ok <| GateMatrix.entries ·) (ofFn_congr ?_))
  · rintro ⟨entry, i⟩ hmem g
    obtain ⟨hi, hentry⟩ := List.mem_zipIdx' hmem
    have hin : i < n := hi.trans_le hlength
    have hwrite := write?_ofFn hfit hin hin f g
    rwa [← hf i hi, ← hentry] at hwrite
  · intro i _ j _
    have hcells : (∃ x ∈ entries.zipIdx, x.2 = i ∧ x.2 = j) ↔ i = j ∧ i < entries.length := by
      constructor
      · rintro ⟨⟨entry, p⟩, hmem, rfl, rfl⟩
        exact ⟨rfl, (List.mem_zipIdx' hmem).1⟩
      · rintro ⟨rfl, hi⟩
        exact ⟨(entries[i], i), List.mk_mem_zipIdx_iff_getElem?.mpr (List.getElem?_eq_getElem hi),
          rfl, rfl⟩
    simp only [hcells]

theorem size_of_writeDiagonal? {entries : List K} {cells cells' : Array K}
    (h : writeDiagonal? n entries cells = .ok cells') : cells'.size = cells.size :=
  (size_of_foldlM_write (fun _ _ _ => size_of_write?) h).2

/-! ## 4. Whole matrices -/

section Whole

variable [Zero K] {a b : GateMatrix K} {j k : Nat}

omit [Build] [Zero K] in
theorem OnQubits.fits (ha : a.OnQubits k) (hk : k < 32) : a.dim * a.dim < wordSize := by
  rw [ha.dim]
  exact two_pow_mul_self_lt hk

omit [Build] [Zero K] in
theorem OnQubits.square_ne_nil (ha : a.OnQubits k) : square a.dim ≠ [] :=
  List.ne_nil_of_mem (mem_square.mpr ⟨ha.dim ▸ Nat.two_pow_pos k, ha.dim ▸ Nat.two_pow_pos k⟩)

theorem OnQubits.read? (ha : a.OnQubits k) (hk : k < 32) {row col : Nat} (hrow : row < a.dim)
    (hcol : col < a.dim) : a.read? row col = .ok (a.get row col) := by
  refine read?_of_lt ?_ (ha.fits hk) hrow hcol
  rw [ha.size, ha.dim]

theorem writeDiagonal?_ones [One K] (hfit : n * n < wordSize) :
    writeDiagonal? n (List.replicate n (1 : K)) (ofFn n fun _ _ => 0).entries =
      .ok (one n).entries := by
  refine (writeDiagonal?_ofFn hfit (by simp) (fun _ _ => 1) (fun _ _ => 0) (by simp)).trans
    (congrArg (Except.ok <| GateMatrix.entries ·) (ofFn_congr fun i hi j _ => ?_))
  simp [hi]

/-- **Writing the identity gives the identity**, of as many qubits as the word says. -/
theorem identity?_eq_ok_iff [One K] {numQubits : Nat} {m : GateMatrix K} :
    identity? numQubits = .ok m ↔
      ((numQubits < 64 ∨ Build.checks = false) ∧ numQubits % 64 < 32) ∧
        identity (numQubits % 64) = m := by
  rw [identity?, bind_eq_ok, identity, Nat.one_shiftLeft]
  simp only [Word.bit_eq_ok_iff, and_assoc, exists_and_left, exists_eq_left']
  refine and_congr_right fun _ => ?_
  generalize numQubits % 64 = k
  by_cases hk : k < 32
  · have hfit := two_pow_mul_self_lt hk
    rw [zeros?_of_lt hfit]
    simp only [bind, Except.bind, writeDiagonal?_ones hfit, pure, Except.pure, hk, true_and,
      Except.ok.injEq]
    exact Iff.rfl
  · simp only [hk, false_and, iff_false]
    intro h
    obtain ⟨zeros, hzeros, h⟩ := bind_eq_ok.mp h
    obtain ⟨cells, hcells, -⟩ := bind_eq_ok.mp h
    refine foldlM_zeros?_ne_ok (pow_dvd_pow 2 (Nat.le_of_not_lt hk)) hzeros
      (fun _ _ _ => size_of_write?) ?_ cells hcells
    simp [List.zipIdx_eq_nil_iff]

/-- **Writing a diagonal gives the diagonal matrix.** -/
theorem diagonal?_of_lt {entries : List K} (hfit : entries.length * entries.length < wordSize) :
    diagonal? entries = .ok (diagonal entries) := by
  have hpass : writeDiagonal? entries.length entries (ofFn entries.length fun _ _ => 0).entries =
      .ok (diagonal entries).entries := by
    refine (writeDiagonal?_ofFn hfit le_rfl (fun i _ => entries.getD i 0) (fun _ _ => 0) ?_).trans
      (congrArg (Except.ok <| GateMatrix.entries ·) (ofFn_congr fun i hi j _ => ?_))
    · intro i hi
      simp [hi]
    · simp [hi]
  rw [diagonal?, zeros?_of_lt hfit]
  simp only [bind, Except.bind, hpass, pure, Except.pure]
  rfl

theorem adjoint?_of_lt [Conjugate K] (ha : a.OnQubits k) (hk : k < 32) :
    a.adjoint? = .ok a.adjoint := by
  rw [adjoint?, zeros?_of_lt (ha.fits hk)]
  refine congrArg (Except.map (GateMatrix.mk a.dim)) (foldlM_covering
    (fun i j => Conjugate.conj (a.get j i)) (fun x i j => x.2 = i ∧ x.1 = j) ?_ _ ?_)
  · rintro ⟨i, j⟩ hmem g
    obtain ⟨hi, hj⟩ := mem_square.mp hmem
    simp only [ha.read? hk hi hj]
    exact write?_ofFn (ha.fits hk) hj hi (fun i j => Conjugate.conj (a.get j i)) g
  · intro i hi j hj
    exact .inr ⟨(j, i), mem_square.mpr ⟨hj, hi⟩, rfl, rfl⟩

/-- **Writing the conjugate transpose gives the conjugate transpose.** -/
theorem adjoint?_eq_ok_iff [Conjugate K] (ha : a.OnQubits k) {m : GateMatrix K} :
    a.adjoint? = .ok m ↔ k < 32 ∧ a.adjoint = m := by
  by_cases hk : k < 32
  · rw [adjoint?_of_lt ha hk, Except.ok.injEq]
    simp [hk]
  · simp only [hk, false_and, iff_false]
    intro h
    obtain ⟨zeros, hzeros, h⟩ := bind_eq_ok.mp h
    obtain ⟨cells, hcells, -⟩ := bind_eq_ok.mp h
    refine foldlM_zeros?_ne_ok (ha.dim ▸ pow_dvd_pow 2 (Nat.le_of_not_lt hk)) hzeros ?_
      ha.square_ne_nil cells hcells
    intro x cells cells' h
    obtain ⟨entry, -, h⟩ := bind_eq_ok.mp h
    exact size_of_write? h

/-- **One block of a tensor product.** -/
theorem writeBlock?_ofFn [Mul K] (ha : a.OnQubits j) (hb : b.OnQubits k) (hjk : j + k < 32)
    {row col : Nat} (hrow : row < a.dim) (hcol : col < a.dim) (g : Nat → Nat → K) :
    writeBlock? (a.dim * b.dim) row col (a.get row col) b (ofFn (a.dim * b.dim) g).entries =
      .ok (ofFn (a.dim * b.dim) fun i l =>
        if row = i / b.dim ∧ col = l / b.dim then
          a.get (i / b.dim) (l / b.dim) * b.get (i % b.dim) (l % b.dim)
        else g i l).entries := by
  have hfit : a.dim * b.dim * (a.dim * b.dim) < wordSize := by
    rw [ha.dim, hb.dim, ← pow_add]
    exact two_pow_mul_self_lt hjk
  have hword : a.dim * b.dim < wordSize := (Nat.le_mul_self _).trans_lt hfit
  refine (foldlM_ofFn (fun i l => a.get (i / b.dim) (l / b.dim) * b.get (i % b.dim) (l % b.dim))
    (fun x i l => row * b.dim + x.1 = i ∧ col * b.dim + x.2 = l) ?_ g).trans
    (congrArg (Except.ok <| GateMatrix.entries ·) (ofFn_congr ?_))
  · rintro ⟨p, q⟩ hmem g
    obtain ⟨hp, hq⟩ := mem_square.mp hmem
    have hi := cell_lt hrow hp
    have hl := cell_lt hcol hq
    have hwrite := write?_ofFn hfit hi hl
      (fun i l => a.get (i / b.dim) (l / b.dim) * b.get (i % b.dim) (l % b.dim)) g
    simp only [((cell_eq_iff hp).mp rfl).1.symm, ((cell_eq_iff hp).mp rfl).2.symm,
      ((cell_eq_iff hq).mp rfl).1.symm, ((cell_eq_iff hq).mp rfl).2.symm] at hwrite
    simp only [hb.read? (by omega) hp hq, Word.cell_of_lt (hi.trans hword),
      Word.cell_of_lt (hl.trans hword)]
    exact hwrite
  · intro i _ l _
    have hpos : 0 < b.dim := hb.dim ▸ Nat.two_pow_pos k
    have hblock : (∃ x ∈ square b.dim, row * b.dim + x.1 = i ∧ col * b.dim + x.2 = l) ↔
        row = i / b.dim ∧ col = l / b.dim := by
      constructor
      · rintro ⟨⟨p, q⟩, hmem, hi, hl⟩
        obtain ⟨hp, hq⟩ := mem_square.mp hmem
        exact ⟨((cell_eq_iff hp).mp hi).1, ((cell_eq_iff hq).mp hl).1⟩
      · rintro ⟨rfl, rfl⟩
        exact ⟨(i % b.dim, l % b.dim), mem_square.mpr ⟨Nat.mod_lt _ hpos, Nat.mod_lt _ hpos⟩,
          Nat.div_add_mod' i _, Nat.div_add_mod' l _⟩
    simp only [hblock]

theorem kron?_of_lt [Mul K] (ha : a.OnQubits j) (hb : b.OnQubits k) (hjk : j + k < 32) :
    a.kron? b = .ok (a.kron b) := by
  have hfit : a.dim * b.dim * (a.dim * b.dim) < wordSize := by
    rw [ha.dim, hb.dim, ← pow_add]
    exact two_pow_mul_self_lt hjk
  rw [kron?, Word.mul_of_lt ((Nat.le_mul_self _).trans_lt hfit)]
  simp only [bind, Except.bind, zeros?_of_lt hfit]
  refine congrArg (Except.map (GateMatrix.mk (a.dim * b.dim))) (foldlM_covering
    (fun i l => a.get (i / b.dim) (l / b.dim) * b.get (i % b.dim) (l % b.dim))
    (fun x i l => x.1 = i / b.dim ∧ x.2 = l / b.dim) ?_ _ ?_)
  · rintro ⟨row, col⟩ hmem g
    obtain ⟨hrow, hcol⟩ := mem_square.mp hmem
    simp only [ha.read? (by omega) hrow hcol]
    exact writeBlock?_ofFn ha hb hjk hrow hcol g
  · intro i hi l hl
    exact .inr ⟨(i / b.dim, l / b.dim), mem_square.mpr
      ⟨Nat.div_lt_of_lt_mul (Nat.mul_comm a.dim _ ▸ hi),
        Nat.div_lt_of_lt_mul (Nat.mul_comm a.dim _ ▸ hl)⟩, rfl, rfl⟩

omit [Zero K] in
theorem size_of_writeBlock? [Mul K] (hb : b.OnQubits k) {row col : Nat} {factor : K}
    {cells cells' : Array K} (h : writeBlock? n row col factor b cells = .ok cells') :
    0 < cells.size ∧ cells'.size = cells.size := by
  have hblock := size_of_foldlM_write (fun y cells cells' h => by
    obtain ⟨entry, -, h⟩ := bind_eq_ok.mp h
    obtain ⟨row, -, h⟩ := bind_eq_ok.mp h
    obtain ⟨col, -, h⟩ := bind_eq_ok.mp h
    exact size_of_write? h) h
  exact ⟨hblock.1 hb.square_ne_nil, hblock.2⟩

/-- **Writing a tensor product gives the tensor product.** -/
theorem kron?_eq_ok_iff [Mul K] (ha : a.OnQubits j) (hb : b.OnQubits k) {m : GateMatrix K} :
    a.kron? b = .ok m ↔ j + k < 32 ∧ a.kron b = m := by
  by_cases hjk : j + k < 32
  · rw [kron?_of_lt ha hb hjk, Except.ok.injEq]
    simp [hjk]
  · simp only [hjk, false_and, iff_false]
    intro h
    obtain ⟨n, hn, h⟩ := bind_eq_ok.mp h
    obtain ⟨zeros, hzeros, h⟩ := bind_eq_ok.mp h
    obtain ⟨cells, hcells, -⟩ := bind_eq_ok.mp h
    rw [Word.mul, Word.reduce_eq_ok_iff, ha.dim, hb.dim, ← pow_add] at hn
    refine foldlM_zeros?_ne_ok (hn.2 ▸ dvd_two_pow_mod hjk) hzeros ?_ ha.square_ne_nil cells hcells
    intro x cells cells' h
    obtain ⟨factor, -, h⟩ := bind_eq_ok.mp h
    exact size_of_writeBlock? hb h

section Controlled

variable [One K]

omit [Build] in
theorem controlled_eq_ofFn (ha : a.OnQubits k) (count : Nat) {offset : Nat}
    (hoffset : offset + 2 ^ k = 2 ^ (count + k)) :
    a.controlled count = ofFn (2 ^ (count + k)) fun i j =>
      if offset ≤ i ∧ offset ≤ j then a.get (i - offset) (j - offset)
      else if i = j then 1 else 0 := by
  have hdim : a.dim <<< count = 2 ^ (count + k) := by
    rw [ha.dim, Nat.shiftLeft_eq, ← pow_add, Nat.add_comm]
  have hback : 2 ^ (count + k) - a.dim = offset := by
    rw [ha.dim]
    omega
  rw [GateMatrix.controlled]
  simp only [hdim, hback]

/-- **The two parts of a block matrix**: the ones before the last block, then the block. -/
theorem writeControlled_ofFn (ha : a.OnQubits k) {count offset : Nat} (hfew : count + k < 32)
    (hoffset : offset + 2 ^ k = 2 ^ (count + k)) : ∃ ones,
    writeDiagonal? (2 ^ (count + k)) (List.replicate offset (1 : K))
      (ofFn (2 ^ (count + k)) fun _ _ => 0).entries = .ok ones ∧
    (square a.dim).foldlM
      (fun cells (i, j) => do
        let entry ← a.read? i j
        write? (2 ^ (count + k)) cells (← Word.add offset i) (← Word.add offset j) entry)
      ones = .ok (a.controlled count).entries := by
  have hfit := two_pow_mul_self_lt hfew
  have hword : 2 ^ (count + k) < wordSize := two_pow_lt_wordSize_iff.mpr (by omega)
  let f (i j : Nat) : K :=
    if offset ≤ i ∧ offset ≤ j then a.get (i - offset) (j - offset) else if i = j then 1 else 0
  refine ⟨_, writeDiagonal?_ofFn hfit ?_ f (fun _ _ => 0) ?_, ?_⟩
  · rw [List.length_replicate]
    exact Nat.le.intro hoffset
  · intro i hi
    have hbefore : i < offset := by simpa using hi
    simp [f, Nat.not_le.mpr hbefore]
  · rw [controlled_eq_ofFn ha count hoffset]
    refine foldlM_covering f (fun x i j => offset + x.1 = i ∧ offset + x.2 = j) ?_ _ ?_
    · rintro ⟨p, q⟩ hmem g
      obtain ⟨hp, hq⟩ := mem_square.mp hmem
      have hinside : ∀ {r}, r < a.dim → offset + r < 2 ^ (count + k) := by
        intro r hr
        rw [ha.dim] at hr
        omega
      have hentry : f (offset + p) (offset + q) = a.get p q := by simp [f]
      have hwrite := write?_ofFn hfit (hinside hp) (hinside hq) f g
      rw [hentry] at hwrite
      simp only [ha.read? (by omega) hp hq, Word.add_of_lt ((hinside hp).trans hword),
        Word.add_of_lt ((hinside hq).trans hword)]
      exact hwrite
    · intro i hi j hj
      by_cases hblock : offset ≤ i ∧ offset ≤ j
      · refine .inr ⟨(i - offset, j - offset), mem_square.mpr ?_, by omega, by omega⟩
        rw [ha.dim]
        omega
      · refine .inl ?_
        by_cases hij : i = j
        · have hbefore : i < offset := by omega
          simp [hij, hij ▸ hbefore]
        · simp [f, hblock, hij]

/-- **Writing a block matrix gives the block matrix**, under as many controls as the word says. -/
theorem controlled?_eq_ok_iff (ha : a.OnQubits k) {count : Nat} {m : GateMatrix K} :
    a.controlled? count = .ok m ↔
      ((count < 64 ∨ Build.checks = false) ∧ count % 64 + k < 32) ∧
        a.controlled (count % 64) = m := by
  have hshift : ∀ c, a.dim <<< c = 2 ^ (c + k) := fun c => by
    rw [ha.dim, Nat.shiftLeft_eq, ← pow_add, Nat.add_comm]
  rw [controlled?, bind_eq_ok]
  simp only [Word.shiftLeft_eq_ok_iff, and_assoc, exists_and_left, exists_eq_left', hshift]
  refine and_congr_right fun _ => ?_
  generalize count % 64 = c
  by_cases hfew : c + k < 32
  · obtain ⟨offset, hoffset⟩ := exists_offset c k
    obtain ⟨ones, hones, hblock⟩ := writeControlled_ofFn ha hfew hoffset
    have hsub : Word.sub (2 ^ (c + k)) a.dim = .ok offset := by
      rw [ha.dim, Word.sub_of_le (by omega)]
      exact congrArg Except.ok (by omega)
    rw [Nat.mod_eq_of_lt (two_pow_lt_wordSize_iff.mpr (by omega))]
    simp only [bind, Except.bind, hsub, zeros?_of_lt (two_pow_mul_self_lt hfew), hones]
      at hblock ⊢
    rw [hblock]
    simp only [pure, Except.pure, hfew, true_and, Except.ok.injEq]
    rw [controlled_eq_ofFn ha c hoffset]
    exact Iff.rfl
  · simp only [hfew, false_and, iff_false]
    intro h
    obtain ⟨offset, -, h⟩ := bind_eq_ok.mp h
    obtain ⟨zeros, hzeros, h⟩ := bind_eq_ok.mp h
    obtain ⟨ones, hones, h⟩ := bind_eq_ok.mp h
    obtain ⟨cells, hcells, -⟩ := bind_eq_ok.mp h
    have hnone : ones.size = 0 :=
      (size_of_writeDiagonal? hones).trans (size_of_zeros? (dvd_two_pow_mod hfew) hzeros)
    refine absurd hnone (Nat.ne_of_gt ((size_of_foldlM_write ?_ hcells).1 ha.square_ne_nil))
    intro x cells cells' h
    obtain ⟨entry, -, h⟩ := bind_eq_ok.mp h
    obtain ⟨row, -, h⟩ := bind_eq_ok.mp h
    obtain ⟨col, -, h⟩ := bind_eq_ok.mp h
    exact size_of_write? h

end Controlled

end Whole

end Words

end CircuitBroker.GateMatrix
