/-
  CircuitBroker/Proofs/Service/Outcomes.lean
  ==========================================
  **One outcome, one bitstring.**

  The services report an outcome in their own ways: as characters or numbers in a listed
  order of qubits, or as a number in base sixteen or ten whose bit `q` is the value of qubit
  `q`.  Each of them is decoded to the bitstring that the simulator gives the outcome.  A
  number of more than 128 bits is refused, never cut off.
-/
import CircuitBroker.Proofs.Counts
import CircuitBroker.Proofs.Simulation.Shots
import CircuitBroker.Proofs.Text.Numeral
import CircuitBroker.Proofs.Traversal
import CircuitBroker.Service.Braket
import CircuitBroker.Service.Ibm
import CircuitBroker.Service.Ion

namespace CircuitBroker

open Simulator

/-! ## 1. Counts of one bitstring -/

namespace Counts

/-- Whether a bitstring is the only one that came up. -/
def Only (c : Counts) (bits : String) : Prop := ∃ n, c = ⟨[(bits, n)]⟩

theorem Only.insert {c : Counts} {bits : String} (h : c.Only bits) (n : UInt64) :
    (c.insert bits n).Only bits := by
  obtain ⟨m, rfl⟩ := h
  exact ⟨m + n, by simp [Counts.insert, addEntry]⟩

theorem Only.foldl_insert {bits : String} {pairs : List (String × UInt64)}
    (h : ∀ pair ∈ pairs, pair.1 = bits) {c : Counts} (hc : c.Only bits) :
    (pairs.foldl (fun c (bits, n) => c.insert bits n) c).Only bits := by
  induction pairs generalizing c with
  | nil => exact hc
  | cons pair pairs ih =>
    obtain ⟨rfl, hpairs⟩ := List.forall_mem_cons.mp h
    exact ih hpairs (hc.insert pair.2)

/-- Pairs that all have one bitstring, at least one of them. -/
theorem only_ofPairs {bits : String} {pairs : List (String × UInt64)} (hne : pairs ≠ [])
    (h : ∀ pair ∈ pairs, pair.1 = bits) : (ofPairs pairs).Only bits := by
  cases pairs with
  | nil => exact absurd rfl hne
  | cons pair pairs =>
    obtain ⟨rfl, hpairs⟩ := List.forall_mem_cons.mp h
    exact Only.foldl_insert hpairs ⟨pair.2, rfl⟩

variable {R : Type} [Zero R] [Add R] [Mul R] [Div R] [Magnitude R] [Share R]

/-- A single weight takes all shots, as long as it counts as positive and finite. -/
theorem exists_apportion_single (bits : String) {weight : R} {shots : Nat} (hshots : 0 < shots)
    (hfinite : Magnitude.isFinite (0 + Magnitude.max weight 0) = true)
    (hpositive : Magnitude.le (0 + Magnitude.max weight 0) 0 = false) :
    ∃ counts, apportion [(bits, weight)] shots = some counts ∧ counts.Only bits := by
  unfold apportion
  simp only [List.map_cons, List.map_nil, List.foldl_cons, List.foldl_nil, hfinite, hpositive,
    List.mergeSort_singleton, List.zipIdx_cons, List.zipIdx_nil]
  generalize Share.floor (R := R) _ = whole
  -- what the rounding loses is left over, and there is no other outcome to take it
  have hcount : 0 < if 0 < shots - (0 + whole) then whole + 1 else whole := by split <;> omega
  refine ⟨_, rfl, only_ofPairs ?_ ?_⟩
  · simpa using hcount.ne'
  · simp

end Counts

/-! ## 2. Outcomes as numbers -/

/-- The number whose bit `q` is the value of qubit `q`. -/
def Sample.number (n : Nat) (f : Nat → Bool) : Nat := ∑ q ∈ Finset.range n, (f q).toNat * 2 ^ q

namespace Sample

variable {n : Nat} {f : Nat → Bool} {measured : List Nat}

theorem number_lt (n : Nat) (f : Nat → Bool) : number n f < 2 ^ n := by
  induction n with
  | zero => simp [number]
  | succ n ih =>
    rw [number, Finset.sum_range_succ, ← number, pow_succ]
    have := Bool.toNat_le (f n)
    nlinarith [Nat.two_pow_pos n]

theorem testBit_number {q : Nat} (hq : q < n) : (number n f).testBit q = f q := by
  induction n with
  | zero => omega
  | succ n ih =>
    rw [number, Finset.sum_range_succ, ← number, Nat.add_comm, Nat.mul_comm,
      Nat.testBit_two_pow_mul_add _ (number_lt n f)]
    rcases Nat.lt_or_eq_of_le (Nat.le_of_lt_succ hq) with hlt | rfl
    · rw [if_pos hlt, ih hlt]
    · rw [if_neg (Nat.lt_irrefl _), Nat.sub_self, Nat.testBit_zero]
      cases f q <;> rfl

/-- A number that fits into 128 bits has lost none of the measured ones. -/
theorem bitstring_number (hlt : ∀ q ∈ measured, q < n) (hfits : number n f < 2 ^ 128) :
    bitstring measured (number n f) = Simulator.bitstring measured f := by
  refine bitstring_eq_iff.mpr fun q hq => ?_
  rw [testBit_number (hlt q hq)]
  by_cases hq128 : q < 128
  · simp [hq128]
  · have hzero : (number n f).testBit q = false :=
      Nat.testBit_lt_two_pow (hfits.trans_le (Nat.pow_le_pow_right (by decide) (by omega)))
    rw [testBit_number (hlt q hq)] at hzero
    simp [hzero]

/-- A text that spells a number in base sixteen, perhaps after `0x`. -/
def IsHex (text : String) (number : Nat) : Prop :=
  Numeral.Spells 16 text.toList number ∨
    ∃ digits, text.toList = '0' :: 'x' :: digits ∧ Numeral.Spells 16 digits number

theorem read?_of_spells {base number : Nat} {text : String} (hbase : base ≤ 16)
    (h : Numeral.Spells base text.toList number) :
    read? base text = if number < 2 ^ 128 then some number else none := by
  rw [read?, Numeral.read?_of_spells hbase h, Nat.one_shiftLeft]

theorem readHex?_of_isHex {text : String} {number : Nat} (h : IsHex text number) :
    readHex? text = if number < 2 ^ 128 then some number else none := by
  unfold readHex?
  rcases h with h | ⟨digits, htext, h⟩
  · split
    · rename_i htext
      rw [htext] at h
      exact absurd rfl (Numeral.ne_of_mem_spells (le_refl 16) h 'x' (by simp)).2
    · exact read?_of_spells (le_refl 16) h
  · rw [htext]
    exact read?_of_spells (le_refl 16) (by rwa [String.toList_ofList])

end Sample

/-! ## 3. Outcomes in a listed order -/

namespace BraketResult

variable {f : Nat → Bool} {order measured : List Nat}

theorem onesOf_bitstring (order : List Nat) (f : Nat → Bool) :
    onesOf (Simulator.bitstring order f) = order.map f := by
  rw [onesOf, Simulator.bitstring, String.toList_ofList, List.flatMap_map]
  induction order with
  | nil => rfl
  | cons q order ih =>
    rw [List.flatMap_cons, ih, List.map_cons]
    cases f q <;> rfl

theorem getElem?_of_position {q p : Nat} (h : position order q = .ok p) : order[p]? = some q := by
  unfold position at h
  split at h
  · rename_i hidx
    cases h
    obtain ⟨hp, hq, -⟩ := List.idxOf?_eq_some_iff.mp hidx
    rw [List.getElem?_eq_getElem hp, hq]
  · cases h

theorem exists_position {q : Nat} (hq : q ∈ order) : ∃ p, position order q = .ok p := by
  unfold position
  split
  · exact ⟨_, rfl⟩
  · rename_i hidx
    exact absurd hq (List.idxOf?_eq_none_iff.mp hidx)

/-- Measured qubits that are all listed are found, and what stands at their positions are
    their values. -/
theorem exists_positions (hlisted : measured ⊆ order) (f : Nat → Bool) :
    ∃ positions, measured.mapM (position order) = .ok positions ∧
      select positions (order.map f) = Simulator.bitstring measured f := by
  obtain ⟨positions, hpositions⟩ := exists_mapM_ok fun q hq => exists_position (hlisted hq)
  refine ⟨positions, hpositions, ?_⟩
  rw [select, Simulator.bitstring, String.ofList_inj]
  replace hpositions := mapM_eq_ok_iff.mp hpositions
  clear hlisted
  induction hpositions with
  | nil => rfl
  | cons hposition _ ih =>
    rw [List.map_cons, List.map_cons, ih, List.getD_eq_getElem?_getD, List.getElem?_map,
      getElem?_of_position hposition]
    rfl

/-- A result that tells of one outcome and nothing else, its values in some order: as a key
    of counts, as measurements, or as what is certain. -/
inductive Reports {R : Type} [One R] (result : BraketResult R) (order : List Nat)
    (f : Nat → Bool) : Prop
  | counts {n : UInt64} (hpositive : n ≠ 0)
      (h : result.counts = some [(Simulator.bitstring order f, n)])
  | measurements {rows : List (List Nat)} (hnone : result.counts = none) (hne : rows ≠ [])
      (hrows : ∀ row ∈ rows, row = order.map fun q => (f q).toNat)
      (h : result.measurements = some rows)
  | probabilities (hnone : result.counts = none) (hnone' : result.measurements = none)
      (h : result.probabilities = some [(Simulator.bitstring order f, 1)])

/-- A result that reports one outcome is decoded to its bitstring. -/
theorem exists_decode [Build] {R : Type}
    [Zero R] [One R] [Add R] [Mul R] [Div R] [Magnitude R] [Share R]
    {result : BraketResult R} {shots : Nat} (hlisted : measured ⊆ order)
    (horder : result.measuredQubits.getD measured = order) (hreports : result.Reports order f)
    (hshots : 0 < shots) (hfinite : Magnitude.isFinite (0 + Magnitude.max (0 + 1 : R) 0) = true)
    (hpositive : Magnitude.le (0 + Magnitude.max (0 + 1 : R) 0) 0 = false) :
    ∃ counts, result.decode measured shots = .ok counts ∧
      counts.Only (Simulator.bitstring measured f) := by
  obtain ⟨positions, hpositions, hselect⟩ := exists_positions hlisted f
  simp only [decode, horder, hpositions, bind, Except.bind]
  cases hreports with
  | @counts n hn h =>
    have hfits : Counts.reported [(Simulator.bitstring measured f, n)] < 2 ^ 64 := n.toNat_lt
    obtain ⟨hpairs, htotal⟩ := Counts.total?_ofPairs?_of_fits (.inl hfits)
    simp only [h, List.map_cons, List.map_nil, onesOf_bitstring, hselect, hpairs, htotal,
      Except.mapError]
    rw [if_neg (by simpa [Counts.ofPairs, Counts.total, Counts.insert, Counts.addEntry, Counts.empty]
      using hn)]
    exact ⟨_, rfl, n, rfl⟩
  | @measurements rows hnone hne hrows h =>
    have hones : ∀ row ∈ rows, select positions (row.map (· == 1)) =
        Simulator.bitstring measured f := by
      intro row hrow
      rw [hrows row hrow, List.map_map, ← hselect]
      refine congrArg (select positions) (List.map_congr_left fun q _ => ?_)
      rw [Function.comp_apply]
      cases f q <;> rfl
    simp only [hnone, h]
    rw [if_neg (by simpa using hne)]
    refine ⟨_, rfl, Counts.only_ofPairs (by simpa using hne) ?_⟩
    simpa using hones
  | probabilities hnone hnone' h =>
    obtain ⟨counts, happortion, honly⟩ := Counts.exists_apportion_single
      (Simulator.bitstring measured f) hshots hfinite hpositive
    simp only [hnone, hnone', h, List.foldl_cons, List.foldl_nil, onesOf_bitstring, hselect,
      Counts.addWeight, happortion]
    exact ⟨counts, rfl, honly⟩

end BraketResult

/-! ## 4. Every way gives the same bitstring -/

section Numbers

variable {n : Nat} {f : Nat → Bool} {measured : List Nat}

/-- Samples of one number, at least one of them, are counted under its bitstring, unless the
    number is too large. -/
theorem decodeSamples_number {samples : List String} (hlt : ∀ q ∈ measured, q < n)
    (hne : samples ≠ []) (hsamples : ∀ s ∈ samples, Sample.IsHex s (Sample.number n f)) :
    (Sample.number n f < 2 ^ 128 → ∃ counts, decodeSamples samples measured = .ok counts ∧
      counts.Only (bitstring measured f)) ∧
    (2 ^ 128 ≤ Sample.number n f → ∃ e, decodeSamples samples measured = .error e) := by
  have hread := fun s hs => Sample.readHex?_of_isHex (hsamples s hs)
  unfold decodeSamples
  rw [if_neg (by simpa using hne)]
  cases samples with
  | nil => exact absurd rfl hne
  | cons sample samples =>
    obtain ⟨hsample, hrest⟩ := List.forall_mem_cons.mp hread
    rw [List.foldlM_cons, hsample]
    constructor
    · intro hfits
      simp only [if_pos hfits, Sample.bitstring_number hlt hfits] at hrest ⊢
      refine exists_foldlM_invariant (I := fun c : Counts => c.Only (bitstring measured f)) ?_
        ⟨1, rfl⟩
      intro s hs counts honly
      rw [hrest s hs]
      exact ⟨_, rfl, Sample.bitstring_number hlt hfits ▸ honly.insert 1⟩
    · intro hlarge
      rw [if_neg (Nat.not_lt.mpr hlarge)]
      exact ⟨_, rfl⟩

/-- The certain number of a histogram is decoded to its bitstring, unless it is too large. -/
theorem decodeHistogram_number {R : Type} [Zero R] [One R] [Add R] [Mul R] [Div R] [Magnitude R]
    [Share R] {text : String} {shots : Nat} (hlt : ∀ q ∈ measured, q < n)
    (htext : Numeral.Spells 10 text.toList (Sample.number n f)) (hshots : 0 < shots)
    (hfinite : Magnitude.isFinite (0 + Magnitude.max (0 + 1 : R) 0) = true)
    (hpositive : Magnitude.le (0 + Magnitude.max (0 + 1 : R) 0) 0 = false) :
    (Sample.number n f < 2 ^ 128 →
      ∃ counts, decodeHistogram [(text, (1 : R))] measured shots = .ok counts ∧
        counts.Only (bitstring measured f)) ∧
    (2 ^ 128 ≤ Sample.number n f →
      ∃ e, decodeHistogram [(text, (1 : R))] measured shots = .error e) := by
  have hread := Sample.read?_of_spells (by decide : 10 ≤ 16) htext
  constructor
  · intro hfits
    obtain ⟨counts, happortion, honly⟩ := Counts.exists_apportion_single
      (bitstring measured f) hshots hfinite hpositive
    rw [if_pos hfits] at hread
    simp only [decodeHistogram, List.foldlM_cons, List.foldlM_nil, hread,
      Sample.bitstring_number hlt hfits, Counts.addWeight, bind, Except.bind, pure, Except.pure,
      happortion]
    exact ⟨counts, rfl, honly⟩
  · intro hlarge
    rw [if_neg (Nat.not_lt.mpr hlarge)] at hread
    simp only [decodeHistogram, List.foldlM_cons, hread]
    exact ⟨_, rfl⟩

/-- What is decoded wherever a number fits and refused elsewhere is decoded whenever it has
    few enough bits, and never to anything else. -/
theorem decoded_of_fits {ε : Type} {decoded : Except ε Counts} {bits : String}
    (hfits : Sample.number n f < 2 ^ 128 → ∃ counts, decoded = .ok counts ∧ counts.Only bits)
    (hlarge : 2 ^ 128 ≤ Sample.number n f → ∃ e, decoded = .error e) :
    (n ≤ 128 → ∃ counts, decoded = .ok counts) ∧
      ∀ counts, decoded = .ok counts → counts.Only bits := by
  constructor
  · intro hn
    obtain ⟨counts, hcounts, -⟩ := hfits
      ((Sample.number_lt n f).trans_le (Nat.pow_le_pow_right (by decide) hn))
    exact ⟨counts, hcounts⟩
  · intro counts hcounts
    rcases Nat.lt_or_ge (Sample.number n f) (2 ^ 128) with hnumber | hnumber
    · obtain ⟨counts', hcounts', honly⟩ := hfits hnumber
      rw [hcounts] at hcounts'
      cases hcounts'
      exact honly
    · obtain ⟨e, he⟩ := hlarge hnumber
      rw [hcounts] at he
      cases he

/-- **One outcome, one bitstring.**  The bitstring of an outcome at the measured qubits is
    what every result that reports the outcome is decoded to. -/
theorem outcome_decoded [Build] {shots : Nat} (hlt : ∀ q ∈ measured, q < n) (hshots : 0 < shots) :
    (∀ order, measured ⊆ order → ∀ result : BraketResult Float,
      result.measuredQubits.getD measured = order → result.Reports order f →
      ∃ counts, result.decode measured shots = .ok counts ∧
        counts.Only (bitstring measured f)) ∧
    (∀ samples, samples ≠ [] → (∀ s ∈ samples, Sample.IsHex s (Sample.number n f)) →
      (n ≤ 128 → ∃ counts, decodeSamples samples measured = .ok counts) ∧
      ∀ counts, decodeSamples samples measured = .ok counts →
        counts.Only (bitstring measured f)) ∧
    (∀ text, Numeral.Spells 10 text.toList (Sample.number n f) →
      (n ≤ 128 → ∃ counts, decodeHistogram [(text, (1 : Float))] measured shots = .ok counts) ∧
      ∀ counts, decodeHistogram [(text, (1 : Float))] measured shots = .ok counts →
        counts.Only (bitstring measured f)) := by
  refine ⟨?_, ?_, ?_⟩
  · intro order hlisted result horder hreports
    exact BraketResult.exists_decode hlisted horder hreports hshots (by decide) (by decide)
  · intro samples hne hsamples
    obtain ⟨hfits, hlarge⟩ := decodeSamples_number hlt hne hsamples
    exact decoded_of_fits hfits hlarge
  · intro text htext
    obtain ⟨hfits, hlarge⟩ :=
      decodeHistogram_number (R := Float) hlt htext hshots (by decide) (by decide)
    exact decoded_of_fits hfits hlarge

end Numbers

/-- Three qubits, of which only the last is one. -/
theorem outcome_decoded_last :
    (∀ q ∈ [0, 2], q < 3) ∧
      (∃ counts, (⟨some [("100", 7)], none, none, some [2, 0, 1]⟩ : BraketResult Float).decode
        [0, 2] 10 = .ok counts ∧ counts.Only "01") ∧
      (∃ counts, decodeSamples ["0x04", "4"] [0, 2] = .ok counts ∧ counts.Only "01") ∧
      ∃ counts, decodeHistogram [("4", (1 : Float))] [0, 2] 10 = .ok counts ∧
        counts.Only "01" := by
  have hlt : ∀ q ∈ [0, 2], q < 3 := by decide
  have hbits : bitstring [0, 2] (· == 2) = "01" := rfl
  have hnumber : Sample.number 3 (· == 2) = 4 := by decide
  have hshots : 1 ≤ 10 := by decide
  obtain ⟨hlisted, hsamples, hhistogram⟩ := outcome_decoded (f := (· == 2)) hlt hshots
  rw [hbits] at hlisted hsamples hhistogram
  rw [hnumber] at hsamples hhistogram
  have hfour : ∀ base zeros, 4 < base → base ≤ 16 →
      Numeral.Spells base (List.replicate zeros '0' ++ ['4']) 4 := by
    intro base zeros hlow hhigh
    have := Numeral.spells_digits (n := 4) (by omega : 1 < base) hhigh zeros (.inr (by decide))
    rwa [Nat.digits_of_lt base 4 (by decide) hlow] at this
  refine ⟨hlt, hlisted [2, 0, 1] (by decide) _ rfl (.counts (n := 7) (by decide) rfl), ?_, ?_⟩
  · obtain ⟨hfits, honly⟩ := hsamples ["0x04", "4"] (by decide) (by
      simp only [List.forall_mem_cons]
      exact ⟨.inr ⟨_, rfl, hfour 16 1 (by decide) (by decide)⟩,
        .inl (hfour 16 0 (by decide) (by decide)), by simp⟩)
    obtain ⟨counts, hcounts⟩ := hfits (by decide)
    exact ⟨counts, hcounts, honly counts hcounts⟩
  · obtain ⟨hfits, honly⟩ := hhistogram "4" (hfour 10 0 (by decide) (by decide))
    obtain ⟨counts, hcounts⟩ := hfits (by decide)
    exact ⟨counts, hcounts, honly counts hcounts⟩

end CircuitBroker
