/-
  CircuitBroker/Proofs/Service/Numbers.lean
  =========================================
  **Which texts are read as outcomes.**

  A sample is a number in base sixteen, a key of a histogram one in base ten.  Each may start
  with a plus sign, the sample after `0x`; but for that, samples and keys are read exactly if they
  are numbers of at most 128 bits.  A single text that is no number fails the whole decode, and
  samples that are all numbers are all counted (`decodes_numbers`).
-/
import CircuitBroker.Proofs.Counts.Occurrences
import CircuitBroker.Proofs.Service.Outcomes

namespace CircuitBroker

/-! ## 1. One text -/

namespace Sample

variable {text : String} {n : Nat}

/-- A text that spells a number in base sixteen, perhaps after `0x` and a plus sign. -/
def IsHexAfterPlus (text : String) (n : Nat) : Prop :=
  ∃ digits, (text.toList = digits ∨ text.toList = '0' :: 'x' :: digits) ∧
    Numeral.SpellsAfterPlus 16 digits n

/-- No number starts with the mark of its base. -/
theorem not_spellsAfterPlus_mark {digits : List Char} :
    ¬Numeral.SpellsAfterPlus 16 ('0' :: 'x' :: digits) n := by
  rintro (h | ⟨_, hplus, -⟩)
  · exact (Numeral.ne_of_mem_spells (le_refl 16) h 'x' (by simp)).2 rfl
  · cases hplus

/-- Without a plus sign only the plain numbers are left. -/
theorem isHexAfterPlus_iff_of_notMem (hplus : '+' ∉ text.toList) :
    IsHexAfterPlus text n ↔ IsHex text n := by
  constructor
  · rintro ⟨digits, htext | htext, h⟩
    · rw [← htext, Numeral.spellsAfterPlus_iff_of_notMem hplus] at h
      exact .inl h
    · rw [htext] at hplus
      have hdigits : '+' ∉ digits := fun hmem => hplus (by simp [hmem])
      exact .inr ⟨digits, htext, (Numeral.spellsAfterPlus_iff_of_notMem hdigits).mp h⟩
  · rintro (h | ⟨digits, htext, h⟩)
    · exact ⟨_, .inl rfl, .inl h⟩
    · exact ⟨digits, .inr htext, .inl h⟩

theorem read?_eq_some_iff {base : Nat} (hbase : base ≤ 16) :
    read? base text = some n ↔ Numeral.SpellsAfterPlus base text.toList n ∧ n < 2 ^ 128 := by
  rw [read?, Numeral.read?_eq_some_iff hbase, Nat.one_shiftLeft]

theorem readHex?_eq_some_iff : readHex? text = some n ↔ IsHexAfterPlus text n ∧ n < 2 ^ 128 := by
  unfold readHex?
  split
  · rename_i digits htext
    rw [read?_eq_some_iff (le_refl 16), String.toList_ofList]
    refine and_congr_left fun _ => ⟨fun h => ⟨digits, .inr htext, h⟩, ?_⟩
    rintro ⟨_, htext' | htext', h⟩
    · rw [← htext', htext] at h
      exact absurd h not_spellsAfterPlus_mark
    · rw [htext] at htext'
      cases htext'
      exact h
  · rename_i hmark
    rw [read?_eq_some_iff (le_refl 16)]
    refine and_congr_left fun _ => ⟨fun h => ⟨_, .inl rfl, h⟩, ?_⟩
    rintro ⟨digits, htext | htext, h⟩
    · rwa [htext]
    · exact absurd htext (hmark digits)

/-- A number of at most 128 bits is not cut off. -/
theorem bitstring_eq_of_lt (measured : List Nat) (hn : n < 2 ^ 128) :
    bitstring measured n = Simulator.bitstring measured n.testBit := by
  refine bitstring_eq_iff.mpr fun q _ => ?_
  by_cases hq : q < 128
  · simp [hq]
  · have hzero : n.testBit q = false :=
      Nat.testBit_lt_two_pow (hn.trans_le (Nat.pow_le_pow_right (by decide) (by omega)))
    simp [hq, hzero]

end Sample

def IsSample (text : String) : Prop := ∃ n < 2 ^ 128, Sample.IsHexAfterPlus text n

def IsHistogramKey (text : String) : Prop :=
  ∃ n < 2 ^ 128, Numeral.SpellsAfterPlus 10 text.toList n

theorem exists_readHex?_iff {text : String} :
    (∃ n, Sample.readHex? text = some n) ↔ IsSample text :=
  exists_congr fun _ => Sample.readHex?_eq_some_iff.trans and_comm

theorem exists_read?_iff {text : String} :
    (∃ n, Sample.read? 10 text = some n) ↔ IsHistogramKey text :=
  exists_congr fun _ => (Sample.read?_eq_some_iff (by decide)).trans and_comm

/-! ### Texts that are not read -/

section Unread

variable {ε : Type} {read? : String → Option Nat} {complaint : String → ε} {text : String}

def unread (read? : String → Option Nat) (complaint : String → ε) (text : String) : Option ε :=
  match read? text with
  | some _ => none
  | none => some (complaint text)

theorem unread_eq_none_iff : unread read? complaint text = none ↔ ∃ n, read? text = some n := by
  unfold unread
  cases read? text with
  | none => simp
  | some n => simp

theorem unread_eq_some_iff {fault : ε} :
    unread read? complaint text = some fault ↔
      (¬∃ n, read? text = some n) ∧ complaint text = fault := by
  unfold unread
  cases read? text with
  | none => simp
  | some n => simp

end Unread

/-! ## 2. Samples -/

section Samples

variable {samples : List String} {measured : List Nat}

theorem decodeSamples_settled (hne : samples ≠ []) :
    Settled (samples.findSome? (unread Sample.readHex? fun sample =>
      IbmFault.badResult ("sample '" ++ sample ++ "' is not hex")))
      (decodeSamples samples measured) := by
  unfold decodeSamples
  rw [if_neg (by simpa using hne)]
  refine foldlM_settled (fun sample _ counts => ?_) Counts.empty
  unfold unread
  cases Sample.readHex? sample with
  | none => rfl
  | some n => exact ⟨_, rfl⟩

/-- Samples are decoded exactly if there are some and all of them are numbers. -/
theorem exists_decodeSamples_iff :
    (∃ counts, decodeSamples samples measured = .ok counts) ↔
      samples ≠ [] ∧ ∀ s ∈ samples, IsSample s := by
  by_cases hne : samples = []
  · subst hne
    simp [decodeSamples]
  · rw [(decodeSamples_settled hne).ok_iff, List.findSome?_eq_none_iff]
    simp only [unread_eq_none_iff, exists_readHex?_iff, ne_eq, hne, not_false_eq_true, true_and]

/-- Samples that are not decoded are none at all, or one of them is named that is no number. -/
theorem decodeSamples_eq_error {fault : IbmFault}
    (h : decodeSamples samples measured = .error fault) :
    (samples = [] ∧ fault = .badResult "no samples") ∨
      ∃ s ∈ samples, ¬IsSample s ∧ fault = .badResult ("sample '" ++ s ++ "' is not hex") := by
  by_cases hne : samples = []
  · subst hne
    cases h
    exact .inl ⟨rfl, rfl⟩
  · rw [(decodeSamples_settled hne).error_iff] at h
    obtain ⟨s, hs, hfault⟩ := List.exists_of_findSome?_eq_some h
    obtain ⟨hbad, rfl⟩ := unread_eq_some_iff.mp hfault
    exact .inr ⟨s, hs, mt exists_readHex?_iff.mpr hbad, rfl⟩

/-- What is counted are the bitstrings of the numbers, one for each sample. -/
theorem decodeSamples_eq_ok {counts : Counts} (h : decodeSamples samples measured = .ok counts) :
    ∃ numbers, List.Forall₂ (fun s n => Sample.IsHexAfterPlus s n ∧ n < 2 ^ 128) samples numbers ∧
      counts = .ofPairs
        ((numbers.map fun n => Simulator.bitstring measured n.testBit).map
          fun bits => (bits, 1)) := by
  unfold decodeSamples at h
  split at h
  · cases h
  · obtain ⟨numbers, rfl, hnumbers⟩ := foldlM_forall₂
      (g := fun (counts : Counts) n => counts.insert (Simulator.bitstring measured n.testBit) 1)
      (P := fun s n => Sample.IsHexAfterPlus s n ∧ n < 2 ^ 128) (I := fun _ => True)
      (fun s _ counts counts' _ hstep => by
        cases hread : Sample.readHex? s with
        | none =>
          rw [hread] at hstep
          cases hstep
        | some n =>
          rw [hread] at hstep
          cases hstep
          obtain ⟨hspells, hlt⟩ := Sample.readHex?_eq_some_iff.mp hread
          exact ⟨n, by rw [Sample.bitstring_eq_of_lt measured hlt], ⟨hspells, hlt⟩, trivial⟩)
      trivial h
    refine ⟨numbers, hnumbers, ?_⟩
    rw [Counts.ofPairs, List.map_map, List.foldl_map]
    rfl

end Samples

/-! ## 3. Histograms -/

section Histogram

variable {R : Type} [Zero R] [Add R] (histogram : List (String × R)) (measured : List Nat)

/-- The weights that the numbers of a histogram leave of the measured qubits. -/
def histogramWeights : Except IonFault (List (String × R)) :=
  histogram.foldlM
    (fun weights (key, probability) =>
      match Sample.read? 10 key with
      | some n => .ok (Counts.addWeight (Sample.bitstring measured n) probability weights)
      | none => .error (.badKey key))
    []

theorem histogramWeights_settled :
    Settled (histogram.findSome? fun pair => unread (Sample.read? 10) IonFault.badKey pair.1)
      (histogramWeights histogram measured) := by
  refine foldlM_settled (fun pair _ weights => ?_) []
  unfold unread
  cases hread : Sample.read? 10 pair.1 with
  | none => simp only [Settled, hread]
  | some n =>
    simp only [Settled, hread]
    exact ⟨_, rfl⟩

variable [Mul R] [Div R] [Magnitude R] [Share R] (shots : Nat)

theorem decodeHistogram_eq : decodeHistogram histogram measured shots =
    histogramWeights histogram measured >>= fun weights =>
      match Counts.apportion weights shots with
      | some counts => .ok counts
      | none => .error .emptyHistogram := rfl

/-- Either a key is reported that is no number, or all are numbers. -/
theorem decodeHistogram_cases :
    (∃ pair ∈ histogram, ¬IsHistogramKey pair.1 ∧
      decodeHistogram histogram measured shots = .error (.badKey pair.1)) ∨
    ((∀ pair ∈ histogram, IsHistogramKey pair.1) ∧
      ∀ key, decodeHistogram histogram measured shots ≠ .error (.badKey key)) := by
  have hsettled := histogramWeights_settled histogram measured
  rw [decodeHistogram_eq]
  cases hfind : histogram.findSome? fun pair => unread (Sample.read? 10) IonFault.badKey pair.1 with
  | none =>
    refine .inr ⟨fun pair hpair => ?_, fun key hkey => ?_⟩
    · exact exists_read?_iff.mp
        (unread_eq_none_iff.mp (List.findSome?_eq_none_iff.mp hfind pair hpair))
    · obtain ⟨weights, hweights⟩ := hsettled.ok_iff.mpr hfind
      rw [hweights] at hkey
      change (match Counts.apportion weights shots with
        | some counts => Except.ok counts
        | none => .error IonFault.emptyHistogram) = .error (.badKey key) at hkey
      split at hkey <;> cases hkey
  | some fault =>
    obtain ⟨pair, hpair, hfault⟩ := List.exists_of_findSome?_eq_some hfind
    obtain ⟨hbad, rfl⟩ := unread_eq_some_iff.mp hfault
    refine .inl ⟨pair, hpair, mt exists_read?_iff.mpr hbad, ?_⟩
    rw [hsettled.error_iff.mpr hfind]
    rfl

/-- A bad key is reported exactly if there is one, and the one that is reported is bad. -/
theorem decodeHistogram_badKey :
    ((∃ key, decodeHistogram histogram measured shots = .error (.badKey key)) ↔
      ∃ pair ∈ histogram, ¬IsHistogramKey pair.1) ∧
    ∀ key, decodeHistogram histogram measured shots = .error (.badKey key) →
      ∃ pair ∈ histogram, pair.1 = key ∧ ¬IsHistogramKey key := by
  rcases decodeHistogram_cases histogram measured shots with
    ⟨pair, hpair, hbad, hdecode⟩ | ⟨hall, hnever⟩
  · rw [hdecode]
    refine ⟨⟨fun _ => ⟨pair, hpair, hbad⟩, fun _ => ⟨pair.1, rfl⟩⟩, ?_⟩
    intro key hkey
    cases hkey
    exact ⟨pair, hpair, rfl, hbad⟩
  · refine ⟨⟨?_, ?_⟩, fun key hkey => absurd hkey (hnever key)⟩
    · rintro ⟨key, hkey⟩
      exact absurd hkey (hnever key)
    · rintro ⟨pair, hpair, hbad⟩
      exact absurd (hall pair hpair) hbad

end Histogram

/-! ## 4. Numbers, and nothing else -/

/-- **What is decoded are numbers, and all of them.**  Samples are decoded exactly if there are
    some and each is a number of at most 128 bits; how often each bitstring of the measured qubits
    occurred among them is counted.  A key of a histogram is reported exactly if it is no such
    number.  Apart from the texts with a plus sign, a number is written with digits alone, after
    `0x` if it is a sample. -/
theorem decodes_numbers {R : Type} [Zero R] [Add R] [Mul R] [Div R] [Magnitude R] [Share R]
    (measured : List Nat) (shots : Nat) :
    (∀ samples,
      ((∃ counts, decodeSamples samples measured = .ok counts) ↔
        samples ≠ [] ∧ ∀ s ∈ samples, IsSample s) ∧
      (∀ fault, decodeSamples samples measured = .error fault →
        (samples = [] ∧ fault = .badResult "no samples") ∨
          ∃ s ∈ samples, ¬IsSample s ∧ fault = .badResult ("sample '" ++ s ++ "' is not hex")) ∧
      ∀ counts, decodeSamples samples measured = .ok counts → ∃ numbers,
        List.Forall₂ (fun s n => Sample.IsHexAfterPlus s n ∧ n < 2 ^ 128) samples numbers ∧
        (∀ bits, (counts.get bits).toNat =
          (numbers.map fun n => Simulator.bitstring measured n.testBit).count bits % 2 ^ 64) ∧
        (samples.length < 2 ^ 64 →
          counts.Tells (numbers.map fun n => Simulator.bitstring measured n.testBit) ∧
          counts.sum = samples.length)) ∧
    (∀ histogram : List (String × R),
      ((∃ key, decodeHistogram histogram measured shots = .error (.badKey key)) ↔
        ∃ pair ∈ histogram, ¬IsHistogramKey pair.1) ∧
      ∀ key, decodeHistogram histogram measured shots = .error (.badKey key) →
        ∃ pair ∈ histogram, pair.1 = key ∧ ¬IsHistogramKey key) ∧
    ∀ text : String, '+' ∉ text.toList →
      (IsSample text ↔ ∃ n < 2 ^ 128, Sample.IsHex text n) ∧
      (IsHistogramKey text ↔ ∃ n < 2 ^ 128, Numeral.Spells 10 text.toList n) := by
  refine ⟨fun samples => ⟨exists_decodeSamples_iff, fun _ => decodeSamples_eq_error, ?_⟩,
    fun histogram => decodeHistogram_badKey histogram measured shots, ?_⟩
  · intro counts hdecode
    obtain ⟨numbers, hnumbers, rfl⟩ := decodeSamples_eq_ok hdecode
    refine ⟨numbers, hnumbers, fun bits => ?_, fun hlt => ?_⟩
    · rw [Counts.toNat_get_ofPairs, Counts.unfolded_ones, Multiset.coe_count]
    · have hcard : (Counts.unfolded ((numbers.map fun n =>
          Simulator.bitstring measured n.testBit).map fun bits => (bits, 1))).card = samples.length := by
        rw [Counts.unfolded_ones, Multiset.coe_card, List.length_map, hnumbers.length_eq]
      have htells := Counts.tells_ofPairs (hcard.trans_lt hlt)
      refine ⟨?_, htells.sum.trans hcard⟩
      rwa [Counts.unfolded_ones] at htells
  · intro text hplus
    constructor
    · exact exists_congr fun n => and_congr_right fun _ =>
        Sample.isHexAfterPlus_iff_of_notMem hplus
    · exact exists_congr fun n => and_congr_right fun _ =>
        Numeral.spellsAfterPlus_iff_of_notMem hplus

theorem decodes_numbers_five :
    '+' ∉ "0x04".toList ∧ IsSample "0x04" ∧
      ∃ counts, decodeSamples ["0x04", "5", "+5"] [0, 2] = .ok counts ∧ counts.sum = 3 := by
  obtain ⟨hsamples, -, htexts⟩ := decodes_numbers (R := Float) [0, 2] 3
  obtain ⟨hok, -, hcounts⟩ := hsamples ["0x04", "5", "+5"]
  have hfour : Sample.IsHex "0x04" 4 := by
    refine .inr ⟨['0', '4'], rfl, [0, 4], by decide, by decide, ?_, rfl⟩
    exact .cons (.inl rfl) (.cons (.inl rfl) .nil)
  have hplus : '+' ∉ "0x04".toList := by decide
  have hsample : IsSample "0x04" := (htexts "0x04" hplus).1.mpr ⟨4, by decide, hfour⟩
  obtain ⟨counts, hdecode⟩ := hok.mpr ⟨by simp, by
    simp only [List.forall_mem_cons]
    exact ⟨hsample, exists_readHex?_iff.mp ⟨5, rfl⟩, exists_readHex?_iff.mp ⟨5, rfl⟩, by simp⟩⟩
  obtain ⟨numbers, -, -, htells⟩ := hcounts counts hdecode
  exact ⟨hplus, hsample, counts, hdecode, (htells (by decide)).2⟩

/-- A plus sign is no digit, in neither base, and still the texts are read. -/
theorem plus_decoded :
    (¬∃ n, Sample.IsHex "0x+1" n) ∧ decodeSamples ["0x+1"] [0] = .ok ⟨[("1", 1)]⟩ ∧
      (¬∃ n, Numeral.Spells 10 "+1".toList n) ∧
      ∃ counts, decodeHistogram [("+1", (1 : Float))] [0] 1 = .ok counts := by
  refine ⟨?_, rfl, ?_, ?_⟩
  · rintro ⟨n, h | ⟨digits, htext, h⟩⟩
    · exact Numeral.plus_notMem_of_spells (le_refl 16) h (by decide)
    · cases htext
      exact Numeral.plus_notMem_of_spells (le_refl 16) h (by decide)
  · rintro ⟨n, h⟩
    exact Numeral.plus_notMem_of_spells (by decide) h (by decide)
  · obtain ⟨counts, hcounts, -⟩ : ∃ counts, Counts.apportion [("1", (0 + 1 : Float))] 1 =
        some counts ∧ counts.Only "1" :=
      Counts.exists_apportion_single "1" (by decide) (by decide) (by decide)
    refine ⟨counts, ?_⟩
    change (match Counts.apportion [("1", (0 + 1 : Float))] 1 with
      | some counts => Except.ok counts
      | none => .error IonFault.emptyHistogram) = .ok counts
    rw [hcounts]

end CircuitBroker
