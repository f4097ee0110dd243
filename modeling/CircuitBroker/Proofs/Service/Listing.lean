/-
  CircuitBroker/Proofs/Service/Listing.lean
  =========================================
  **What a Braket result tells, and how it is listed.**

  A result tells of outcomes, each of which has a value at every qubit, and lists these values
  in some order of the qubits (`Told.listed`).  The order does not matter (`decode_listed`), nor
  does it matter whether the outcomes are counted or listed one by one: the counts tell how often
  each bitstring of the measured qubits occurred, as long as there are fewer outcomes than a word
  has values.

  An outcome that is too short, too long, or made of something else than zeros and ones is not
  refused.  It is read as the outcome with zeros wherever there is no one (`decode_tidied`).
-/
import CircuitBroker.Proofs.Counts.Occurrences
import CircuitBroker.Proofs.Execution.Completeness
import CircuitBroker.Proofs.Service.Outcomes

namespace CircuitBroker.BraketResult

open Simulator

variable {R α β : Type}

/-! ## 1. What a result tells -/

/-- Outcomes in the three ways of a result: counted, with probabilities, and one by one. -/
structure Told (R α : Type) where
  counts : Option (List (α × UInt64))
  probabilities : Option (List (α × R))
  measurements : Option (List α)

namespace Told

def map (f : α → β) (told : Told R α) : Told R β where
  counts := told.counts.map fun numbers => numbers.map fun (a, n) => (f a, n)
  probabilities := told.probabilities.map fun weights => weights.map fun (a, w) => (f a, w)
  measurements := told.measurements.map fun rows => rows.map f

/-- The outcomes a decode goes by, each as often as it occurs: those that are counted if there
    are any counts, and else those that are listed one by one. -/
inductive Tells (told : Told R α) (outcomes : Multiset α) : Prop
  | counts {numbers : List (α × UInt64)} (h : told.counts = some numbers)
      (hall : Counts.unfolded numbers = outcomes)
  | measurements {rows : List α} (hnone : told.counts = none)
      (h : told.measurements = some rows) (hall : (rows : Multiset α) = outcomes)

theorem Tells.map {told : Told R α} {outcomes : Multiset α} (h : told.Tells outcomes) (f : α → β) :
    (told.map f).Tells (outcomes.map f) := by
  cases h with
  | counts h hall =>
    refine .counts (congrArg (Option.map _) h) ?_
    rw [Counts.unfolded_map, hall]
  | measurements hnone h hall =>
    refine .measurements (congrArg (Option.map _) hnone) (congrArg (Option.map _) h) ?_
    rw [← hall, Multiset.map_coe]

/-- The result that tells of outcomes, which have a value at every qubit, in an order of the
    qubits. -/
def listed (told : Told R (Nat → Bool)) (order : List Nat) : BraketResult R where
  counts := (told.map (bitstring order)).counts
  probabilities := (told.map (bitstring order)).probabilities
  measurements := (told.map fun f => order.map fun q => (f q).toNat).measurements
  measuredQubits := some order

section Decode

variable [Build] [Zero R] [Add R] [Mul R] [Div R] [Magnitude R] [Share R] {told : Told R String}
  {seen : Multiset String} {shots : Nat}

def decode (told : Told R String) (shots : Nat) : Except BraketFault Counts :=
  match told.counts, told.measurements, told.probabilities with
  | some pairs, _, _ => counted pairs
  | none, some rows, _ =>
    if rows = [] then .error (.badResult "measurements are empty")
    else .ok (.ofPairs (rows.map fun row => (row, 1)))
  | none, none, some weights =>
    match Counts.apportion
        (weights.foldl (fun weights (bits, w) => Counts.addWeight bits w weights) []) shots with
    | some counts => .ok counts
    | none => .error (.badResult "measurement probabilities sum to zero")
  | none, none, none =>
    .error (.badResult "result has no counts, measurements or probabilities")

theorem decode_of_counts {pairs : List (String × UInt64)} (h : told.counts = some pairs) :
    told.decode shots =
      if Build.checks = true ∧ 2 ^ 64 ≤ (Counts.unfolded pairs).card then
        .error (.machine .overflow)
      else if 2 ^ 64 ∣ (Counts.unfolded pairs).card then
        .error (.badResult "measurement counts are empty")
      else .ok (.ofPairs pairs) := by
  rw [Counts.card_unfolded, ← counted_eq]
  simp only [decode, h]

theorem decode_of_measurements {rows : List String} (hnone : told.counts = none)
    (h : told.measurements = some rows) :
    told.decode shots = if rows = [] then .error (.badResult "measurements are empty")
      else .ok (.ofPairs (rows.map fun row => (row, 1))) := by
  simp only [decode, hnone, h]

/-- Whatever is decoded counts every bitstring, up to whole words. -/
theorem Tells.toNat_get {counts : Counts} (h : told.Tells seen)
    (hdecode : told.decode shots = .ok counts) (bits : String) :
    (counts.get bits).toNat = seen.count bits % 2 ^ 64 := by
  cases h with
  | counts h hall =>
    rw [decode_of_counts h] at hdecode
    split_ifs at hdecode
    cases hdecode
    rw [Counts.toNat_get_ofPairs, hall]
  | measurements hnone h hall =>
    rw [decode_of_measurements hnone h] at hdecode
    split at hdecode
    · cases hdecode
    · cases hdecode
      rw [Counts.toNat_get_ofPairs, Counts.unfolded_ones, hall]

/-- Some outcomes, but not so many that they do not fit into a word, are all counted. -/
theorem Tells.exists_decode (h : told.Tells seen) (hne : seen ≠ 0) (hlt : seen.card < 2 ^ 64)
    (shots : Nat) : ∃ counts, told.decode shots = .ok counts ∧ counts.Tells seen := by
  cases h with
  | @counts pairs h hall =>
    have hdvd : ¬2 ^ 64 ∣ (Counts.unfolded pairs).card := by
      rw [hall]
      exact fun hdvd => hne (Multiset.card_eq_zero.mp (Nat.eq_zero_of_dvd_of_lt hdvd hlt))
    have hfits : ¬(Build.checks = true ∧ 2 ^ 64 ≤ (Counts.unfolded pairs).card) := by
      rw [hall]
      exact fun hlarge => Nat.not_lt.mpr hlarge.2 hlt
    refine ⟨_, (decode_of_counts h).trans ((if_neg hfits).trans (if_neg hdvd)), ?_⟩
    rw [← hall] at hlt ⊢
    exact Counts.tells_ofPairs hlt
  | @measurements rows hnone h hall =>
    have hrows : rows ≠ [] := by
      rintro rfl
      exact hne hall.symm
    refine ⟨_, (decode_of_measurements hnone h).trans (if_neg hrows), ?_⟩
    rw [← hall, ← Counts.unfolded_ones] at hlt ⊢
    exact Counts.tells_ofPairs hlt

end Decode

end Told

/-! ## 2. What stands at the measured qubits -/

def shownAt (result : BraketResult R) (positions : List Nat) : Told R String where
  counts := result.counts.map (rekeyed positions)
  probabilities := result.probabilities.map fun weights =>
    weights.map fun (key, w) => (select positions (onesOf key), w)
  measurements := result.measurements.map fun rows =>
    rows.map fun row => select positions (row.map (· == 1))

theorem shownAt_listed {told : Told R (Nat → Bool)} {order measured positions : List Nat}
    (hselect : ∀ f, select positions (order.map f) = bitstring measured f) :
    (told.listed order).shownAt positions = told.map (bitstring measured) := by
  have hkey : ∀ f, select positions (onesOf (bitstring order f)) = bitstring measured f := by
    intro f
    rw [onesOf_bitstring, hselect]
  have hrow : ∀ f : Nat → Bool, select positions ((order.map fun q => (f q).toNat).map (· == 1)) =
      bitstring measured f := by
    intro f
    rw [← hselect, List.map_map]
    refine congrArg (select positions) (List.map_congr_left fun q _ => ?_)
    rw [Function.comp_apply]
    cases f q <;> rfl
  simp only [shownAt, Told.listed, Told.map, rekeyed, Option.map_map, Function.comp_def,
    List.map_map (f := fun f : Nat → Bool => order.map fun q => (f q).toNat), hrow]
  simp only [List.map_map, Function.comp_def, hkey]

section Decode

variable [Build] [Zero R] [Add R] [Mul R] [Div R] [Magnitude R] [Share R]

/-- A decode finds the measured qubits, and after that sees only what stands there. -/
theorem decode_eq_shownAt (result : BraketResult R) (measured : List Nat) (shots : Nat) :
    result.decode measured shots =
      measured.mapM (position (result.measuredQubits.getD measured)) >>= fun positions =>
        (result.shownAt positions).decode shots := by
  unfold decode
  refine congrArg (_ >>= ·) (funext fun positions => ?_)
  rcases result with ⟨_ | pairs, weights, rows, order⟩
  · cases rows with
    | some rows =>
      simp only [shownAt, Told.decode, Option.map_none, Option.map_some, List.map_map,
        List.map_eq_nil_iff, List.isEmpty_iff]
      rfl
    | none =>
      cases weights with
      | some weights =>
        simp only [shownAt, Told.decode, Option.map_none, Option.map_some, List.foldl_map]
        generalize Counts.apportion (R := R) _ shots = outcome
        cases outcome with
        | none => rfl
        | some counts => rfl
      | none => rfl
  · rfl

/-- Where measured qubits are not listed, one of them is reported. -/
theorem decode_of_missing {result : BraketResult R} {order measured : List Nat}
    (horder : result.measuredQubits = some order) (hmissing : ¬measured ⊆ order) (shots : Nat) :
    ∃ q ∈ measured, q ∉ order ∧ result.decode measured shots =
      .error (.badResult ("qubit " ++ toString q ++ " was not measured")) := by
  cases hpositions : measured.mapM (position order) with
  | ok positions =>
    refine absurd (fun q hq => ?_) hmissing
    obtain ⟨p, hp⟩ := exists_of_mapM_eq_ok hpositions q hq
    exact List.mem_of_getElem? (getElem?_of_position hp)
  | error fault =>
    obtain ⟨q, hq, hfault⟩ := exists_of_mapM_eq_error hpositions
    refine ⟨q, hq, ?_⟩
    rw [decode_eq_shownAt, horder, Option.getD_some, hpositions]
    unfold position at hfault
    split at hfault
    · cases hfault
    · rename_i hidx
      cases hfault
      exact ⟨List.idxOf?_eq_none_iff.mp hidx, rfl⟩

/-- What is decoded is what the result tells of the measured qubits, in whatever order it
    lists the qubits. -/
theorem decode_listed_eq (told : Told R (Nat → Bool)) {order measured : List Nat}
    (hlisted : measured ⊆ order) (shots : Nat) :
    (told.listed order).decode measured shots = (told.map (bitstring measured)).decode shots := by
  obtain ⟨positions, hpositions, -⟩ := exists_positions hlisted fun _ => false
  have hselect : ∀ f, select positions (order.map f) = bitstring measured f := by
    intro f
    obtain ⟨positions', hpositions', hselect⟩ := exists_positions hlisted f
    cases hpositions.symm.trans hpositions'
    exact hselect
  have horder : (told.listed order).measuredQubits.getD measured = order := rfl
  rw [decode_eq_shownAt, horder, hpositions]
  exact congrArg (Told.decode · shots) (shownAt_listed hselect)

end Decode

/-! ## 3. Outcomes as they should be -/

/-- One character for each of `n` qubits, a zero or a one. -/
def IsTidyKey (n : Nat) (key : String) : Prop :=
  key.toList.length = n ∧ ∀ c ∈ key.toList, c = '0' ∨ c = '1'

def IsTidyRow (n : Nat) (row : List Nat) : Prop :=
  row.length = n ∧ ∀ v ∈ row, v = 0 ∨ v = 1

structure IsTidy (result : BraketResult R) (n : Nat) : Prop where
  counts : ∀ pairs, result.counts = some pairs → ∀ pair ∈ pairs, IsTidyKey n pair.1
  probabilities : ∀ weights, result.probabilities = some weights →
    ∀ pair ∈ weights, IsTidyKey n pair.1
  measurements : ∀ rows, result.measurements = some rows → ∀ row ∈ rows, IsTidyRow n row

/-- A key cut off after `n` characters, or continued with zeros up to them, in which
    everything but a one has become a zero. -/
def tidyKey (n : Nat) (key : String) : String := select (List.range n) (onesOf key)

def tidyKeys (n : Nat) (pairs : List (String × α)) : List (String × α) :=
  pairs.map fun (key, a) => (tidyKey n key, a)

def tidyRow (n : Nat) (row : List Nat) : List Nat :=
  (List.range n).map fun p => ((row.map (· == 1)).getD p false).toNat

def tidied (result : BraketResult R) (n : Nat) : BraketResult R where
  counts := result.counts.map (tidyKeys n)
  probabilities := result.probabilities.map (tidyKeys n)
  measurements := result.measurements.map fun rows => rows.map (tidyRow n)
  measuredQubits := result.measuredQubits

section Tidy

variable {n : Nat} {positions : List Nat}

theorem isTidyKey_tidyKey (n : Nat) (key : String) : IsTidyKey n (tidyKey n key) := by
  rw [IsTidyKey, tidyKey, select, String.toList_ofList]
  constructor
  · rw [List.length_map, List.length_range]
  · intro c hc
    obtain ⟨p, -, rfl⟩ := List.mem_map.mp hc
    cases (onesOf key).getD p false with
    | false => exact .inl rfl
    | true => exact .inr rfl

theorem isTidyKey_of_mem_tidyKeys {pairs : List (String × α)} {pair : String × α}
    (h : pair ∈ tidyKeys n pairs) : IsTidyKey n pair.1 := by
  obtain ⟨pair, -, rfl⟩ := List.mem_map.mp h
  exact isTidyKey_tidyKey n pair.1

theorem isTidyRow_tidyRow (n : Nat) (row : List Nat) : IsTidyRow n (tidyRow n row) := by
  constructor
  · rw [tidyRow, List.length_map, List.length_range]
  · intro v hv
    obtain ⟨p, -, rfl⟩ := List.mem_map.mp hv
    cases (row.map (· == 1)).getD p false with
    | false => exact .inl rfl
    | true => exact .inr rfl

theorem onesOf_of_isTidyKey {key : String} (h : IsTidyKey n key) :
    onesOf key = key.toList.map (· == '1') := by
  obtain ⟨-, hdigits⟩ := h
  rw [onesOf]
  generalize key.toList = chars at hdigits
  induction chars with
  | nil => rfl
  | cons c chars ih =>
    obtain ⟨hc, hchars⟩ := List.forall_mem_cons.mp hdigits
    rw [List.flatMap_cons, ih hchars, List.map_cons]
    rcases hc with rfl | rfl <;> rfl

/-- What is listed for each of `n` positions is the list. -/
theorem map_range_getD {g : Bool → α} {ones : List Bool} {l : List α} (hlength : ones.length = n)
    (hl : ones.map g = l) : (List.range n).map (fun p => g (ones.getD p false)) = l := by
  subst hl hlength
  refine List.ext_getElem (by simp) fun p hp hp' => ?_
  rw [List.length_map] at hp'
  simp [hp']

theorem tidyKey_of_isTidyKey {key : String} (h : IsTidyKey n key) : tidyKey n key = key := by
  rw [tidyKey, select, onesOf_of_isTidyKey h]
  refine (congrArg String.ofList (map_range_getD (g := fun one => if one then '1' else '0')
    (by rw [List.length_map, h.1]) ?_)).trans String.ofList_toList
  rw [List.map_map]
  refine (List.map_congr_left fun c hc => ?_).trans (List.map_id _)
  rcases h.2 c hc with rfl | rfl <;> rfl

theorem tidyKeys_of_isTidyKey {pairs : List (String × α)} (h : ∀ pair ∈ pairs, IsTidyKey n pair.1) :
    tidyKeys n pairs = pairs := by
  refine (List.map_congr_left fun pair hpair => ?_).trans (List.map_id _)
  exact Prod.ext (tidyKey_of_isTidyKey (h pair hpair)) rfl

theorem tidyRow_of_isTidyRow {row : List Nat} (h : IsTidyRow n row) : tidyRow n row = row := by
  refine map_range_getD (by rw [List.length_map, h.1]) ?_
  rw [List.map_map]
  refine (List.map_congr_left fun v hv => ?_).trans (List.map_id _)
  rcases h.2 v hv with rfl | rfl <;> rfl

theorem isTidy_tidied (result : BraketResult R) (n : Nat) : (result.tidied n).IsTidy n := by
  constructor
  · intro pairs hpairs pair hpair
    obtain ⟨pairs, -, rfl⟩ := Option.map_eq_some_iff.mp hpairs
    exact isTidyKey_of_mem_tidyKeys hpair
  · intro weights hweights pair hpair
    obtain ⟨weights, -, rfl⟩ := Option.map_eq_some_iff.mp hweights
    exact isTidyKey_of_mem_tidyKeys hpair
  · intro rows hrows row hrow
    obtain ⟨rows, -, rfl⟩ := Option.map_eq_some_iff.mp hrows
    obtain ⟨row, -, rfl⟩ := List.mem_map.mp hrow
    exact isTidyRow_tidyRow n row

theorem tidied_of_isTidy {result : BraketResult R} (h : result.IsTidy n) :
    result.tidied n = result := by
  obtain ⟨counts, probabilities, measurements, order⟩ := result
  rw [tidied, mk.injEq]
  refine ⟨?_, ?_, ?_, rfl⟩
  · cases counts with
    | none => rfl
    | some pairs => exact congrArg some (tidyKeys_of_isTidyKey (h.counts pairs rfl))
  · cases probabilities with
    | none => rfl
    | some weights => exact congrArg some (tidyKeys_of_isTidyKey (h.probabilities weights rfl))
  · cases measurements with
    | none => rfl
    | some rows =>
      refine congrArg some ((List.map_congr_left fun row hrow => ?_).trans (List.map_id _))
      exact tidyRow_of_isTidyRow (h.measurements rows rfl row hrow)

/-- Whatever stands at the first `n` positions still stands there. -/
theorem select_range (hlt : ∀ p ∈ positions, p < n) (ones : List Bool) :
    select positions ((List.range n).map fun p => ones.getD p false) = select positions ones := by
  rw [select, select]
  refine congrArg String.ofList (List.map_congr_left fun p hp => ?_)
  simp [hlt p hp]

theorem shownAt_tidied (result : BraketResult R) (hlt : ∀ p ∈ positions, p < n) :
    (result.tidied n).shownAt positions = result.shownAt positions := by
  have hkey : ∀ key, select positions (onesOf (tidyKey n key)) = select positions (onesOf key) := by
    intro key
    have hones : onesOf (tidyKey n key) = (List.range n).map fun p => (onesOf key).getD p false :=
      onesOf_bitstring (List.range n) fun p => (onesOf key).getD p false
    rw [hones, select_range hlt]
  have hrow : ∀ row : List Nat, select positions ((tidyRow n row).map (· == 1)) =
      select positions (row.map (· == 1)) := by
    intro row
    rw [← select_range hlt (row.map (· == 1)), tidyRow, List.map_map]
    refine congrArg (select positions) (List.map_congr_left fun p _ => ?_)
    rw [Function.comp_apply]
    cases (row.map (· == 1)).getD p false <;> rfl
  simp only [shownAt, tidied, Option.map_map, Function.comp_def, rekeyed, tidyKeys, List.map_map,
    hkey, hrow]
  rfl

def valuesIn (order : List Nat) (ones : List Bool) (q : Nat) : Bool :=
  ones.getD (order.idxOf q) false

def toldIn (result : BraketResult R) (order : List Nat) : Told R (Nat → Bool) where
  counts := result.counts.map fun pairs =>
    pairs.map fun pair => (valuesIn order (onesOf pair.1), pair.2)
  probabilities := result.probabilities.map fun weights =>
    weights.map fun pair => (valuesIn order (onesOf pair.1), pair.2)
  measurements := result.measurements.map fun rows =>
    rows.map fun row => valuesIn order (row.map (· == 1))

theorem map_valuesIn {order : List Nat} (hnodup : order.Nodup) (g : Bool → α) (ones : List Bool) :
    order.map (fun q => g (valuesIn order ones q)) =
      (List.range order.length).map fun p => g (ones.getD p false) := by
  refine List.ext_getElem (by simp) fun p hp _ => ?_
  rw [List.length_map] at hp
  simp [valuesIn, hnodup.idxOf_getElem]

theorem listed_toldIn {result : BraketResult R} {order : List Nat}
    (horder : result.measuredQubits = some order) (hnodup : order.Nodup) :
    (result.toldIn order).listed order = result.tidied order.length := by
  have hkey : ∀ key, bitstring order (valuesIn order (onesOf key)) = tidyKey order.length key := by
    intro key
    exact congrArg String.ofList
      (map_valuesIn hnodup (fun one => if one then '1' else '0') (onesOf key))
  have hrow : ∀ row : List Nat, order.map (fun q => (valuesIn order (row.map (· == 1)) q).toNat) =
      tidyRow order.length row := by
    intro row
    exact map_valuesIn hnodup Bool.toNat (row.map (· == 1))
  simp only [toldIn, tidied, Told.listed, Told.map, Option.map_map, Function.comp_def, List.map_map,
    hkey, hrow, horder]
  rfl

/-- Outcomes as they should be, over different qubits, are values of all qubits. -/
theorem exists_listed {result : BraketResult R} {order : List Nat}
    (horder : result.measuredQubits = some order) (hnodup : order.Nodup)
    (htidy : result.IsTidy order.length) :
    ∃ told : Told R (Nat → Bool), result = told.listed order := by
  refine ⟨result.toldIn order, ?_⟩
  rw [listed_toldIn horder hnodup, tidied_of_isTidy htidy]

end Tidy

/-! ## 4. Decoding -/

section Build

variable [Build] [Zero R] [Add R] [Mul R] [Div R] [Magnitude R] [Share R]

/-- **The order of the qubits does not matter**, and neither do the order of the outcomes or
    the way they are told: wherever the measured qubits are listed the counts tell how often each
    of their bitstrings occurred.  Only where whole words of outcomes are told are they lost, and
    only in a build that does not find the machine at fault there. -/
theorem decode_listed (told : Told R (Nat → Bool)) {order measured : List Nat}
    (hlisted : measured ⊆ order) (shots : Nat) :
    (∀ order', measured ⊆ order' → (told.listed order').decode measured shots =
      (told.listed order).decode measured shots) ∧
    (∀ outcomes, told.Tells outcomes →
      (∀ counts, (told.listed order).decode measured shots = .ok counts → ∀ bits,
        (counts.get bits).toNat = (outcomes.map (bitstring measured)).count bits % 2 ^ 64) ∧
      (outcomes ≠ 0 → outcomes.card < 2 ^ 64 →
        ∃ counts, (told.listed order).decode measured shots = .ok counts ∧
          counts.Tells (outcomes.map (bitstring measured)) ∧
          ∀ (told' : Told R (Nat → Bool)) order' shots', measured ⊆ order' → told'.Tells outcomes →
            ∃ counts', (told'.listed order').decode measured shots' = .ok counts' ∧
              (counts'.entries.filter (·.2 ≠ 0)).Perm (counts.entries.filter (·.2 ≠ 0)))) ∧
    (∀ numbers, told.counts = some numbers →
      (Build.checks = true → 2 ^ 64 ≤ (Counts.unfolded numbers).card →
        (told.listed order).decode measured shots = .error (.machine .overflow)) ∧
      ((Counts.unfolded numbers).card < 2 ^ 64 ∨ Build.checks = false →
        2 ^ 64 ∣ (Counts.unfolded numbers).card →
        (told.listed order).decode measured shots =
          .error (.badResult "measurement counts are empty"))) ∧
    ∀ result : BraketResult R, result.measuredQubits = some order →
      (order.Nodup → result.IsTidy order.length →
        ∃ told' : Told R (Nat → Bool), result = told'.listed order) ∧
      ∀ measured', ¬measured' ⊆ order → ∃ q ∈ measured', q ∉ order ∧
        result.decode measured' shots =
          .error (.badResult ("qubit " ++ toString q ++ " was not measured")) := by
  refine ⟨?_, ?_, ?_, ?_⟩
  · intro order' hlisted'
    rw [decode_listed_eq told hlisted', decode_listed_eq told hlisted]
  · intro outcomes htells
    have hseen := htells.map (bitstring measured)
    constructor
    · intro counts hdecode bits
      rw [decode_listed_eq told hlisted] at hdecode
      exact hseen.toNat_get hdecode bits
    · intro hne hlt
      have hne' : outcomes.map (bitstring measured) ≠ 0 := mt Multiset.map_eq_zero.mp hne
      rw [← Multiset.card_map (bitstring measured)] at hlt
      obtain ⟨counts, hdecode, hcounts⟩ := hseen.exists_decode hne' hlt shots
      refine ⟨counts, (decode_listed_eq told hlisted shots).trans hdecode, hcounts, ?_⟩
      intro told' order' shots' hlisted' htells'
      obtain ⟨counts', hdecode', hcounts'⟩ :=
        (htells'.map (bitstring measured)).exists_decode hne' hlt shots'
      exact ⟨counts', (decode_listed_eq told' hlisted' shots').trans hdecode', hcounts'.perm hcounts⟩
  · intro numbers hnumbers
    rw [decode_listed_eq told hlisted, Told.decode_of_counts (congrArg (Option.map _) hnumbers),
      Counts.unfolded_map, Multiset.card_map]
    constructor
    · exact fun hchecks hlarge => if_pos ⟨hchecks, hlarge⟩
    · intro hfits hdvd
      rw [if_neg (Word.not_overflow_iff.mpr hfits), if_pos hdvd]
  · intro result horder
    exact ⟨exists_listed horder, fun measured' hmissing => decode_of_missing horder hmissing shots⟩

end Build

def withLast (last : Bool) (q : Nat) : Bool := q == 0 || q == 2 && last

def twoAndThree : Told Float (Nat → Bool) :=
  ⟨some [(withLast false, 2), (withLast true, 3)], none, none⟩

def oneByOne : Told Float (Nat → Bool) :=
  ⟨none, none, some ([true, false, true, false, true].map withLast)⟩

theorem decode_listed_twoAndThree :
    [1, 0] ⊆ [2, 0, 1] ∧ ∃ counts, (twoAndThree.listed [2, 0, 1]).decode [1, 0] 5 = .ok counts ∧
      (counts.get "01").toNat = 5 ∧
      ∃ counts', (oneByOne.listed [0, 1, 2]).decode [1, 0] 5 = .ok counts' ∧
        (counts'.entries.filter (·.2 ≠ 0)).Perm (counts.entries.filter (·.2 ≠ 0)) := by
  have hlisted : [1, 0] ⊆ [2, 0, 1] := by decide
  have hperm : [true, false, true, false, true].Perm [false, false, true, true, true] := by decide
  have hrows : oneByOne.Tells (Counts.unfolded [(withLast false, 2), (withLast true, 3)]) :=
    .measurements rfl rfl (Multiset.coe_eq_coe.mpr (hperm.map withLast))
  obtain ⟨-, htells, -⟩ := decode_listed twoAndThree hlisted 5
  obtain ⟨-, hdecode⟩ := htells _ (.counts rfl rfl)
  obtain ⟨counts, hcounts, hall, hother⟩ := hdecode (by simp) (by simp)
  refine ⟨hlisted, counts, hcounts, ?_, hother oneByOne [0, 1, 2] 5 (by decide) hrows⟩
  rw [hall.get]
  rfl

def halfWords : Told Float (Nat → Bool) :=
  ⟨some [(fun _ => true, 9223372036854775808), (fun _ => false, 9223372036854775808)], none, none⟩

/-- A whole word of outcomes is a fault, or taken for none. -/
theorem halfWords_empty :
    ∃ outcomes, halfWords.Tells outcomes ∧ outcomes.card = 2 ^ 64 ∧
      (halfWords.listed [0]).decode [0] 3 = .error (.machine .overflow) ∧
      letI := wrappingBuild
      (halfWords.listed [0]).decode [0] 3 =
        .error (.badResult "measurement counts are empty") := by
  refine ⟨_, .counts rfl rfl, ?_, rfl, rfl⟩
  rw [Counts.unfolded_cons, Counts.unfolded_cons, Counts.unfolded_nil, Multiset.card_add,
    Multiset.card_add, Multiset.card_replicate, Multiset.card_replicate]
  rfl

section Build

variable [Build] [Zero R] [Add R] [Mul R] [Div R] [Magnitude R] [Share R]

/-- **No outcome is refused**: a result is decoded like the one that has zeros and ones for the
    listed qubits and nothing else, and zeros wherever an outcome has no one.  Results that have
    zeros and ones for the listed qubits already are left as they are. -/
theorem decode_tidied {result : BraketResult R} {order measured : List Nat}
    (horder : result.measuredQubits.getD measured = order) (shots : Nat) :
    (result.tidied order.length).decode measured shots = result.decode measured shots ∧
      (result.tidied order.length).IsTidy order.length ∧
      (result.IsTidy order.length → result.tidied order.length = result) ∧
      (measured ⊆ order →
        (∀ pairs, result.counts = some pairs →
          ((∃ counts, result.decode measured shots = .ok counts) ↔
            (Counts.reported pairs < 2 ^ 64 ∨ Build.checks = false) ∧
              ¬2 ^ 64 ∣ Counts.reported pairs)) ∧
        ∀ rows, result.counts = none → result.measurements = some rows →
          ((∃ counts, result.decode measured shots = .ok counts) ↔ rows ≠ [])) := by
  refine ⟨?_, isTidy_tidied result order.length, tidied_of_isTidy, ?_⟩
  · have horder' : (result.tidied order.length).measuredQubits.getD measured = order := horder
    rw [decode_eq_shownAt, decode_eq_shownAt result, horder, horder']
    cases hpositions : measured.mapM (position order) with
    | error fault => rfl
    | ok positions =>
      have hlt : ∀ p ∈ positions, p < order.length := by
        refine forall_mem_of_forall₂ (fun q p hp => ?_) (mapM_eq_ok_iff.mp hpositions)
        exact (List.getElem?_eq_some_iff.mp (getElem?_of_position hp)).1
      exact congrArg (Told.decode · shots) (shownAt_tidied result hlt)
  · intro hlisted
    obtain ⟨positions, hpositions, -⟩ := exists_positions hlisted fun _ => false
    rw [decode_eq_shownAt, horder, hpositions]
    constructor
    · intro pairs hpairs
      have hshown : (result.shownAt positions).counts = some (rekeyed positions pairs) :=
        congrArg (Option.map _) hpairs
      simp only [bind, Except.bind, Told.decode_of_counts hshown]
      rw [Counts.card_unfolded, reported_rekeyed]
      rw [← Word.not_overflow_iff]
      split_ifs with hlarge hdvd
      · exact iff_of_false nofun fun h => h.1 hlarge
      · exact iff_of_false nofun fun h => h.2 hdvd
      · exact iff_of_true ⟨_, rfl⟩ ⟨hlarge, hdvd⟩
    · intro rows hnone hrows
      simp only [bind, Except.bind, Told.decode_of_measurements
        (show (result.shownAt positions).counts = none from congrArg (Option.map _) hnone)
        (congrArg (Option.map _) hrows), List.map_eq_nil_iff]
      split <;> simp_all

end Build

def shortKey : BraketResult Float := ⟨some [("1", 3)], none, none, some [0, 1]⟩

theorem decode_tidied_shortKey :
    shortKey.measuredQubits.getD [0, 1] = [0, 1] ∧
      (⟨some [("10", 3)], none, none, some [0, 1]⟩ : BraketResult Float).decode [0, 1] 3 =
        shortKey.decode [0, 1] 3 ∧
      ∃ counts, shortKey.decode [0, 1] 3 = .ok counts := by
  have horder : shortKey.measuredQubits.getD [0, 1] = [0, 1] := rfl
  obtain ⟨htidied, -, -, hcounted⟩ := decode_tidied horder 3
  obtain ⟨hcounts, -⟩ := hcounted (List.Subset.refl [0, 1])
  exact ⟨horder, htidied, (hcounts _ rfl).mpr (by decide)⟩

/-- Too short a key, and a row with a seven, are decoded. -/
theorem untidy_decoded :
    ¬IsTidyKey 2 "1" ∧ shortKey.decode [0, 1] 3 = .ok ⟨[("10", 3)]⟩ ∧
      ¬IsTidyRow 2 [1, 7] ∧ (⟨none, none, some [[1, 7]], some [0, 1]⟩ : BraketResult Float).decode
        [0, 1] 3 = .ok ⟨[("10", 1)]⟩ := by
  refine ⟨?_, rfl, ?_, rfl⟩
  · rintro ⟨hlength, -⟩
    cases hlength
  · rintro ⟨-, hdigits⟩
    rcases hdigits 7 (by decide) with h | h <;> cases h

end CircuitBroker.BraketResult
