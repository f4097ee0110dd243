/-
  CircuitBroker/Proofs/Simulation/Shots.lean
  ==========================================
  **Shots of circuits that send bits to bits.**

  As long as every qubit has a value, nothing is left to chance: a shot through steps that
  implement flips, exchanges and measurements gives the outcomes of executing them in order,
  whatever is drawn (`exists_shot`).  The simulator takes one of two ways, through all steps
  for each shot or one draw from the last state; on such circuits both put all shots on one
  bitstring (`runFrom_eq_ok`).
-/
import CircuitBroker.Proofs.Simulation.Faults
import CircuitBroker.Proofs.Statevector.Basis

namespace CircuitBroker

open GateMatrix Simulator Statevector

variable {n : Nat}

/-! ## 1. Operations on bits -/

namespace Operation

variable {op : Operation ℝ} {bits : Nat → Bool} {ψ : Statevector (Amplitude ℝ) n}

/-- The last operand is flipped under all those before it. -/
theorem hasBits_flip (hwf : op.WellFormed n) {controls : List Nat} {target : Nat}
    (hoperands : op.operands = controls ++ [target])
    (hexecute : ∀ q, op.executeBits bits q = Register.flip controls target bits q)
    (hψ : ψ.HasBits bits) :
    (applyGates ψ [.onQubits (Standard.x, controls.length) op.operands]).HasBits
      (op.executeBits bits) := by
  have hnodup := hwf.nodup_operands
  have hlt := hwf.operands_lt
  rw [hoperands] at hnodup hlt ⊢
  rw [funext hexecute, applyGates, LoweredStep.onQubits]
  dsimp only
  rw [List.drop_left, List.take_left]
  exact hψ.x hnodup (hlt target (by simp))

theorem hasBits_controlled (hwf : op.WellFormed n) {ancillas : Bool}
    (hlayout : op.gate.signature.qubits = .controlled ancillas) (hclassical : op.isClassical = true)
    {action : GateMatrix (Amplitude ℝ) × Nat} (haction : op.action? = some action)
    (hψ : ψ.HasBits bits) :
    (applyGates ψ [.onQubits action op.operands]).HasBits (op.executeBits bits) := by
  obtain ⟨target, rest, -, -, htarget⟩ := hwf.controlled hlayout
  have hoperands : op.operands = op.controls ++ [target] := by
    rw [operands_of_controlled hlayout, htarget]; rfl
  by_cases hphase : op.gate = .mcp
  · simp [isClassical, hphase] at hclassical
  · obtain rfl : (Standard.x, op.controls.length) = action := by
      simpa [action?_of_flip hlayout hphase] using haction
    refine hasBits_flip hwf hoperands (fun q => ?_) hψ
    cases hkind : op.gate
    case mcx | mct | mcxgc | mcxrec | mcxvchain => simp [executeBits, hkind, hoperands]
    all_goals first
      | (rw [hkind] at hlayout; cases hlayout; done)
      | exact absurd hkind hphase

theorem hasBits_fixed (hwf : op.WellFormed n) {k : Nat}
    (hlayout : op.gate.signature.qubits = .fixed k) (hclassical : op.isClassical = true)
    {g : AssemblyGate ℝ} (hg : Assembly.fixedGate? op.gate op.angles = some g)
    (hψ : ψ.HasBits bits) :
    (applyGates ψ [.onQubits g.lowered op.operands]).HasBits (op.executeBits bits) := by
  have hnodup := hwf.nodup_operands
  have hlt := hwf.operands_lt
  have hlen : op.operands.length = k := by
    rw [operands_of_fixed hlayout]; exact (hwf.fixed hlayout).2
  obtain ⟨q₁, q₂, q₃, q₄, q₅, hoperands⟩ := exists_eq_take 0 hlen
    (by revert hlayout; cases op.gate <;> intro hlayout <;> cases hlayout <;> decide)
  have hflip := fun controls target (h : op.operands = controls ++ [target])
    (hexecute : ∀ q, op.executeBits bits q = Register.flip controls target bits q) =>
      hasBits_flip hwf h hexecute hψ
  rw [hoperands] at hnodup hlt
  cases hkind : op.gate
  all_goals first
    | (rw [hkind] at hlayout; cases hlayout; done)
    | (simp [isClassical, hkind] at hclassical; done)
    | (rw [hkind] at hlayout hg
       cases hlayout
       cases hg)
  case x => exact hflip [] q₁ hoperands fun q => by simp only [executeBits, hkind, hoperands]; rfl
  case cx =>
    exact hflip [q₁] q₂ hoperands fun q => by simp only [executeBits, hkind, hoperands]; rfl
  case ccx =>
    exact hflip [q₁, q₂] q₃ hoperands fun q => by simp only [executeBits, hkind, hoperands]; rfl
  case c3x =>
    exact hflip [q₁, q₂, q₃] q₄ hoperands fun q => by
      simp only [executeBits, hkind, hoperands]; rfl
  case c4x =>
    exact hflip [q₁, q₂, q₃, q₄] q₅ hoperands fun q => by
      simp only [executeBits, hkind, hoperands]; rfl
  case i =>
    have hsame : op.executeBits bits = bits := funext fun q => by simp only [executeBits, hkind]
    rw [hsame, hoperands]
    exact hψ.id (hlt q₁ List.mem_cons_self)
  case swap =>
    have hsame : op.executeBits bits = Register.exchange [] q₁ q₂ bits :=
      funext fun q => by simp only [executeBits, hkind, hoperands]; rfl
    rw [hsame, hoperands]
    exact hψ.swap [] hnodup hlt
  case cswap =>
    have hsame : op.executeBits bits = Register.exchange [q₁] q₂ q₃ bits :=
      funext fun q => by simp only [executeBits, hkind, hoperands]; rfl
    rw [hsame, hoperands]
    exact hψ.swap [q₁] hnodup fun q hq => hlt q (List.mem_cons_of_mem q₁ hq)
  case dcx =>
    have hsame : op.executeBits bits = Register.flip [q₂] q₁ (Register.flip [q₁] q₂ bits) :=
      funext fun q => by simp only [executeBits, hkind, hoperands]; rfl
    have hne : q₁ ≠ q₂ := by simpa using hnodup
    rw [hsame, hoperands]
    exact hψ.dcx hne hlt

/-- **A reference gate does to bits what the operation does.** -/
theorem hasBits_action (hwf : op.WellFormed n) (hclassical : op.isClassical = true)
    {action : GateMatrix (Amplitude ℝ) × Nat} (haction : op.action? = some action)
    (hψ : ψ.HasBits bits) :
    (applyGates ψ [.onQubits action op.operands]).HasBits (op.executeBits bits) := by
  cases hlayout : op.gate.signature.qubits with
  | fixed k =>
    rw [action?_of_fixed hlayout, Option.map_eq_some_iff] at haction
    obtain ⟨g, hg, rfl⟩ := haction
    exact hasBits_fixed hwf hlayout hclassical hg hψ
  | controlled ancillas => exact hasBits_controlled hwf hlayout hclassical haction hψ

/-- **Steps that implement an operation do to bits what executing it does.** -/
theorem ImplementedBy.hasBits {part : List (LoweredStep (Amplitude ℝ))} {r : Register}
    (h : op.ImplementedBy n part) (hwf : op.WellFormed n) (hclassical : op.isClassical = true)
    (hψ : ψ.HasBits r.bits) : (applyGates ψ part).HasBits (op.execute n r).bits := by
  rw [execute]
  cases hgate : op.gate.isMeasurement with
  | false =>
    obtain ⟨g, haction, -⟩ := exists_action hwf hgate
    rw [h.sameGates ψ, Assembly.stepsOf_action hwf haction]
    exact hasBits_action hwf hclassical haction hψ
  | true =>
    rw [h.measurement hgate, applyGates_map_measure]
    exact hψ

end Operation

/-- **Steps that implement operations leave the bits that executing the operations leaves.** -/
theorem hasBits_applyGates {ops : List (Operation ℝ)}
    {parts : List (List (LoweredStep (Amplitude ℝ)))}
    (hparts : List.Forall₂ (fun op part => op.ImplementedBy n part) ops parts) :
    (∀ op ∈ ops, op.WellFormed n) → (∀ op ∈ ops, op.isClassical = true) →
    ∀ (r : Register) (ψ : Statevector (Amplitude ℝ) n), ψ.HasBits r.bits →
      (applyGates ψ parts.flatten).HasBits (ops.foldl (fun r op => op.execute n r) r).bits := by
  induction hparts with
  | nil => exact fun _ _ r ψ hψ => hψ
  | cons hpart _ ih =>
    intro hwf hclassical r ψ hψ
    obtain ⟨hop, hops⟩ := List.forall_mem_cons.mp hwf
    obtain ⟨hbit, hbits⟩ := List.forall_mem_cons.mp hclassical
    rw [List.flatten_cons, applyGates_append, List.foldl_cons]
    exact ih hops hbits _ _ (hpart.hasBits hop hbit hψ)

/-! ## 2. Shots -/

section Steps

variable {R σ : Type} [Zero R] [One R] [Add R] [Sub R] [Mul R] [Div R] [Elementary R] [Magnitude R]
  [DrawSource σ R] {draws : σ}

theorem shot_gates {part : List (LoweredStep (Amplitude R))}
    (h : ∀ s ∈ part, s.measured? = none) (rest : List (LoweredStep (Amplitude R)))
    (register : Nat → Bool) : ∀ ψ : Statevector (Amplitude R) n,
      shot (part ++ rest) ψ register draws = shot rest (applyGates ψ part) register draws := by
  induction part with
  | nil => intro ψ; rfl
  | cons s part ih =>
    intro ψ
    obtain ⟨hs, hpart⟩ := List.forall_mem_cons.mp h
    cases s with
    | gate m targets controls => exact ih hpart _
    | measure q => cases hs

theorem shot_measure (q : Nat) (rest : List (LoweredStep (Amplitude R)))
    (ψ : Statevector (Amplitude R) n) (register : Nat → Bool) :
    shot (.measure q :: rest) ψ register draws =
      shot rest (ψ.measure q (DrawSource.next draws).1).2
        (record register q (ψ.measure q (DrawSource.next draws).1).1) (DrawSource.next draws).2 :=
  rfl

end Steps

def DrawSource.InUnit {σ : Type} [DrawSource σ ℝ] (draws : σ) : Prop :=
  ∀ k, 0 ≤ (next ((fun d => (next d).2)^[k] draws)).1 ∧
    (next ((fun d => (next d).2)^[k] draws)).1 < 1

section Shots

/-- A sequence of draws is a source of them. -/
instance : DrawSource (Nat → ℝ) ℝ := ⟨fun draws => (draws 0, fun k => draws (k + 1))⟩

theorem DrawSource.inUnit_sequence {draws : Nat → ℝ} (h : ∀ k, 0 ≤ draws k ∧ draws k < 1) :
    InUnit draws := by
  have hlater : ∀ k, (fun d : Nat → ℝ => (next d).2)^[k] draws = fun j => draws (j + k) := by
    intro k
    induction k with
    | zero => rfl
    | succ k ih =>
      rw [Function.iterate_succ_apply', ih]
      funext j
      exact congrArg draws (by omega)
  intro k
  rw [hlater k]
  exact h (0 + k)

variable {σ : Type} [DrawSource σ ℝ] {draws : σ}

theorem DrawSource.InUnit.next (h : InUnit draws) : InUnit (DrawSource.next draws).2 :=
  fun k => h (k + 1)

/-- Measurements of qubits that have values find these. -/
theorem exists_shot_measure {i : Nat} (hi : i < 2 ^ n) (rest : List (LoweredStep (Amplitude ℝ)))
    (qubits : List Nat) : ∀ (register : Nat → Bool) (draws : σ), DrawSource.InUnit draws →
      ∃ draws' : σ, DrawSource.InUnit draws' ∧
        shot (qubits.map .measure ++ rest) (basis n i) register draws =
          shot rest (basis n i) (fun q => if q ∈ qubits then i.testBit q else register q) draws' := by
  induction qubits with
  | nil =>
    intro register draws hdraws
    exact ⟨draws, hdraws, by simp⟩
  | cons q qs ih =>
    intro register draws hdraws
    obtain ⟨hpos, hlt⟩ := hdraws 0
    obtain ⟨draws', hdraws', hshot⟩ :=
      ih (record register q (i.testBit q)) (DrawSource.next draws).2 hdraws.next
    have hfound : (basis n i : Statevector (Amplitude ℝ) n).measure q (DrawSource.next draws).1 =
        (i.testBit q, basis n i) := measure_basis hi q hpos hlt
    refine ⟨draws', hdraws', ?_⟩
    rw [List.map_cons, List.cons_append, shot_measure, hfound, hshot]
    congr 1
    funext p
    by_cases hp : p = q
    · simp [hp, record]
    · simp [hp, record]

/-- Gates and then measurements: what is recorded is the bits the gates leave. -/
theorem exists_shot_terminal {gates : List (LoweredStep (Amplitude ℝ))}
    (hgates : ∀ s ∈ gates, s.measured? = none) {ψ : Statevector (Amplitude ℝ) n}
    {bits : Nat → Bool} (hbits : (applyGates ψ gates).HasBits bits) (qubits : List Nat)
    (register : Nat → Bool) {draws : σ} (hdraws : DrawSource.InUnit draws) :
    ∃ draws' : σ, DrawSource.InUnit draws' ∧
      shot (gates ++ qubits.map .measure) ψ register draws =
        ((fun q => if q ∈ qubits then bits q else register q), draws') := by
  obtain ⟨i, hi, hbasis, rfl⟩ := hbits
  obtain ⟨draws', hdraws', h⟩ := exists_shot_measure hi [] qubits register draws hdraws
  refine ⟨draws', hdraws', ?_⟩
  rw [shot_gates hgates, hbasis, ← List.append_nil (qubits.map _), h, shot]

/-- The steps of one operation record what executing it records. -/
theorem Operation.ImplementedBy.exists_shot {op : Operation ℝ}
    {part : List (LoweredStep (Amplitude ℝ))} (h : op.ImplementedBy n part) {r : Register}
    {ψ : Statevector (Amplitude ℝ) n} (hψ : ψ.HasBits r.bits)
    (rest : List (LoweredStep (Amplitude ℝ))) (hdraws : DrawSource.InUnit draws) :
    ∃ draws' : σ, DrawSource.InUnit draws' ∧ shot (part ++ rest) ψ r.outcomes draws =
      shot rest (applyGates ψ part) (op.execute n r).outcomes draws' := by
  rw [execute]
  cases hgate : op.gate.isMeasurement with
  | false => exact ⟨draws, hdraws, shot_gates (h.gates hgate) rest r.outcomes ψ⟩
  | true =>
    obtain ⟨i, hi, rfl, hr⟩ := hψ
    obtain ⟨draws', hdraws', hshot⟩ :=
      exists_shot_measure hi rest (op.touched n) r.outcomes draws hdraws
    refine ⟨draws', hdraws', ?_⟩
    rw [h.measurement hgate, hshot, applyGates_map_measure, hr]
    rfl

/-- **A shot through steps that implement operations on bits records what executing the
    operations records.** -/
theorem exists_shot {ops : List (Operation ℝ)} {parts : List (List (LoweredStep (Amplitude ℝ)))}
    (hparts : List.Forall₂ (fun op part => op.ImplementedBy n part) ops parts) :
    (∀ op ∈ ops, op.WellFormed n) → (∀ op ∈ ops, op.isClassical = true) →
    ∀ (r : Register) (ψ : Statevector (Amplitude ℝ) n) (draws : σ), ψ.HasBits r.bits →
      DrawSource.InUnit draws →
      ∃ draws' : σ, DrawSource.InUnit draws' ∧ shot parts.flatten ψ r.outcomes draws =
        ((ops.foldl (fun r op => op.execute n r) r).outcomes, draws') := by
  induction hparts with
  | nil => exact fun _ _ r ψ draws _ hdraws => ⟨draws, hdraws, rfl⟩
  | @cons op part ops parts hpart _ ih =>
    intro hwf hclassical r ψ draws hψ hdraws
    obtain ⟨hop, hops⟩ := List.forall_mem_cons.mp hwf
    obtain ⟨hbit, hbits⟩ := List.forall_mem_cons.mp hclassical
    obtain ⟨draws', hdraws', hshot⟩ := hpart.exists_shot hψ parts.flatten hdraws
    rw [List.flatten_cons, hshot, List.foldl_cons]
    exact ih hops hbits _ _ draws' (hpart.hasBits hop hbit hψ) hdraws'

end Shots

/-! ## 3. Runs -/

theorem fits_of_applicable {m : GateMatrix (Amplitude ℝ)} {targets controls : List Nat}
    (h : m.Applicable targets controls n) : fits n m targets controls = true := by
  have htargets : targets.Nodup := (List.nodup_append'.mp h.nodup).2.1
  exact fits_of_lt h.onQubits htargets fun q hq => h.lt q (List.mem_append_right _ hq)

def Counts.allOn (bits : String) (shots : Nat) : Counts :=
  if shots = 0 then .empty else ⟨[(bits, UInt64.ofNat shots)]⟩

theorem Counts.allOn_inj {a b : String} {shots : Nat} (hpos : 0 < shots) :
    allOn a shots = allOn b shots ↔ a = b := by
  simp [allOn, Nat.ne_of_gt hpos]

/-- Shots that all give the same bitstring, whatever is drawn. -/
theorem repeatShots_eq {σ : Type} {one : σ → String × σ} {bits : String} {I : σ → Prop}
    (hone : ∀ d, I d → (one d).1 = bits ∧ I (one d).2) {draws : σ} (hdraws : I draws)
    (shots : Nat) : repeatShots one shots draws .empty = Counts.allOn bits shots := by
  have hmore : ∀ shots draws count, I draws →
      repeatShots one shots draws ⟨[(bits, count)]⟩ =
        ⟨[(bits, count + UInt64.ofNat shots)]⟩ := by
    intro shots
    induction shots with
    | zero => intro draws count _; simp [repeatShots]
    | succ shots ih =>
      intro draws count hdraws
      obtain ⟨hbits, hnext⟩ := hone draws hdraws
      have hinsert : (⟨[(bits, count)]⟩ : Counts).insert (one draws).1 1 =
          ⟨[(bits, count + 1)]⟩ := by simp [Counts.insert, Counts.addEntry, hbits]
      rw [repeatShots]
      simp only [hinsert]
      rw [ih _ _ hnext, Nat.add_comm shots 1, UInt64.ofNat_add, UInt64.add_assoc]
      rfl
  cases shots with
  | zero => rfl
  | succ shots =>
    obtain ⟨hbits, hnext⟩ := hone draws hdraws
    have hinsert : Counts.empty.insert (one draws).1 1 = ⟨[(bits, 1)]⟩ := by
      simp [Counts.insert, Counts.addEntry, Counts.empty, hbits]
    rw [repeatShots]
    simp only [hinsert]
    rw [hmore _ _ _ hnext, Nat.add_comm shots 1, Counts.allOn, if_neg (by omega),
      UInt64.ofNat_add]
    rfl

theorem eq_map_measure {steps : List (LoweredStep (Amplitude ℝ))}
    (h : ∀ s ∈ steps, s.measured?.isSome = true) :
    steps = (steps.filterMap LoweredStep.measured?).map .measure := by
  induction steps with
  | nil => rfl
  | cons s steps ih =>
    obtain ⟨hs, hsteps⟩ := List.forall_mem_cons.mp h
    cases s with
    | gate m targets controls => cases hs
    | measure q => exact congrArg (LoweredStep.measure q :: ·) (ih hsteps)

/-- A bitstring says what the measured qubits have, and nothing else. -/
theorem bitstring_eq_iff {measured : List Nat} {f g : Nat → Bool} :
    bitstring measured f = bitstring measured g ↔ ∀ q ∈ measured, f q = g q := by
  rw [bitstring, bitstring, String.ofList_inj, List.map_inj_left]
  refine forall₂_congr fun q _ => ?_
  cases f q <;> cases g q <;> decide

theorem LoweredStep.WellFormed.runs {s : LoweredStep (Amplitude ℝ)} (h : s.WellFormed n)
    (hn : n < 64) (written : Bool) : s.Words ∧ s.Fits n written := by
  cases s with
  | gate m targets controls =>
    have hgate : m.Applicable targets controls n := h
    exact ⟨gateWords_of_nodup hn hgate.nodup hgate.lt, fits_of_applicable hgate⟩
  | measure q => exact ⟨Nat.lt_trans h hn, fun _ => h⟩

section Runs

variable {σ : Type} [DrawSource σ ℝ]

theorem sample_basis {i : Nat} (hi : i < 2 ^ n) (measured : List Nat) {draws : σ}
    (hdraws : DrawSource.InUnit draws) :
    sample (basis n i : Statevector (Amplitude ℝ) n).cumulative measured draws =
      (bitstring measured i.testBit, (DrawSource.next draws).2) := by
  have hindex : sampleIndex (basis n i : Statevector (Amplitude ℝ) n).cumulative
      (DrawSource.next draws).1 = i := sampleIndex_basis hi (hdraws 0).1 (hdraws 0).2
  rw [sample, ← congrArg Nat.testBit hindex]

/-- Where only measurements follow, one draw from the distribution reports what going through
    them records. -/
theorem sample_eq_of_shot {i : Nat} (hi : i < 2 ^ n) {steps : List (LoweredStep (Amplitude ℝ))}
    (hsteps : ∀ s ∈ steps, s.measured?.isSome = true) {measured : List Nat}
    (hmeasured : ∀ q ∈ measured, q ∈ steps.filterMap LoweredStep.measured?)
    {outcomes : Nat → Bool} {draws draws' : σ} (hdraws : DrawSource.InUnit draws)
    (h : shot steps (basis n i) (fun _ => false) draws = (outcomes, draws')) :
    sample (basis n i : Statevector (Amplitude ℝ) n).cumulative measured draws =
      (bitstring measured outcomes, (DrawSource.next draws).2) := by
  obtain ⟨draws'', -, hshot⟩ := exists_shot_measure hi []
    (steps.filterMap LoweredStep.measured?) (fun _ => false) draws hdraws
  rw [List.append_nil, ← eq_map_measure hsteps, h] at hshot
  have houtcomes : outcomes = fun q =>
      if q ∈ steps.filterMap LoweredStep.measured? then i.testBit q else false :=
    congrArg Prod.fst hshot
  have hbits : ∀ q ∈ measured, i.testBit q = outcomes q := by
    intro q hq
    rw [houtcomes]
    exact (if_pos (hmeasured q hq)).symm
  rw [sample_basis hi measured hdraws, bitstring_eq_iff.mpr hbits]

/-- **A run whose shots all record one outcome puts them on its bitstring**, on either of the
    simulator's two ways. -/
theorem runFrom_eq_ok {low : LoweredCircuit (Amplitude ℝ)} (hn : low.numQubits < 64)
    (hwf : ∀ s ∈ low.steps, s.WellFormed low.numQubits) (hmeasured : low.measuredQubits ≠ [])
    {bits outcomes : Nat → Bool}
    (hbits : (applyGates (zero low.numQubits) low.steps).HasBits bits)
    (hshot : ∀ draws : σ, DrawSource.InUnit draws → ∃ draws' : σ, DrawSource.InUnit draws' ∧
      shot low.steps (zero low.numQubits) (fun _ => false) draws = (outcomes, draws'))
    {maxQubits : Nat} (hmax : low.numQubits ≤ maxQubits) {draws : σ}
    (hdraws : DrawSource.InUnit draws) (shots : Nat) :
    runFrom maxQubits draws low shots =
      .ok (Counts.allOn (bitstring low.measuredQubits outcomes) shots) := by
  have hafter : ∀ draws : σ, DrawSource.InUnit draws → ∃ draws' : σ, DrawSource.InUnit draws' ∧
      shot low.after (start low) (fun _ => false) draws = (outcomes, draws') := by
    intro draws hdraws
    obtain ⟨draws', hdraws', h⟩ := hshot draws hdraws
    rw [← low.before_append_after, shot_gates low.measured?_of_mem_before] at h
    exact ⟨draws', hdraws', h⟩
  rw [(runFrom_cases hn hmeasured hmax draws shots).1 fun s hs =>
    (hwf s (low.reached_subset shots s hs)).runs hn _,
    repeatShots_eq (I := DrawSource.InUnit) ?_ hdraws]
  intro d hd
  obtain ⟨d', hd', h⟩ := hafter d hd
  cases hreplays : low.replays with
  | false =>
    -- after the gates there are only measurements, of one state
    have hmeasures := LoweredCircuit.replays_eq_false_iff.mp hreplays
    rw [← low.before_append_after, applyGates_append, eq_map_measure hmeasures,
      applyGates_map_measure] at hbits
    obtain ⟨i, hi, hψ, -⟩ := hbits
    have hbasis : start low = basis low.numQubits i := hψ
    simp only [oneShot, hreplays, Bool.false_eq_true, if_false]
    rw [hbasis] at h ⊢
    rw [sample_eq_of_shot hi hmeasures (fun _ => LoweredCircuit.mem_after_of_mem_measured) hd h]
    exact ⟨rfl, hd.next⟩
  | true =>
    simp only [oneShot, hreplays, if_true]
    rw [replay, h]
    exact ⟨rfl, hd'⟩

end Runs

end CircuitBroker
