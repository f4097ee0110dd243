/-
  CircuitBroker/Proofs/Native/Runs.lean
  =====================================
  **What a simulated run of a backend's circuit reports.**

  On circuits of flips, exchanges and measurements a run is decided before anything is drawn,
  as long as an index of the state is a word (`Native.farApart_overflows` is a circuit for which it
  is not).
  Assembly programs, moment circuits and functor programs measure where the log does, so they
  report the values the qubits had when they were last measured.

  A modifier program is another matter: it keeps only which qubits are measured, and measures
  them behind its last gate.  It reports the values the qubits have in the end, which is what
  the log says exactly if every measured qubit ends with the value it was last measured with.
-/
import CircuitBroker.Proofs.Native.Acceptance
import CircuitBroker.Proofs.Native.Functors.Translation
import CircuitBroker.Proofs.Native.Modifiers
import CircuitBroker.Proofs.Simulation.Shots

namespace CircuitBroker

open Simulator Statevector

variable {c : Circuit ℝ}

/-! ## 1. Measurements where the log has them -/

/-- **A circuit that implements a log runs as the log is executed.** -/
theorem LoweredCircuit.Implements.runFrom_eq {low : LoweredCircuit (Amplitude ℝ)}
    (h : low.Implements c) (hc : c.Recorded)
    (hclassical : ∀ op ∈ c.operations, op.isClassical = true)
    (hmeasures : c.hasMeasurements = true) (hn : c.numQubits < 64) {maxQubits : Nat}
    (hmax : c.numQubits ≤ maxQubits)
    {σ : Type} [DrawSource σ ℝ] {draws : σ} (hdraws : DrawSource.InUnit draws) (shots : Nat) :
    runFrom maxQubits draws low shots =
      .ok (Counts.allOn (bitstring c.measuredQubits c.execute.outcomes) shots) := by
  have hcovers := h.covers
  have hmeasured := hcovers.measuredQubits_eq hc
  have hsteps := hcovers.wellFormed
  obtain ⟨n, steps⟩ := low
  obtain ⟨rfl, ops, parts, hreordered, hparts, rfl⟩ := h
  have hwf := (Circuit.recorded_iff.mp hc).2
  have hmem : ∀ {op}, op ∈ c.operations ↔ op ∈ ops := hreordered.perm.mem_iff
  have hexecute : ops.foldl (fun r op => op.execute c.numQubits r) .zero = c.execute :=
    (hreordered.foldl_eq (fun _ _ _ _ hapart r => Operation.execute_comm hapart r) .zero).symm
  have hwf' := fun op hop => hwf op (hmem.mpr hop)
  have hclassical' := fun op hop => hclassical op (hmem.mpr hop)
  have hbits := hasBits_applyGates hparts hwf' hclassical' .zero (zero c.numQubits) hasBits_zero
  have hshot := fun (draws : σ) (hdraws : DrawSource.InUnit draws) =>
    exists_shot hparts hwf' hclassical' .zero (zero c.numQubits) draws hasBits_zero hdraws
  rw [hexecute] at hbits hshot
  rw [← hmeasured]
  exact runFrom_eq_ok hn hsteps (hmeasured ▸ Circuit.measuredQubits_ne_nil hc hmeasures) hbits hshot
    hmax hdraws shots

theorem LoweredCircuit.Implements.runFrom_of_large {low : LoweredCircuit (Amplitude ℝ)}
    (h : low.Implements c) (hc : c.Recorded) (hmeasures : c.hasMeasurements = true)
    (hlarge : 64 ≤ c.numQubits) {maxQubits : Nat} (hmax : c.numQubits ≤ maxQubits) {σ : Type}
    [DrawSource σ ℝ] (draws : σ) (shots : Nat) :
    runFrom maxQubits draws low shots = .error (.machine .overflow) := by
  have hmeasured : low.measuredQubits ≠ [] := by
    rw [h.covers.measuredQubits_eq hc]
    exact Circuit.measuredQubits_ne_nil hc hmeasures
  rw [← h.1] at hlarge hmax
  exact CircuitBroker.runFrom_of_large hlarge hmeasured hmax draws shots

/-! ## 2. Measurements at the end -/

namespace ModifierProgram

/-- The gates of a program leave the bits the log leaves: they do what the log does. -/
theorem Translates.hasBits {p : ModifierProgram ℝ} (h : p.Translates c.numQubits c.operations)
    (hc : c.Recorded) (hclassical : ∀ op ∈ c.operations, op.isClassical = true) :
    (applyGates (zero c.numQubits) (p.gates.map gateStep)).HasBits c.execute.bits := by
  have hwf := (Circuit.recorded_iff.mp hc).2
  rw [h.sameGates, List.flatMap_def]
  refine hasBits_applyGates ?_ hwf hclassical .zero _ hasBits_zero
  rw [List.forall₂_map_right_iff, List.forall₂_same]
  exact fun op hop => Operation.implementedBy_stepsOf (hwf op hop)

theorem Translates.wellFormed {p : ModifierProgram ℝ}
    (h : p.Translates c.numQubits c.operations) (hc : c.Recorded) :
    ∀ s ∈ p.gates.map gateStep ++ c.measuredQubits.map .measure, s.WellFormed c.numQubits := by
  refine List.forall_mem_append.mpr ⟨List.forall_mem_map.mpr ?_, List.forall_mem_map.mpr ?_⟩
  · exact h.wellFormed_gateStep
  · exact Circuit.measuredQubits_lt hc

/-- **A modifier program reports the bits the log leaves.** -/
theorem Translates.runFrom_eq {p : ModifierProgram ℝ}
    (h : p.Translates c.numQubits c.operations) (hc : c.Recorded)
    (hclassical : ∀ op ∈ c.operations, op.isClassical = true)
    (hmeasures : c.hasMeasurements = true) (hn : c.numQubits < 64) {maxQubits : Nat}
    (hmax : c.numQubits ≤ maxQubits)
    {σ : Type} [DrawSource σ ℝ] {draws : σ} (hdraws : DrawSource.InUnit draws) (shots : Nat) :
    runFrom maxQubits draws
        ⟨c.numQubits, p.gates.map gateStep ++ p.measuredQubits.map .measure⟩ shots =
      .ok (Counts.allOn (bitstring c.measuredQubits c.execute.bits) shots) := by
  have hsome := Circuit.measuredQubits_ne_nil hc hmeasures
  rw [h.measuredQubits_eq hc, Circuit.reportedQubits_of_measured hc hsome]
  let low : LoweredCircuit (Amplitude ℝ) :=
    ⟨c.numQubits, p.gates.map gateStep ++ c.measuredQubits.map .measure⟩
  have hgates : ∀ s ∈ p.gates.map gateStep, s.measured? = none :=
    List.forall_mem_map.mpr fun _ _ => rfl
  have hmeasured : low.measuredQubits = c.measuredQubits :=
    measuredQubits_gateSteps (Circuit.pairwise_measuredQubits hc)
  have hbits := h.hasBits hc hclassical
  have hend : (applyGates (zero c.numQubits) low.steps).HasBits c.execute.bits := by
    rwa [applyGates_append, applyGates_map_measure]
  have hrun := runFrom_eq_ok hn (h.wellFormed hc) (hmeasured ▸ hsome) hend
    (fun draws hdraws => exists_shot_terminal hgates hbits c.measuredQubits _ hdraws) hmax hdraws
    shots
  rw [hrun, hmeasured]
  congr 2
  exact bitstring_eq_iff.mpr fun q hq => if_pos hq

end ModifierProgram

/-! ## 3. Runs -/

namespace Native

/-- Assembly programs, moment circuits and functor programs implement the log. -/
theorem exists_implements [AngleLabel ℝ] (hc : c.Recorded)
    (hclassical : ∀ op ∈ c.operations, op.isClassical = true) {backend : Backend}
    (hbackend : backend ∈ [.qiskit, .cirq, .qsharp]) :
    ∃ native low, ofCircuit backend c = .ok native ∧ native.lower = .ok low ∧
      LoweredCircuit.Implements low c := by
  have hcases : backend = .qiskit ∨ backend = .cirq ∨ backend = .qsharp := by
    simpa using hbackend
  rcases hcases with rfl | rfl | rfl
  · obtain ⟨a, low, ha, hlow, himplements⟩ := Assembly.exists_implements hc
    exact ⟨.assembly a, low, map_eq_ok.mpr ⟨a, ha, rfl⟩, hlow, himplements⟩
  · obtain ⟨m, hm⟩ := MomentCircuit.exists_ofCircuit hc hclassical .cirq
    obtain ⟨low, hlow, himplements⟩ := MomentCircuit.lower_implements hc hm
    exact ⟨.moments m, low, map_eq_ok.mpr ⟨m, hm, rfl⟩, hlow, himplements⟩
  · obtain ⟨p, hp⟩ := FunctorProgram.exists_ofCircuit hc hclassical
    obtain ⟨low, hlow, himplements⟩ := FunctorProgram.lower_implements hc hp
    exact ⟨.functors p, low, map_eq_ok.mpr ⟨p, hp, rfl⟩, hlow, himplements⟩

/-- **Assembly programs, moment circuits and functor programs report the values the qubits had
    when they were last measured**, as long as an index of the state is a word.  From 64 qubits
    on, a limit that admits them does not make them run. -/
theorem runs_in_order [AngleLabel ℝ] (hc : c.Recorded)
    (hclassical : ∀ op ∈ c.operations, op.isClassical = true) (hmeasures : c.hasMeasurements = true)
    {backend : Backend} (hbackend : backend ∈ [.qiskit, .cirq, .qsharp]) {maxQubits : Nat}
    (hmax : c.numQubits ≤ maxQubits) :
    ∃ native low, ofCircuit backend c = .ok native ∧ native.lower = .ok low ∧
      ∀ {σ : Type} [DrawSource σ ℝ] (draws : σ) (shots : Nat),
        (c.numQubits < 64 → DrawSource.InUnit draws → runFrom maxQubits draws low shots =
          .ok (Counts.allOn (bitstring c.measuredQubits c.execute.outcomes) shots)) ∧
        (64 ≤ c.numQubits →
          runFrom maxQubits draws low shots = .error (.machine .overflow)) := by
  obtain ⟨native, low, hnative, hlow, himplements⟩ := exists_implements hc hclassical hbackend
  refine ⟨native, low, hnative, hlow, fun draws shots => ⟨fun hn hdraws => ?_, fun hlarge => ?_⟩⟩
  · exact himplements.runFrom_eq hc hclassical hmeasures hn hmax hdraws shots
  · exact himplements.runFrom_of_large hc hmeasures hlarge hmax draws shots

/-- Qubits that are measured, used and measured again. -/
def reuse : Circuit ℝ where
  numQubits := 3
  operations := [⟨.x, [[2]], []⟩, ⟨.measure, [[2]], []⟩, ⟨.cx, [[2], [0]], []⟩,
    ⟨.measure, [[0]], []⟩, ⟨.swap, [[1], [2]], []⟩,
    ⟨.mcx, [[0, 2], [1]], [.count 2, .mode .noAncilla]⟩, ⟨.measure, [[2]], []⟩]

theorem recorded_reuse : reuse.Recorded := by
  refine Circuit.recorded_iff.mpr ⟨by decide, ?_⟩
  simp only [reuse, List.forall_mem_cons]
  refine ⟨⟨by decide, by decide, rfl, rfl, by simp⟩, ⟨by decide, by decide, rfl, rfl, by simp⟩,
    ⟨by decide, by decide, rfl, rfl, by simp⟩, ⟨by decide, by decide, rfl, rfl, by simp⟩,
    ⟨by decide, by decide, rfl, rfl, by simp⟩,
    ⟨by decide, by decide, rfl, rfl, by simp [Param.Fits, Operation.controls]⟩,
    ⟨by decide, by decide, rfl, rfl, by simp⟩, by simp⟩

theorem measuredQubits_reuse : reuse.measuredQubits = [0, 2] := by
  simp [reuse, Circuit.measuredQubits, Circuit.measuredBy, ascending, Operation.qubits,
    List.mergeSort, List.MergeSort.Internal.splitInTwo, List.eraseDups_cons]

noncomputable def falling (k : Nat) : ℝ := 1 / ((k + 2 : Nat) : ℝ)

theorem falling_inUnit : DrawSource.InUnit falling := by
  refine DrawSource.inUnit_sequence fun k => ⟨by unfold falling; positivity, ?_⟩
  rw [falling, div_lt_one (by positivity)]
  exact Nat.one_lt_cast.mpr (by omega)

theorem runs_in_order_reuse :
    letI : AngleLabel ℝ := ⟨fun _ => ""⟩
    reuse.Recorded ∧ ∃ native low, ofCircuit .cirq reuse = .ok native ∧ native.lower = .ok low ∧
      runFrom 24 falling low 100 = .ok (Counts.allOn "10" 100) := by
  let _ : AngleLabel ℝ := ⟨fun _ => ""⟩
  have hreported : bitstring reuse.measuredQubits reuse.execute.outcomes = "10" := by
    rw [measuredQubits_reuse]; rfl
  have hbackend : Backend.cirq ∈ [Backend.qiskit, .cirq, .qsharp] := by decide
  have hmax : reuse.numQubits ≤ 24 := by decide
  obtain ⟨native, low, hnative, hlow, hruns⟩ := runs_in_order recorded_reuse (by decide)
    (by decide) hbackend hmax
  obtain ⟨hrun, -⟩ := hruns falling 100
  rw [hreported] at hrun
  exact ⟨recorded_reuse, native, low, hnative, hlow, hrun (by decide) falling_inUnit⟩

/-- Two measured qubits whose bits are 64 positions apart, the higher one flipped. -/
def farApart : Circuit ℝ where
  numQubits := 65
  operations := [⟨.x, [[64]], []⟩, ⟨.measure, [[0]], []⟩, ⟨.measure, [[64]], []⟩]

theorem recorded_farApart : farApart.Recorded := by
  refine Circuit.recorded_iff.mpr ⟨by decide, ?_⟩
  simp only [farApart, List.forall_mem_cons]
  exact ⟨⟨by decide, by decide, rfl, rfl, by simp⟩, ⟨by decide, by decide, rfl, rfl, by simp⟩,
    ⟨by decide, by decide, rfl, rfl, by simp⟩, by simp⟩

/-- A limit of as many qubits admits them, but they do not run. -/
theorem farApart_overflows :
    letI : AngleLabel ℝ := ⟨fun _ => ""⟩
    farApart.Recorded ∧ (∀ op ∈ farApart.operations, op.isClassical = true) ∧
      farApart.hasMeasurements = true ∧ farApart.numQubits ≤ 65 ∧
      bitstring farApart.measuredQubits farApart.execute.outcomes = "01" ∧
      ∀ backend ∈ [.qiskit, .cirq, .qsharp],
        ∃ native low, ofCircuit backend farApart = .ok native ∧ native.lower = .ok low ∧
          ∀ draws : Nat → ℝ, runFrom 65 draws low 3 = .error (.machine .overflow) := by
  let _ : AngleLabel ℝ := ⟨fun _ => ""⟩
  have hmeasured : farApart.measuredQubits = [0, 64] := by
    simp [farApart, Circuit.measuredQubits, Circuit.measuredBy, ascending, Operation.qubits,
      List.mergeSort, List.MergeSort.Internal.splitInTwo, List.eraseDups_cons]
  have hclassical : ∀ op ∈ farApart.operations, op.isClassical = true := by decide
  refine ⟨recorded_farApart, hclassical, by decide, by decide, by rw [hmeasured]; rfl,
    fun backend hbackend => ?_⟩
  obtain ⟨native, low, hnative, hlow, himplements⟩ :=
    exists_implements recorded_farApart hclassical hbackend
  exact ⟨native, low, hnative, hlow, fun draws =>
    himplements.runFrom_of_large recorded_farApart (by decide) (by decide) (by decide) draws 3⟩

/-- **A modifier program reports the values the qubits have in the end**, and so what the log
    says exactly if every measured qubit ends with the value it was last measured with. -/
theorem modifiers_run_to_the_end [AngleLabel ℝ] (hc : c.Recorded)
    (hclassical : ∀ op ∈ c.operations, op.isClassical = true)
    (hmeasures : c.hasMeasurements = true) (hn : c.numQubits < 64) {maxQubits : Nat}
    (hmax : c.numQubits ≤ maxQubits)
    {σ : Type} [DrawSource σ ℝ] {draws : σ} (hdraws : DrawSource.InUnit draws) (shots : Nat) :
    ∃ native low, ofCircuit .braket c = .ok native ∧ native.lower = .ok low ∧
      runFrom maxQubits draws low shots =
        .ok (Counts.allOn (bitstring c.measuredQubits c.execute.bits) shots) ∧
      (0 < shots → (runFrom maxQubits draws low shots =
          .ok (Counts.allOn (bitstring c.measuredQubits c.execute.outcomes) shots) ↔
        ∀ q ∈ c.measuredQubits, c.execute.bits q = c.execute.outcomes q)) := by
  obtain ⟨p, hp⟩ := ModifierProgram.exists_ofCircuit hc hclassical
  have htranslates := ModifierProgram.translates_ofCircuit hc hp
  have hrun := htranslates.runFrom_eq hc hclassical hmeasures hn hmax hdraws shots
  refine ⟨.modifiers p, _, map_eq_ok.mpr ⟨p, hp, rfl⟩, htranslates.lower_eq, hrun, fun hpos => ?_⟩
  rw [hrun, Except.ok.injEq, Counts.allOn_inj hpos, bitstring_eq_iff]

theorem modifiers_run_to_the_end_reuse :
    letI : AngleLabel ℝ := ⟨fun _ => ""⟩
    reuse.Recorded ∧ ∃ native low, ofCircuit .braket reuse = .ok native ∧ native.lower = .ok low ∧
      runFrom 24 falling low 100 = .ok (Counts.allOn "10" 100) := by
  let _ : AngleLabel ℝ := ⟨fun _ => ""⟩
  have hreported : bitstring reuse.measuredQubits reuse.execute.bits = "10" := by
    rw [measuredQubits_reuse]; rfl
  have hn : reuse.numQubits < 64 := by decide
  have hmax : reuse.numQubits ≤ 24 := by decide
  obtain ⟨native, low, hnative, hlow, hrun, -⟩ := modifiers_run_to_the_end recorded_reuse
    (by decide) (by decide) hn hmax falling_inUnit 100
  rw [hreported] at hrun
  exact ⟨recorded_reuse, native, low, hnative, hlow, hrun⟩

def measuredThenFlipped : Circuit ℝ where
  numQubits := 1
  operations := [⟨.measure, [[0]], []⟩, ⟨.x, [[0]], []⟩]

theorem recorded_measuredThenFlipped : measuredThenFlipped.Recorded := by
  refine Circuit.recorded_iff.mpr ⟨by decide, ?_⟩
  simp only [measuredThenFlipped, List.forall_mem_cons]
  exact ⟨⟨by decide, by decide, rfl, rfl, by simp⟩, ⟨by decide, by decide, rfl, rfl, by simp⟩,
    by simp⟩

/-- A modifier program reports a flip that comes after the measurement. -/
theorem flip_after_measurement_reported :
    letI : AngleLabel ℝ := ⟨fun _ => ""⟩
    measuredThenFlipped.Recorded ∧
      (∀ op ∈ measuredThenFlipped.operations, op.isClassical = true) ∧
      bitstring measuredThenFlipped.measuredQubits measuredThenFlipped.execute.outcomes = "0" ∧
      ∃ native low, ofCircuit .braket measuredThenFlipped = .ok native ∧ native.lower = .ok low ∧
        ∀ draws : Nat → ℝ, DrawSource.InUnit draws →
          runFrom 24 draws low 3 = .ok (Counts.allOn "1" 3) ∧
            runFrom 24 draws low 3 ≠ .ok (Counts.allOn "0" 3) := by
  let _ : AngleLabel ℝ := ⟨fun _ => ""⟩
  have hmeasured : measuredThenFlipped.measuredQubits = [0] := by
    simp [measuredThenFlipped, Circuit.measuredQubits, Circuit.measuredBy, ascending,
      Operation.qubits, List.eraseDups_cons]
  have hreported : bitstring measuredThenFlipped.measuredQubits measuredThenFlipped.execute.bits =
      "1" := by rw [hmeasured]; rfl
  have hclassical : ∀ op ∈ measuredThenFlipped.operations, op.isClassical = true := by decide
  obtain ⟨p, hp⟩ := ModifierProgram.exists_ofCircuit recorded_measuredThenFlipped hclassical
  have htranslates := ModifierProgram.translates_ofCircuit recorded_measuredThenFlipped hp
  refine ⟨recorded_measuredThenFlipped, hclassical, by rw [hmeasured]; rfl, .modifiers p, _,
    map_eq_ok.mpr ⟨p, hp, rfl⟩, htranslates.lower_eq, fun draws hdraws => ?_⟩
  have hn : measuredThenFlipped.numQubits < 64 := by decide
  have hmax : measuredThenFlipped.numQubits ≤ 24 := by decide
  have hrun := htranslates.runFrom_eq recorded_measuredThenFlipped hclassical (by decide) hn
    hmax hdraws 3
  rw [hreported] at hrun
  rw [hrun]
  exact ⟨rfl, fun h => absurd ((Counts.allOn_inj (by decide)).mp (Except.ok.inj h)) (by decide)⟩

end Native

end CircuitBroker
