/-
  CircuitBroker/Proofs/Native/Measured.lean
  =========================================
  **Everyone agrees on the measured qubits.**

  Each form of a circuit finds its measured qubits in a way of its own: in the instructions, in
  the moments, in a list kept ascending, in the steps it is lowered to.  A lowering measures what
  it lowers, and what covers a log measures what the log does, so all these lists are the
  circuit's.  Programs for services that always answer for some qubits report every qubit where
  the circuit measures none: `Circuit.reportedQubits`.

  The bitstrings of a run have a character for each of these qubits, in order, and a service is
  told the same list (`measured_agree`).
-/
import CircuitBroker.Proofs.Native.Ion
import CircuitBroker.Proofs.Native.Totality
import CircuitBroker.Proofs.Simulation.Faults

namespace CircuitBroker

variable {R : Type}

/-! ## 1. Lowerings measure what they lower -/

namespace LoweredCircuit

variable {K : Type} {out out' : LoweredCircuit K}

/-- The qubits a lowered circuit measures, in the order of its steps. -/
def measurements (c : LoweredCircuit K) : List Nat := c.steps.filterMap LoweredStep.measured?

@[simp] theorem measurements_measure (q : Nat) :
    (out.measure q).measurements = out.measurements ++ [q] := by
  rw [measurements, measure, List.filterMap_append]
  rfl

@[simp] theorem measurements_foldl_measure (qubits : List Nat) : ∀ out : LoweredCircuit K,
    (qubits.foldl measure out).measurements = out.measurements ++ qubits := by
  induction qubits with
  | nil => exact fun out => (List.append_nil _).symm
  | cons q qs ih =>
    intro out
    rw [List.foldl_cons, ih, measurements_measure, List.append_assoc, List.singleton_append]

theorem measurements_controlled {m : GateMatrix K} {controls targets : List Nat}
    (h : (out.controlled m controls targets : Except (Failure R) _) = .ok out') :
    out'.measurements = out.measurements := by
  rw [controlled] at h
  split at h
  · cases h
  · split at h
    · cases h
    · rw [← Except.ok.inj h, measurements, List.filterMap_append]
      exact List.append_nil _

/-- Where each entry of a program adds its measurements, the program's are all of them. -/
theorem measurements_foldlM {α ε : Type} {f : LoweredCircuit K → α → Except ε (LoweredCircuit K)}
    {measures : α → List Nat} (hstep : ∀ out a out', f out a = .ok out' →
      out'.measurements = out.measurements ++ measures a) {l : List α}
    (h : l.foldlM f out = .ok out') :
    out'.measurements = out.measurements ++ l.flatMap measures := by
  refine foldlM_prefix
    (I := fun done s => s.measurements = out.measurements ++ done.flatMap measures)
    (List.append_nil _).symm (fun a _ done s s' hs hf => ?_) h
  rw [hstep s a s' hf, hs, List.flatMap_append, List.flatMap_singleton, List.append_assoc]

end LoweredCircuit

section Lower

variable [Zero R] [One R] [Add R] [Sub R] [Neg R] [Mul R] [Elementary R]
  {low : LoweredCircuit (Amplitude R)}

/-- **The lowered assembly program measures what the program measures.** -/
theorem Assembly.measuredQubits_lower {a : Assembly R} (h : a.lower = .ok low) :
    low.measuredQubits = a.measuredQubits := by
  have hlow : low.measurements = a.instructions.flatMap (·.measured?.toList) := by
    refine LoweredCircuit.measurements_foldlM (fun out instruction out' hstep => ?_) h
    cases instruction with
    | gate g qubits ancillas =>
      rw [LoweredCircuit.measurements_controlled hstep]
      exact (List.append_nil _).symm
    | barrier qubits =>
      rw [← Except.ok.inj hstep]
      exact (List.append_nil _).symm
    | measure q =>
      rw [← Except.ok.inj hstep]
      exact LoweredCircuit.measurements_measure q
  rw [measuredQubits, List.filterMap_eq_flatMap_toList, ← hlow]
  rfl

omit [Zero R] [One R] [Add R] [Sub R] [Neg R] [Mul R] [Elementary R] in
theorem MomentCircuit.measuredQubits_eq (m : MomentCircuit R) : m.measuredQubits =
    ascending (m.allGates.flatMap fun p => if p.gate.isMeasurement then p.qubits else []) := by
  rw [measuredQubits]
  congr 1
  induction m.allGates with
  | nil => rfl
  | cons p ps ih =>
    rw [List.filter_cons, List.flatMap_cons, ← ih]
    split <;> rfl

omit [Add R] [Sub R] [Mul R] in
/-- **The lowered moment circuit measures what the circuit measures.** -/
theorem MomentCircuit.measuredQubits_lower {m : MomentCircuit R} (h : m.lower = .ok low) :
    low.measuredQubits = m.measuredQubits := by
  have hlow : low.measurements =
      m.allGates.flatMap fun p => if p.gate.isMeasurement then p.qubits else [] := by
    refine LoweredCircuit.measurements_foldlM (fun out p out' hstep => ?_) h
    rw [lowerGate] at hstep
    cases hlowered : p.gate.lowered? with
    | none =>
      rw [hlowered] at hstep
      rw [if_pos (MomentGate.lowered?_eq_none_iff.mp hlowered), ← Except.ok.inj hstep]
      exact LoweredCircuit.measurements_foldl_measure p.qubits out
    | some action =>
      have hgate : ¬ p.gate.isMeasurement = true := by
        rw [← MomentGate.lowered?_eq_none_iff, hlowered]
        simp
      rw [hlowered] at hstep
      rw [if_neg hgate, LoweredCircuit.measurements_controlled hstep, List.append_nil]
  rw [measuredQubits_eq, ← hlow]
  rfl

end Lower

/-! ## 2. Programs measure what their circuit measures -/

section Programs

variable [Zero R] [One R] [Add R] [Sub R] [Neg R] [Mul R] [Elementary R] [Magnitude R]
  {c : Circuit R} (hc : c.Recorded)

include hc

theorem Assembly.measured_lower {a : Assembly R} (h : ofCircuit c = .ok a) :
    a.measuredQubits = c.measuredQubits ∧
      ∃ low, a.lower = .ok low ∧ low.measuredQubits = c.measuredQubits := by
  obtain ⟨low, hlow, hcovers⟩ := lower_covers hc h
  have hmeasured := hcovers.measuredQubits_eq hc
  exact ⟨(measuredQubits_lower hlow).symm.trans hmeasured, low, hlow, hmeasured⟩

theorem FunctorProgram.measured_lower {p : FunctorProgram R} (h : ofCircuit c = .ok p) :
    ∃ low, p.lower = .ok low ∧ low.measuredQubits = c.measuredQubits := by
  obtain ⟨low, hlow, hcovers⟩ := lower_covers hc h
  exact ⟨low, hlow, hcovers.measuredQubits_eq hc⟩

variable [BEq R]

theorem ModifierProgram.measured_lower {p : ModifierProgram R} (h : ofCircuit c = .ok p) :
    p.measuredQubits = c.reportedQubits ∧
      ∃ low, p.lower = .ok low ∧ low.measuredQubits = c.reportedQubits := by
  have htranslates := translates_ofCircuit hc h
  have hmeasured := htranslates.measuredQubits_eq hc
  refine ⟨hmeasured, _, htranslates.lower_eq, ?_⟩
  rw [hmeasured]
  exact measuredQubits_gateSteps (Circuit.pairwise_reportedQubits hc)

variable [AngleLabel R]

theorem MomentCircuit.measured_lower {backend : Backend} {m : MomentCircuit R}
    (h : ofCircuit backend c = .ok m) :
    m.measuredQubits = c.measuredQubits ∧
      ∃ low, m.lower = .ok low ∧ low.measuredQubits = c.measuredQubits := by
  obtain ⟨low, hlow, hcovers⟩ := lower_covers hc h
  have hmeasured := hcovers.measuredQubits_eq hc
  exact ⟨(measuredQubits_lower hlow).symm.trans hmeasured, low, hlow, hmeasured⟩

theorem IonCircuit.measured_lower {ion : IonCircuit R} (h : ofCircuit c = .ok ion) :
    ion.measuredQubits = c.reportedQubits ∧
      ∃ low, ion.lower = .ok low ∧ low.measuredQubits = c.measuredQubits := by
  have hinner := (ofCircuit_eq_ok h).2
  obtain ⟨hmeasured, hlower⟩ := MomentCircuit.measured_lower hc hinner
  exact ⟨measuredQubits_of_inner hc (MomentCircuit.exists_renders hc hinner).1 hmeasured, hlower⟩

/-- A native circuit measures what its circuit does, if not all that its circuit reports. -/
theorem Native.measuredQubits_lower {backend : Backend} {native : Native R}
    (h : ofCircuit backend c = .ok native) {low : LoweredCircuit (Amplitude R)}
    (hlow : native.lower = .ok low) :
    low.measuredQubits = c.measuredQubits ∨ low.measuredQubits = c.reportedQubits := by
  suffices hmeasured : ∃ low, native.lower = .ok low ∧
      (low.measuredQubits = c.measuredQubits ∨ low.measuredQubits = c.reportedQubits) by
    obtain ⟨low', hlow', hmeasured⟩ := hmeasured
    obtain rfl := Except.ok.inj (hlow.symm.trans hlow')
    exact hmeasured
  cases backend with
  | qiskit =>
    obtain ⟨a, ha, rfl⟩ := map_eq_ok.mp h
    obtain ⟨-, low, hlow, hmeasured⟩ := Assembly.measured_lower hc ha
    exact ⟨low, hlow, .inl hmeasured⟩
  | cirq =>
    obtain ⟨m, hm, rfl⟩ := map_eq_ok.mp h
    obtain ⟨-, low, hlow, hmeasured⟩ := MomentCircuit.measured_lower hc hm
    exact ⟨low, hlow, .inl hmeasured⟩
  | ionq =>
    obtain ⟨ion, hion, rfl⟩ := map_eq_ok.mp h
    obtain ⟨-, low, hlow, hmeasured⟩ := IonCircuit.measured_lower hc hion
    exact ⟨low, hlow, .inl hmeasured⟩
  | braket =>
    obtain ⟨p, hp, rfl⟩ := map_eq_ok.mp h
    obtain ⟨-, low, hlow, hmeasured⟩ := ModifierProgram.measured_lower hc hp
    exact ⟨low, hlow, .inr hmeasured⟩
  | qsharp =>
    obtain ⟨p, hp, rfl⟩ := map_eq_ok.mp h
    obtain ⟨low, hlow, hmeasured⟩ := FunctorProgram.measured_lower hc hp
    exact ⟨low, hlow, .inl hmeasured⟩

end Programs

/-! ## 3. Bitstrings of a run -/

theorem Counts.entries_insert {P : String → Prop} {counts : Counts} {bits : String} {n : UInt64}
    (h : ∀ e ∈ counts.entries, P e.1) (hbits : P bits) :
    ∀ e ∈ (counts.insert bits n).entries, P e.1 := by
  obtain ⟨entries⟩ := counts
  change ∀ e ∈ addEntry bits n entries, P e.1
  induction entries with
  | nil => exact List.forall_mem_singleton.mpr hbits
  | cons e es ih =>
    obtain ⟨he, hes⟩ := List.forall_mem_cons.mp h
    rw [addEntry]
    split
    · exact List.forall_mem_cons.mpr ⟨he, hes⟩
    · exact List.forall_mem_cons.mpr ⟨he, ih hes⟩

namespace Simulator

/-- What each shot gives is all that is counted. -/
theorem entries_repeatShots {σ : Type} {P : String → Prop} {one : σ → String × σ}
    (hone : ∀ draws, P (one draws).1) (shots : Nat) : ∀ (draws : σ) (counts : Counts),
      (∀ e ∈ counts.entries, P e.1) → ∀ e ∈ (repeatShots one shots draws counts).entries, P e.1 := by
  induction shots with
  | zero => exact fun _ _ h => h
  | succ shots ih => exact fun draws counts h => ih _ _ (Counts.entries_insert h (hone draws))

/-- **A run counts bitstrings of the measured qubits, of which there are some.** -/
theorem entries_runFrom {σ : Type} [Zero R] [One R] [Add R] [Sub R] [Mul R] [Div R] [Elementary R]
    [Magnitude R] [DrawSource σ R] {maxQubits : Nat} {draws : σ}
    {low : LoweredCircuit (Amplitude R)} {shots : Nat} {counts : Counts}
    (h : runFrom maxQubits draws low shots = .ok counts) : low.measuredQubits ≠ [] ∧
      ∀ e ∈ counts.entries, ∃ outcome, e.1 = bitstring low.measuredQubits outcome := by
  obtain ⟨hsome, rfl⟩ := repeatShots_of_runFrom h
  refine ⟨hsome, entries_repeatShots (P := fun bits => ∃ outcome, bits = bitstring _ outcome)
    (fun draws => ?_) shots draws .empty (fun e he => by cases he)⟩
  rw [oneShot]
  split
  · exact ⟨_, rfl⟩
  · exact ⟨_, rfl⟩

end Simulator

/-! ## 4. Agreement -/

namespace Native

variable {c : Circuit Float}

/-- A run of a native circuit counts bitstrings of the reported qubits. -/
theorem entries_run (hc : c.Recorded) {backend : Backend} {native : Native Float}
    (h : ofCircuit backend c = .ok native) {low : LoweredCircuit (Amplitude Float)}
    (hlow : native.lower = .ok low) {s : Simulator} {shots : Nat} {counts : Counts}
    (hrun : s.run low shots = .ok counts) :
    ∀ e ∈ counts.entries, ∃ outcome, e.1 = Simulator.bitstring c.reportedQubits outcome := by
  obtain ⟨hsome, hentries⟩ := Simulator.entries_runFrom hrun
  suffices hreported : low.measuredQubits = c.reportedQubits from hreported ▸ hentries
  rcases measuredQubits_lower hc h hlow with hmeasured | hreported
  · rw [hmeasured] at hsome ⊢
    exact (Circuit.reportedQubits_of_measured hc hsome).symm
  · exact hreported

/-- A service is told the reported qubits. -/
theorem measured_payload (hc : c.Recorded) {backend : Backend} {native : Native Float}
    (h : ofCircuit backend c = .ok native) {request : ExecutionRequest} {target : String}
    {payload : TaskPayload} (hpayload : IbmBackend.payload native request target = .ok payload ∨
      IonBackend.payload native request target = .ok payload ∨
      BraketBackend.payload native request target = .ok payload) :
    payload.measured = c.reportedQubits := by
  cases backend with
  | qiskit =>
    obtain ⟨a, ha, rfl⟩ := map_eq_ok.mp h
    rcases hpayload with hpayload | hpayload | hpayload
    · rw [IbmBackend.payload] at hpayload
      split at hpayload
      · cases hpayload
      · next hsome =>
        have hmeasured := (Assembly.measured_lower hc ha).1
        rw [← Except.ok.inj hpayload, hmeasured]
        rw [hmeasured, List.isEmpty_iff] at hsome
        exact (Circuit.reportedQubits_of_measured hc hsome).symm
    · cases hpayload
    · cases hpayload
  | cirq =>
    obtain ⟨m, hm, rfl⟩ := map_eq_ok.mp h
    rcases hpayload with hpayload | hpayload | hpayload <;> cases hpayload
  | ionq =>
    obtain ⟨ion, hion, rfl⟩ := map_eq_ok.mp h
    rcases hpayload with hpayload | hpayload | hpayload
    · cases hpayload
    · obtain ⟨document, -, hdocument⟩ := bind_eq_ok.mp hpayload
      rw [← Except.ok.inj hdocument]
      exact (IonCircuit.measured_lower hc hion).1
    · cases hpayload
  | braket =>
    obtain ⟨p, hp, rfl⟩ := map_eq_ok.mp h
    rcases hpayload with hpayload | hpayload | hpayload
    · cases hpayload
    · cases hpayload
    · rw [← Except.ok.inj hpayload]
      exact (ModifierProgram.measured_lower hc hp).1
  | qsharp =>
    obtain ⟨p, hp, rfl⟩ := map_eq_ok.mp h
    rcases hpayload with hpayload | hpayload | hpayload <;> cases hpayload

/-- **Every form of a circuit measures what the circuit does, and what is reported of it is
    measured in the same order.** -/
theorem measured_agree (hc : c.Recorded) :
    c.measuredQubits.Pairwise (· < ·) ∧ (∀ q ∈ c.measuredQubits, q < c.numQubits) ∧
    (c.measuredQubits ≠ [] ↔ c.hasMeasurements = true) ∧
    c.reportedQubits =
      (if c.measuredQubits = [] then List.range c.numQubits else c.measuredQubits) ∧
    (∀ a, Assembly.ofCircuit c = .ok a → a.measuredQubits = c.measuredQubits ∧
      ∃ low, a.lower = .ok low ∧ low.measuredQubits = c.measuredQubits) ∧
    (∀ m, MomentCircuit.ofCircuit .cirq c = .ok m → m.measuredQubits = c.measuredQubits ∧
      ∃ low, m.lower = .ok low ∧ low.measuredQubits = c.measuredQubits) ∧
    (∀ p, FunctorProgram.ofCircuit c = .ok p →
      ∃ low, p.lower = .ok low ∧ low.measuredQubits = c.measuredQubits) ∧
    (∀ p, ModifierProgram.ofCircuit c = .ok p → p.measuredQubits = c.reportedQubits ∧
      ∃ low, p.lower = .ok low ∧ low.measuredQubits = c.reportedQubits) ∧
    (∀ ion, IonCircuit.ofCircuit c = .ok ion → ion.measuredQubits = c.reportedQubits) ∧
    ∀ backend native, ofCircuit backend c = .ok native →
      (∀ low (s : Simulator) shots counts, native.lower = .ok low → s.run low shots = .ok counts →
        ∀ e ∈ counts.entries, ∃ outcome, e.1 = Simulator.bitstring c.reportedQubits outcome) ∧
      ∀ request target payload, (IbmBackend.payload native request target = .ok payload ∨
        IonBackend.payload native request target = .ok payload ∨
        BraketBackend.payload native request target = .ok payload) →
          payload.measured = c.reportedQubits := by
  refine ⟨Circuit.pairwise_measuredQubits hc, Circuit.measuredQubits_lt hc,
    Circuit.measuredQubits_ne_nil_iff hc, ?_, fun a => Assembly.measured_lower hc,
    fun m => MomentCircuit.measured_lower hc, fun p => FunctorProgram.measured_lower hc,
    fun p => ModifierProgram.measured_lower hc,
    fun ion hion => (IonCircuit.measured_lower hc hion).1,
    fun backend native h => ⟨fun low s shots counts hlow hrun => entries_run hc h hlow hrun,
      fun request target payload hpayload => measured_payload hc h hpayload⟩⟩
  split
  · next hnone => exact Circuit.reportedQubits_of_unmeasured hc hnone
  · next hsome => exact Circuit.reportedQubits_of_measured hc hsome

def scattered : Circuit Float where
  numQubits := 4
  operations := [⟨.h, [[3]], []⟩, ⟨.measure, [[3]], []⟩, ⟨.cx, [[3], [1]], []⟩,
    ⟨.measure, [[1]], []⟩, ⟨.x, [[3]], []⟩, ⟨.measure, [[3]], []⟩]

theorem recorded_scattered : scattered.Recorded := by
  refine Circuit.recorded_iff.mpr ⟨by decide, ?_⟩
  simp only [scattered, List.forall_mem_cons]
  refine ⟨⟨by decide, by decide, rfl, rfl, by simp⟩, ⟨by decide, by decide, rfl, rfl, by simp⟩,
    ⟨by decide, by decide, rfl, rfl, by simp⟩, ⟨by decide, by decide, rfl, rfl, by simp⟩,
    ⟨by decide, by decide, rfl, rfl, by simp⟩, ⟨by decide, by decide, rfl, rfl, by simp⟩, by simp⟩

theorem measuredQubits_scattered : scattered.measuredQubits = [1, 3] := by
  simp [scattered, Circuit.measuredQubits, Circuit.measuredBy, ascending, Operation.qubits,
    List.mergeSort, List.eraseDups_cons]

theorem measured_agree_scattered :
    scattered.Recorded ∧ scattered.hasMeasurements = true ∧
      (∃ a, Assembly.ofCircuit scattered = .ok a ∧ a.measuredQubits = [1, 3]) ∧
      (∃ m, MomentCircuit.ofCircuit .cirq scattered = .ok m ∧ m.measuredQubits = [1, 3]) ∧
      ∃ p, ModifierProgram.ofCircuit scattered = .ok p ∧ p.measuredQubits = [1, 3] := by
  obtain ⟨a, ha⟩ : ∃ a, Assembly.ofCircuit scattered = .ok a := ⟨_, rfl⟩
  obtain ⟨m, hm⟩ : ∃ m, MomentCircuit.ofCircuit .cirq scattered = .ok m := ⟨_, rfl⟩
  obtain ⟨p, hp⟩ : ∃ p, ModifierProgram.ofCircuit scattered = .ok p := ⟨_, rfl⟩
  obtain ⟨-, -, hsome, hreported, hassembly, hmoments, -, hmodifiers, -⟩ :=
    measured_agree recorded_scattered
  rw [measuredQubits_scattered] at hsome hreported hassembly hmoments
  refine ⟨recorded_scattered, hsome.mp (by simp), ⟨a, ha, (hassembly a ha).1⟩,
    ⟨m, hm, (hmoments m hm).1⟩, p, hp, ?_⟩
  rw [(hmodifiers p hp).1, hreported]
  rfl

end Native

end CircuitBroker
