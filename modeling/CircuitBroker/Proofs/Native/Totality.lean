/-
  CircuitBroker/Proofs/Native/Totality.lean
  =========================================
  **Recorded circuits are translated and lowered without a fault.**

  Whether a backend has a form for a circuit is decided operation by operation: by the ancillas
  it asks for and, for the trapped-ion service, by its kind.  The first operation that is refused
  decides the error.  What is translated can be lowered, to gates on different qubits of the
  circuit, as many as their matrices act on (`support_decided`).  The contract that every recorded
  operation keeps is what excludes an index out of range on the way.
-/
import CircuitBroker.Native
import CircuitBroker.Proofs.Native.Functors.Forms

namespace CircuitBroker

variable {R : Type}

/-! ## 1. The first refusal -/

def Circuit.FirstAncillas (c : Circuit R) (op : Operation R) (mode : ControlMode) : Prop :=
  ∃ before after, c.operations = before ++ op :: after ∧
    (∀ o ∈ before, ¬ o.NeedsAncillas) ∧ op.ancillaMode? = some mode

theorem Circuit.findSome?_refusal?_eq_none_iff {backend : Backend} {c : Circuit R} :
    c.operations.findSome? (·.refusal? backend) = none ↔
      ∀ op ∈ c.operations, ¬ op.NeedsAncillas := by
  simp only [List.findSome?_eq_none_iff, Operation.refusal?_eq_none_iff]

theorem Circuit.findSome?_refusal?_eq_some_iff {backend : Backend} {c : Circuit R} {e : Failure R} :
    c.operations.findSome? (·.refusal? backend) = some e ↔
      ∃ op mode, c.FirstAncillas op mode ∧
        e = .untranslatable op.gate backend (.needsAncillas mode) := by
  rw [List.findSome?_eq_some_iff]
  constructor
  · rintro ⟨before, op, after, hops, hop, hbefore⟩
    obtain ⟨mode, hmode, he⟩ := Option.map_eq_some_iff.mp hop
    refine ⟨op, mode, ⟨before, after, hops, fun o ho => ?_, hmode⟩, he.symm⟩
    exact Operation.refusal?_eq_none_iff.mp (hbefore o ho)
  · rintro ⟨op, mode, ⟨before, after, hops, hbefore, hmode⟩, rfl⟩
    refine ⟨before, op, after, hops, Option.map_eq_some_iff.mpr ⟨mode, hmode, rfl⟩, fun o ho => ?_⟩
    exact Operation.refusal?_eq_none_iff.mpr (hbefore o ho)

/-! ## 2. The trapped-ion service -/

theorem MomentCircuit.mem_allGates_append {c : MomentCircuit R} {gate : MomentGate R}
    {qubits : List Nat} {p : PlacedGate R} :
    p ∈ (c.append gate qubits).allGates ↔ p ∈ c.allGates ∨ p = ⟨gate, qubits⟩ := by
  rw [(c.allGates_append ⟨gate, qubits⟩).perm.mem_iff, List.mem_append, List.mem_singleton]

/-- A circuit all of whose gates have an entry in a document, or need none. -/
def MomentCircuit.Writable (c : MomentCircuit R) : Prop :=
  ∀ p ∈ c.allGates, ∃ entry, IonGate.ofPlaced? p = .ok entry

theorem MomentCircuit.Writable.append {c : MomentCircuit R} (hc : c.Writable) {gate : MomentGate R}
    {qubits : List Nat} (hgate : ∃ entry, IonGate.ofPlaced? ⟨gate, qubits⟩ = .ok entry) :
    (c.append gate qubits).Writable := by
  intro p hp
  rcases mem_allGates_append.mp hp with hp | rfl
  · exact hc p hp
  · exact hgate

theorem MomentCircuit.Writable.measure (qubits : List Nat) : ∀ {c : MomentCircuit R}, c.Writable →
    (qubits.foldl (fun out q => out.append (.measure ("q(" ++ toString q ++ ")")) [q]) c).Writable := by
  induction qubits with
  | nil => exact fun hc => hc
  | cons q qs ih => exact fun hc => ih (hc.append ⟨none, rfl⟩)

section Ion

variable [Zero R] [One R] [Add R] [Sub R] [Neg R] [Mul R] [BEq R] [Elementary R] [Magnitude R]
  [AngleLabel R]

/-- An operation of a native kind becomes gates that can be written. -/
theorem MomentCircuit.appendOperation_writable {backend : Backend} {out out' : MomentCircuit R}
    {op : Operation R} (hnative : IonCircuit.isNative op.gate = true) (hout : out.Writable)
    (happ : appendOperation backend out op = .ok out') : out'.Writable := by
  cases hkind : op.gate
  case measure =>
    simp only [appendOperation, hkind] at happ
    rw [← Except.ok.inj happ]
    exact hout.measure op.qubits
  case mcx | mct =>
    simp only [appendOperation, hkind] at happ
    split at happ
    · cases happ
    · rw [← Except.ok.inj happ]
      exact hout.append ⟨_, rfl⟩
  case mcxvchain =>
    simp only [appendOperation, hkind] at happ
    cases happ
  case rx | ry | rz =>
    simp only [appendOperation, hkind] at happ
    split at happ
    · rw [← Except.ok.inj happ]
      exact hout.append ⟨_, rfl⟩
    · cases happ
  all_goals first
    | (rw [hkind] at hnative; cases hnative; done)
    | (simp only [appendOperation, hkind] at happ
       rw [← Except.ok.inj happ]
       exact hout.append ⟨_, rfl⟩)

variable {c : Circuit R}

theorem IonCircuit.ofCircuit_eq_ok {ion : IonCircuit R} (h : ofCircuit c = .ok ion) :
    (∀ op ∈ c.operations, isNative op.gate = true) ∧
      MomentCircuit.ofCircuit .ionq c = .ok ion.inner := by
  rw [ofCircuit] at h
  split at h
  · cases h
  · next hnative =>
    obtain ⟨inner, hinner, rfl⟩ := map_eq_ok.mp h
    exact ⟨by simpa [List.find?_eq_none] using hnative, hinner⟩

/-- **A translated circuit has a document.** -/
theorem IonCircuit.document_eq_ok {ion : IonCircuit R} (h : ofCircuit c = .ok ion) :
    ∃ document, ion.document = .ok document := by
  obtain ⟨hnative, hinner⟩ := ofCircuit_eq_ok h
  have hwritable : ion.inner.Writable :=
    foldlM_prefix (I := fun _ out => out.Writable) (fun _ hp => by cases hp)
      (fun op hop _ _ _ hout happ =>
        MomentCircuit.appendOperation_writable (hnative op hop) hout happ) hinner
  obtain ⟨gates, hgates⟩ := exists_mapM_ok hwritable
  exact ⟨_, bind_eq_ok.mpr ⟨gates, hgates, rfl⟩⟩

theorem IonCircuit.ofCircuit_cases (hR : LibraryPasses R) (hc : c.Recorded) :
    ((∃ ion, ofCircuit c = .ok ion) ↔
      ∀ op ∈ c.operations, ¬ op.NeedsAncillas ∧ isNative op.gate = true) ∧
    ∀ e, ofCircuit c = .error e →
      ∃ op ∈ c.operations, ∃ gap, e = .untranslatable op.gate .ionq gap := by
  have hmoments : Settled (c.operations.findSome? (·.refusal? .ionq))
      (MomentCircuit.ofCircuit .ionq c) := MomentCircuit.ofCircuit_settled hR hc
  rw [ofCircuit]
  cases hfind : c.operations.find? (!isNative ·.gate) with
  | some op =>
    have hop := List.mem_of_find?_eq_some hfind
    have hforeign := List.find?_some hfind
    refine ⟨⟨nofun, fun hall => ?_⟩, fun e he => ?_⟩
    · rw [(hall op hop).2] at hforeign
      cases hforeign
    · exact ⟨op, hop, .notIonNative, (Except.error.inj he).symm⟩
  | none =>
    have hnative : ∀ op ∈ c.operations, isNative op.gate = true := by
      simpa [List.find?_eq_none] using hfind
    constructor
    · rw [(hmoments.map IonCircuit.mk).ok_iff, Circuit.findSome?_refusal?_eq_none_iff]
      exact forall₂_congr fun op hop => (and_iff_left (hnative op hop)).symm
    · intro e he
      rw [(hmoments.map IonCircuit.mk).error_iff, Circuit.findSome?_refusal?_eq_some_iff] at he
      obtain ⟨op, mode, ⟨before, after, hops, -⟩, rfl⟩ := he
      exact ⟨op, by rw [hops]; simp, _, rfl⟩

end Ion

/-! ## 3. All backends -/

namespace Native

variable [Zero R] [One R] [Add R] [Sub R] [Neg R] [Mul R] [BEq R] [Elementary R] [Magnitude R]
  [AngleLabel R] {c : Circuit R}

theorem ofCircuit_settled (hR : LibraryPasses R) (hc : c.Recorded) {backend : Backend}
    (hbackend : backend ∈ [.cirq, .braket, .qsharp]) :
    Settled (c.operations.findSome? (·.refusal? backend)) (ofCircuit backend c) := by
  have hcases : backend = .cirq ∨ backend = .braket ∨ backend = .qsharp := by
    simpa using hbackend
  rcases hcases with rfl | rfl | rfl
  · exact (MomentCircuit.ofCircuit_settled hR hc).map _
  · exact (ModifierProgram.ofCircuit_settled hR hc).map _
  · exact (FunctorProgram.ofCircuit_settled hc).map _

theorem ion_of_ofCircuit {backend : Backend} {ion : IonCircuit R}
    (h : ofCircuit backend c = .ok (.ion ion)) : IonCircuit.ofCircuit c = .ok ion := by
  cases backend with
  | ionq =>
    obtain ⟨ion', hion, heq⟩ := map_eq_ok.mp h
    cases heq
    exact hion
  | _ =>
    obtain ⟨_, _, heq⟩ := map_eq_ok.mp h
    cases heq

/-- **What is translated can be lowered.** -/
theorem exists_lower (hc : c.Recorded) {backend : Backend} {native : Native R}
    (h : ofCircuit backend c = .ok native) : ∃ low, native.lower = .ok low ∧
      low.numQubits = c.numQubits ∧ ∀ s ∈ low.steps, s.WellFormed low.numQubits := by
  -- Form by form; the programs with modifiers alone move the measurements.
  cases backend with
  | qiskit =>
    obtain ⟨a, ha, rfl⟩ := map_eq_ok.mp h
    obtain ⟨low, hlow, hcovers⟩ := Assembly.lower_covers hc ha
    exact ⟨low, hlow, hcovers.1, hcovers.wellFormed⟩
  | cirq =>
    obtain ⟨m, hm, rfl⟩ := map_eq_ok.mp h
    obtain ⟨low, hlow, hcovers⟩ := MomentCircuit.lower_covers hc hm
    exact ⟨low, hlow, hcovers.1, hcovers.wellFormed⟩
  | ionq =>
    obtain ⟨ion, hion, rfl⟩ := map_eq_ok.mp h
    obtain ⟨low, hlow, hcovers⟩ :=
      MomentCircuit.lower_covers hc (IonCircuit.ofCircuit_eq_ok hion).2
    exact ⟨low, hlow, hcovers.1, hcovers.wellFormed⟩
  | braket =>
    obtain ⟨p, hp, rfl⟩ := map_eq_ok.mp h
    have htranslates := ModifierProgram.translates_ofCircuit hc hp
    refine ⟨_, htranslates.lower_eq, rfl, fun s hs => ?_⟩
    rcases List.mem_append.mp hs with hs | hs
    · obtain ⟨placed, hplaced, rfl⟩ := List.mem_map.mp hs
      exact htranslates.wellFormed_gateStep placed hplaced
    · obtain ⟨q, hq, rfl⟩ := List.mem_map.mp hs
      exact Circuit.reportedQubits_lt hc q (htranslates.measuredQubits_eq hc ▸ hq)
  | qsharp =>
    obtain ⟨p, hp, rfl⟩ := map_eq_ok.mp h
    obtain ⟨low, hlow, hcovers⟩ := FunctorProgram.lower_covers hc hp
    exact ⟨low, hlow, hcovers.1, hcovers.wellFormed⟩

/-- **Support is decided by kind and mode, and what is supported can be lowered.** -/
theorem support_decided (hR : LibraryPasses R) (hc : c.Recorded) :
    (∃ native, ofCircuit .qiskit c = .ok native) ∧
    (∀ backend ∈ [.cirq, .braket, .qsharp],
      ((∃ native, ofCircuit backend c = .ok native) ↔
        ∀ op ∈ c.operations, ¬ op.NeedsAncillas) ∧
      ∀ e, ofCircuit backend c = .error e ↔ ∃ op mode, c.FirstAncillas op mode ∧
        e = .untranslatable op.gate backend (.needsAncillas mode)) ∧
    ((∃ native, ofCircuit .ionq c = .ok native) ↔
      ∀ op ∈ c.operations, ¬ op.NeedsAncillas ∧ IonCircuit.isNative op.gate = true) ∧
    (∀ e, ofCircuit .ionq c = .error e →
      ∃ op ∈ c.operations, ∃ gap, e = .untranslatable op.gate .ionq gap) ∧
    ∀ backend native, ofCircuit backend c = .ok native →
      (∃ low, native.lower = .ok low ∧ low.numQubits = c.numQubits ∧
        ∀ m targets controls, .gate m targets controls ∈ low.steps →
          targets.length = m.numQubits ∧ (∀ q ∈ controls ++ targets, q < low.numQubits) ∧
            (controls ++ targets).Nodup) ∧
      ∀ ion, native = .ion ion → ∃ document, ion.document = .ok document := by
  refine ⟨?_, fun backend hbackend => ?_, ?_, fun e he => ?_, fun backend native h => ⟨?_, ?_⟩⟩
  · obtain ⟨a, ha, -⟩ := Assembly.lower_ofCircuit hc
    exact ⟨.assembly a, map_eq_ok.mpr ⟨a, ha, rfl⟩⟩
  · have hsettled := ofCircuit_settled hR hc hbackend
    rw [hsettled.ok_iff, Circuit.findSome?_refusal?_eq_none_iff]
    refine ⟨Iff.rfl, fun e => ?_⟩
    rw [hsettled.error_iff, Circuit.findSome?_refusal?_eq_some_iff]
  · rw [← (IonCircuit.ofCircuit_cases hR hc).1]
    exact exists_map_eq_ok
  · exact (IonCircuit.ofCircuit_cases hR hc).2 e (map_eq_error.mp he)
  · obtain ⟨low, hlow, hn, hwf⟩ := exists_lower hc h
    refine ⟨low, hlow, hn, fun m targets controls hmem => ?_⟩
    have hgate : m.Applicable targets controls low.numQubits := hwf _ hmem
    exact ⟨(hgate.onQubits.numQubits_eq hgate.few).symm, hgate.lt, hgate.nodup⟩
  · rintro ion rfl
    exact IonCircuit.document_eq_ok (ion_of_ofCircuit h)

def recursive : Operation ℝ := ⟨.mct, [[3, 1, 4], [0], [2]], [.count 3, .mode .recursion]⟩

def flips : Circuit ℝ where
  numQubits := 5
  operations := [⟨.h, [[0]], []⟩, ⟨.mcx, [[0, 2], [1], []], [.count 2, .mode .noAncilla]⟩,
    recursive, ⟨.measureAll, [], []⟩]

theorem recorded_flips : flips.Recorded := by
  refine Circuit.recorded_iff.mpr ⟨by decide, ?_⟩
  simp only [flips, recursive, List.forall_mem_cons]
  refine ⟨⟨by decide, by decide, rfl, rfl, by simp⟩,
    ⟨by decide, by decide, rfl, rfl, by simp [Param.Fits, Operation.controls]⟩,
    ⟨by decide, by decide, rfl, rfl, by simp [Param.Fits, Operation.controls]⟩,
    ⟨by decide, by decide, rfl, rfl, by simp⟩, by simp⟩

theorem support_decided_flips :
    letI : AngleLabel ℝ := ⟨fun _ => ""⟩
    LibraryPasses ℝ ∧ flips.Recorded ∧
      (∃ native, ofCircuit .qiskit flips = .ok native ∧ ∃ low, native.lower = .ok low) ∧
      (∀ backend ∈ [.cirq, .braket, .qsharp],
        ofCircuit backend flips = .error (.untranslatable .mct backend (.needsAncillas .recursion))) ∧
      ¬ ∃ native, ofCircuit .ionq flips = .ok native := by
  let _ : AngleLabel ℝ := ⟨fun _ => ""⟩
  obtain ⟨⟨native, hqiskit⟩, hrefuse, hion, -, hlower⟩ :=
    support_decided libraryPasses recorded_flips
  refine ⟨libraryPasses, recorded_flips, ⟨native, hqiskit, ?_⟩, fun backend hbackend => ?_, ?_⟩
  · obtain ⟨⟨low, hlow, -⟩, -⟩ := hlower .qiskit native hqiskit
    exact ⟨low, hlow⟩
  · exact ((hrefuse backend hbackend).2 _).mpr
      ⟨recursive, .recursion, ⟨[_, _], [_], rfl, by decide, rfl⟩, rfl⟩
  · rw [hion]
    intro hall
    exact (hall recursive (by simp [flips])).1 (by decide)

end Native

end CircuitBroker
