/-
  CircuitBroker/Proofs/Native/Ion.lean
  ====================================
  **What a document of the trapped-ion service does to bits.**

  A document is read here as the service reads it: entry after entry, each a flip or an
  exchange of the qubits it names.  It holds no measurements; the service looks at the qubits
  when all is done, and the measured ones are picked out of what it finds.

  So a document reports the values the qubits have in the end (`document_runs_to_the_end`),
  although its entries stand in the order of the moments, which is not that of the log.
-/
import CircuitBroker.Execution.Adapter
import CircuitBroker.Proofs.Circuit.Execution
import CircuitBroker.Proofs.Circuit.Measured
import CircuitBroker.Proofs.Json.RoundTrip
import CircuitBroker.Proofs.Native.Moments.Schedule
import CircuitBroker.Proofs.Simulation.Shots

namespace CircuitBroker

variable {R : Type}

/-! ## 1. Reading a document -/

namespace Json

def natural? : Json → Option Nat
  | .number (.natural n) => some n
  | _ => none

/-- A field that may be missing, but not hold something else. -/
def fieldIfAny? {α : Type} (name : String) (read : Json → Option α) (j : Json) :
    Option (Option α) :=
  match j.field? name with
  | some value => (read value).map some
  | none => some none

theorem lookup_append (name : String) (fields fields' : List (String × Json)) :
    lookup name (fields ++ fields') = (lookup name fields).or (lookup name fields') := by
  simp [lookup, List.find?_append, Option.map_or]

theorem lookup_toList (name name' : String) (value : Option Json) :
    lookup name (value.map fun v => (name', v)).toList = if name' == name then value else none := by
  cases value with
  | none => simp [lookup]
  | some v => by_cases h : name' == name <;> simp [lookup, h]

theorem fieldIfAny?_eq {α : Type} {name : String} {read : Json → Option α} {write : α → Json}
    {value : Option α} {j : Json} (hfield : j.field? name = value.map write)
    (hread : ∀ a, read (write a) = some a) : j.fieldIfAny? name read = some value := by
  unfold fieldIfAny?
  rw [hfield]
  rcases value with _ | a
  · rfl
  · exact congrArg (Option.map some) (hread a)

theorem listOf?_natural (numbers : List Nat) :
    (Json.array (numbers.map .ofNat)).listOf? natural? = some numbers :=
  listOf?_map fun _ _ => rfl

end Json

namespace IonGate

def controlQubits (g : IonGate R) : List Nat := g.control.toList ++ g.controls.getD []

def targetQubits (g : IonGate R) : List Nat := g.target.toList ++ g.targets.getD []

/-- The bits after an entry, if it is a flip or an exchange of different qubits that are
    there. -/
def executeBits? (numQubits : Nat) (bits : Nat → Bool) (g : IonGate R) : Option (Nat → Bool) :=
  let qubits := g.controlQubits ++ g.targetQubits
  if qubits.Nodup ∧ ∀ q ∈ qubits, q < numQubits then
    match g.gate, g.controlQubits, g.targetQubits with
    | "x", controls, [target] => some (Register.flip controls target bits)
    | "cnot", [control], [target] => some (Register.flip [control] target bits)
    | "swap", controls, [a, b] => some (Register.exchange controls a b bits)
    | _, _, _ => none
  else none

def ofJson? (entry : Json) : Option (IonGate Float) := do
  let gate ← (← entry.field? "gate").toString?
  let target ← entry.fieldIfAny? "target" Json.natural?
  let targets ← entry.fieldIfAny? "targets" (Json.listOf? Json.natural?)
  let control ← entry.fieldIfAny? "control" Json.natural?
  let controls ← entry.fieldIfAny? "controls" (Json.listOf? Json.natural?)
  let rotation ← entry.fieldIfAny? "rotation" Json.toFloat?
  return ⟨gate, target, targets, control, controls, rotation⟩

/-- **A gate without an angle is read as it was written.** -/
theorem ofJson?_toJson (g : IonGate Float) (h : g.rotation = none) : ofJson? g.toJson = some g := by
  have hfields : g.toJson.field? "gate" = some (.string g.gate) ∧
      g.toJson.field? "target" = g.target.map .ofNat ∧
      g.toJson.field? "targets" = g.targets.map (fun qubits => .array (qubits.map .ofNat)) ∧
      g.toJson.field? "control" = g.control.map .ofNat ∧
      g.toJson.field? "controls" = g.controls.map (fun qubits => .array (qubits.map .ofNat)) ∧
      g.toJson.field? "rotation" = g.rotation.map .ofFloat := by
    have hgate : ∀ name, Json.lookup name [("gate", Json.string g.gate)] =
        if "gate" == name then some (.string g.gate) else none :=
      fun name => Json.lookup_toList name "gate" (some (.string g.gate))
    simp only [toJson, Json.field?, Json.lookup_append, Json.lookup_toList, hgate]
    simp
  obtain ⟨hgate, htarget, htargets, hcontrol, hcontrols, hrotation⟩ := hfields
  rw [h] at hrotation
  rw [ofJson?, hgate, Json.fieldIfAny?_eq htarget fun _ => rfl,
    Json.fieldIfAny?_eq htargets Json.listOf?_natural, Json.fieldIfAny?_eq hcontrol fun _ => rfl,
    Json.fieldIfAny?_eq hcontrols Json.listOf?_natural, Json.fieldIfAny?, hrotation]
  change some (IonGate.mk g.gate g.target g.targets g.control g.controls none) = some g
  rw [← h]

end IonGate

def IonDocument.executeBits? (document : Json) : Option (Nat → Bool) := do
  let numQubits ← (← document.field? "qubits").natural?
  let entries ← (← document.field? "circuit").toList?
  let gates ← entries.mapM IonGate.ofJson?
  gates.foldlM (IonGate.executeBits? numQubits) fun _ => false

theorem IonDocument.executeBits?_toJson (d : IonDocument Float)
    (h : ∀ g ∈ d.gates, g.rotation = none) :
    executeBits? d.toJson = d.gates.foldlM (IonGate.executeBits? d.numQubits) fun _ => false := by
  have hread : (d.gates.map IonGate.toJson).mapM IonGate.ofJson? = some d.gates := by
    obtain ⟨numQubits, gates⟩ := d
    induction gates with
    | nil => rfl
    | cons g gates ih =>
      obtain ⟨hg, hgates⟩ := List.forall_mem_cons.mp h
      rw [List.map_cons, List.mapM_cons, IonGate.ofJson?_toJson g hg, ih hgates]
      rfl
  simp [executeBits?, toJson, Json.field?, Json.lookup, Json.ofNat, Json.natural?, Json.toList?,
    hread]

/-! ## 2. What is written for an operation -/

namespace IonGate

variable {g : IonGate R} {n a b target : Nat} {controls : List Nat}

theorem executeBits?_flip (hnodup : (controls ++ [target]).Nodup)
    (hlt : ∀ q ∈ controls ++ [target], q < n) (hcontrols : g.controlQubits = controls)
    (htargets : g.targetQubits = [target])
    (hgate : g.gate = "x" ∨ g.gate = "cnot" ∧ controls.length = 1) (bits : Nat → Bool) :
    g.executeBits? n bits = some (Register.flip controls target bits) := by
  unfold executeBits?
  rw [hcontrols, htargets]
  dsimp only
  rw [if_pos ⟨hnodup, hlt⟩]
  rcases hgate with hgate | ⟨hgate, hone⟩
  · rw [hgate]
    rfl
  · obtain ⟨control, rfl⟩ := List.length_eq_one_iff.mp hone
    rw [hgate]
    rfl

theorem executeBits?_exchange (hnodup : [a, b].Nodup) (hlt : ∀ q ∈ [a, b], q < n)
    (bits : Nat → Bool) :
    (⟨"swap", none, some [a, b], none, none, none⟩ : IonGate R).executeBits? n bits =
      some (Register.exchange [] a b bits) :=
  if_pos ⟨hnodup, hlt⟩

end IonGate

/-- A placed gate that stands for an operation: on the same qubits, and written as an entry,
    if any, that does to bits what the operation does. -/
structure PlacedGate.StandsFor (p : PlacedGate R) (n : Nat) (op : Operation R) : Prop where
  qubits : p.qubits = op.touched n
  measures : p.gate.isMeasurement = op.gate.isMeasurement
  written : ∃ entry, IonGate.ofPlaced? p = .ok entry ∧ (∀ g ∈ entry, g.rotation = none) ∧
    ∀ r : Register, entry.toList.foldlM (IonGate.executeBits? n) r.bits =
      some (op.execute n r).bits

namespace PlacedGate

variable [Magnitude R] {op : Operation R} {n : Nat} {gate : MomentGate R} {wires : List Nat}

omit [Magnitude R] in
theorem standsFor_unwritten (hqubits : op.touched n = wires)
    (hmeasures : gate.isMeasurement = op.gate.isMeasurement)
    (hwritten : IonGate.ofPlaced? ⟨gate, wires⟩ = .ok none)
    (hkept : ∀ r : Register, (op.execute n r).bits = r.bits) :
    (⟨gate, wires⟩ : PlacedGate R).StandsFor n op := by
  refine ⟨hqubits.symm, hmeasures, none, hwritten, by simp, fun r => ?_⟩
  rw [hkept r]
  rfl

omit [Magnitude R] in
theorem standsFor_written (hqubits : op.operands = wires)
    (hgate : op.gate.isMeasurement = false) (hmeasures : gate.isMeasurement = false)
    {g : IonGate R} (hwritten : IonGate.ofPlaced? ⟨gate, wires⟩ = .ok (some g))
    (hrotation : g.rotation = none)
    (hexecute : ∀ bits, g.executeBits? n bits = some (op.executeBits bits)) :
    (⟨gate, wires⟩ : PlacedGate R).StandsFor n op := by
  refine ⟨by rw [Operation.touched_of_gate hgate, hqubits], hmeasures.trans hgate.symm, some g,
    hwritten, by simpa using hrotation, fun r => ?_⟩
  have hstep : op.execute n r = { r with bits := op.executeBits r.bits } := by
    unfold Operation.execute
    rw [hgate]
    rfl
  rw [hstep, Option.toList_some, List.foldlM_cons, hexecute]
  rfl

theorem standsFor_flip (hwf : op.WellFormed n) (controls : List Nat) (target : Nat)
    (hoperands : op.operands = controls ++ [target]) (hgate : op.gate.isMeasurement = false)
    (hexecute : ∀ bits, op.executeBits bits = Register.flip controls target bits)
    (hmeasures : gate.isMeasurement = false) {g : IonGate R}
    (hwritten : IonGate.ofPlaced? ⟨gate, controls ++ [target]⟩ = .ok (some g))
    (hrotation : g.rotation = none) (hcontrols : g.controlQubits = controls)
    (htargets : g.targetQubits = [target])
    (hname : g.gate = "x" ∨ g.gate = "cnot" ∧ controls.length = 1) :
    (⟨gate, controls ++ [target]⟩ : PlacedGate R).StandsFor n op := by
  have hnodup := hwf.nodup_operands
  have hlt := hwf.operands_lt
  rw [hoperands] at hnodup hlt
  refine standsFor_written hoperands hgate hmeasures hwritten hrotation fun bits => ?_
  rw [hexecute bits]
  exact IonGate.executeBits?_flip hnodup hlt hcontrols htargets hname bits

/-- A flip under any number of controls. -/
theorem standsFor_controlledX (hwf : op.WellFormed n) {controls : List Nat} {target : Nat}
    (hoperands : op.operands = controls ++ [target]) (hgate : op.gate.isMeasurement = false)
    (hexecute : ∀ bits, op.executeBits bits = Register.flip controls target bits) :
    (⟨.controlledX controls.length, controls ++ [target]⟩ : PlacedGate R).StandsFor n op := by
  refine standsFor_flip hwf controls target hoperands hgate hexecute rfl
    (g := ⟨"x", some target, none, none, some controls, none⟩) ?_ rfl rfl rfl (.inl rfl)
  simp [IonGate.ofPlaced?, IonGate.controlled]

end PlacedGate

namespace MomentCircuit

variable [Zero R] [One R] [Add R] [Sub R] [Neg R] [Mul R] [BEq R] [Elementary R] [Magnitude R]
  [AngleLabel R] {op : Operation R} {n : Nat} {backend : Backend} {out : MomentCircuit R}

/-- The operation becomes one gate that stands for it. -/
def AppendsStandIn (backend : Backend) (out : MomentCircuit R) (n : Nat) (op : Operation R) : Prop :=
  ∃ p : PlacedGate R,
    appendOperation backend out op = .ok (out.append p.gate p.qubits) ∧ p.StandsFor n op

theorem appendsStandIn_controlled (hwf : op.WellFormed n) {ancillas : Bool}
    (hlayout : op.gate.signature.qubits = .controlled ancillas)
    (hclassical : op.isClassical = true) : AppendsStandIn backend out n op := by
  obtain ⟨target, rest, -, -, htarget⟩ := hwf.controlled hlayout
  have hoperands : op.operands = op.controls ++ [target] := by
    rw [Operation.operands_of_controlled hlayout, htarget]
    rfl
  have hwires : controlsAndTarget op = op.controls ++ [target] := by
    rw [controlsAndTarget, htarget]
    rfl
  have hflips : ∀ kind ∈ [Gate.mcx, .mct, .mcxgc, .mcxrec], op.gate = kind →
      ∀ bits, op.executeBits bits = Register.flip op.controls target bits := by
    intro kind hmem hkind bits
    funext q
    fin_cases hmem <;> simp [Operation.executeBits, hkind, hoperands]
  have hgate : op.gate.isMeasurement = false := by
    cases hkind : op.gate <;> first | rfl | (rw [hkind] at hlayout; cases hlayout)
  have hstands := fun hexecute =>
    PlacedGate.standsFor_controlledX hwf hoperands hgate hexecute
  refine ⟨⟨.controlledX op.controls.length, op.controls ++ [target]⟩, ?_⟩
  cases hkind : op.gate
  case mcx | mct =>
    have hmode : op.mode = .noAncilla := by simpa [Operation.isClassical, hkind] using hclassical
    refine ⟨?_, hstands (hflips _ (by simp) hkind)⟩
    simp only [appendOperation, hkind, hmode, hwires]
    rfl
  case mcxgc | mcxrec =>
    refine ⟨?_, hstands (hflips _ (by simp) hkind)⟩
    simp only [appendOperation, hkind, hwires]
  all_goals first
    | (rw [hkind] at hlayout; cases hlayout; done)
    | simp [Operation.isClassical, hkind] at hclassical

/-- A gate that is placed on the qubits of its operation. -/
theorem appendsStandIn_plain (hwires : op.operands = op.qubits) {gate : MomentGate R}
    (happend : appendOperation backend out op = .ok (out.append gate op.qubits))
    (hstands : (⟨gate, op.operands⟩ : PlacedGate R).StandsFor n op) :
    AppendsStandIn backend out n op := by
  refine ⟨⟨gate, op.operands⟩, ?_, hstands⟩
  rw [happend, hwires]

/-- A gate that flips the last of its qubits. -/
theorem appendsStandIn_flip (hwf : op.WellFormed n) (hwires : op.operands = op.qubits)
    {controls : List Nat} {target : Nat} (hsplit : op.operands = controls ++ [target])
    {gate : MomentGate R} (g : IonGate R)
    (happend : appendOperation backend out op = .ok (out.append gate op.qubits))
    (hgate : op.gate.isMeasurement = false)
    (hexecute : ∀ bits q, op.executeBits bits q = Register.flip controls target bits q)
    (hmeasures : gate.isMeasurement = false)
    (hwritten : IonGate.ofPlaced? ⟨gate, controls ++ [target]⟩ = .ok (some g))
    (hg : g.rotation = none ∧ g.controlQubits = controls ∧ g.targetQubits = [target])
    (hname : g.gate = "x" ∨ g.gate = "cnot" ∧ controls.length = 1) :
    AppendsStandIn backend out n op := by
  obtain ⟨hrotation, hcontrols, htargets⟩ := hg
  apply appendsStandIn_plain hwires happend
  rw [hsplit]
  exact PlacedGate.standsFor_flip hwf controls target hsplit hgate
    (fun bits => funext (hexecute bits)) hmeasures hwritten hrotation hcontrols htargets hname

theorem appendsStandIn_fixed (hwf : op.WellFormed n) {k : Nat}
    (hlayout : op.gate.signature.qubits = .fixed k) (hclassical : op.isClassical = true)
    (hforms : op.gate ∉ [Gate.cswap, .dcx]) (hn : out.numQubits = n) :
    AppendsStandIn backend out n op := by
  have hwires := Operation.operands_of_fixed hlayout
  have hlen : op.operands.length = k := by rw [hwires]; exact (hwf.fixed hlayout).2
  obtain ⟨q₁, q₂, q₃, q₄, q₅, hoperands⟩ := Operation.exists_eq_take 0 hlen
    (by revert hlayout; cases op.gate <;> intro hlayout <;> cases hlayout <;> decide)
  cases hkind : op.gate
  all_goals first
    | (rw [hkind] at hlayout; cases hlayout; done)
    | (simp [Operation.isClassical, hkind] at hclassical; done)
    | (simp [hkind] at hforms; done)
    | (rw [hkind] at hlayout
       cases hlayout)
  -- the flips: the last qubit, under all before it
  case x =>
    have hsplit : op.operands = [] ++ [q₁] := hoperands
    have happend : appendOperation backend out op = .ok (out.append .x op.qubits) := by
      simp only [appendOperation, hkind]
    refine appendsStandIn_flip hwf hwires hsplit _ happend (by rw [hkind]; rfl) (fun bits q => ?_)
      rfl rfl ⟨rfl, rfl, rfl⟩ (.inl rfl)
    simp only [Operation.executeBits, hkind, hoperands]
    rfl
  case cx =>
    have hsplit : op.operands = [q₁] ++ [q₂] := hoperands
    have happend : appendOperation backend out op = .ok (out.append .cnot op.qubits) := by
      simp only [appendOperation, hkind]
    refine appendsStandIn_flip hwf hwires hsplit _ happend (by rw [hkind]; rfl) (fun bits q => ?_)
      rfl rfl ⟨rfl, rfl, rfl⟩ (.inr ⟨rfl, rfl⟩)
    simp only [Operation.executeBits, hkind, hoperands]
    rfl
  case ccx =>
    have hsplit : op.operands = [q₁, q₂] ++ [q₃] := hoperands
    have happend : appendOperation backend out op = .ok (out.append .ccx op.qubits) := by
      simp only [appendOperation, hkind]
    refine appendsStandIn_flip hwf hwires hsplit _ happend (by rw [hkind]; rfl) (fun bits q => ?_)
      rfl rfl ⟨rfl, rfl, rfl⟩ (.inl rfl)
    simp only [Operation.executeBits, hkind, hoperands]
    rfl
  case c3x =>
    have hsplit : op.operands = [q₁, q₂, q₃] ++ [q₄] := hoperands
    have happend : appendOperation backend out op = .ok (out.append (.controlledX 3) op.qubits) := by
      simp only [appendOperation, hkind]
    refine appendsStandIn_flip hwf hwires hsplit _ happend (by rw [hkind]; rfl) (fun bits q => ?_)
      rfl rfl ⟨rfl, rfl, rfl⟩ (.inl rfl)
    simp only [Operation.executeBits, hkind, hoperands]
    rfl
  case c4x =>
    have hsplit : op.operands = [q₁, q₂, q₃, q₄] ++ [q₅] := hoperands
    have happend : appendOperation backend out op = .ok (out.append (.controlledX 4) op.qubits) := by
      simp only [appendOperation, hkind]
    refine appendsStandIn_flip hwf hwires hsplit _ happend (by rw [hkind]; rfl) (fun bits q => ?_)
      rfl rfl ⟨rfl, rfl, rfl⟩ (.inl rfl)
    simp only [Operation.executeBits, hkind, hoperands]
    rfl
  case i =>
    have htouched : op.touched n = op.operands := Operation.touched_of_gate (by rw [hkind]; rfl)
    have happend : appendOperation backend out op = .ok (out.append .i op.qubits) := by
      simp only [appendOperation, hkind]
    refine appendsStandIn_plain hwires happend ?_
    refine PlacedGate.standsFor_unwritten htouched (by rw [hkind]; rfl) rfl fun r => ?_
    have hkept : op.executeBits r.bits = r.bits :=
      funext fun q => by simp only [Operation.executeBits, hkind]
    rw [Operation.execute, if_neg (by rw [hkind]; decide), hkept]
  case swap =>
    have happend : appendOperation backend out op = .ok (out.append .swap op.qubits) := by
      simp only [appendOperation, hkind]
    refine appendsStandIn_plain hwires happend ?_
    have hnodup := hwf.nodup_operands
    have hlt := hwf.operands_lt
    rw [hoperands] at hnodup hlt
    refine PlacedGate.standsFor_written rfl (by rw [hkind]; rfl) rfl rfl rfl fun bits => ?_
    have hexecute : op.executeBits bits = Register.exchange [] q₁ q₂ bits :=
      funext fun q => by simp only [Operation.executeBits, hkind, hoperands]; rfl
    rw [hexecute, hoperands]
    exact IonGate.executeBits?_exchange hnodup hlt bits
  case measure =>
    have htouched : op.touched n = op.qubits := Operation.touched_of_measure hkind
    obtain ⟨q, hq⟩ := List.length_eq_one_iff.mp (hwires ▸ hlen)
    refine ⟨⟨.measure ("q(" ++ toString q ++ ")"), [q]⟩, ?_, ?_⟩
    · simp only [appendOperation, hkind, hq]
      rfl
    · refine PlacedGate.standsFor_unwritten (htouched.trans hq) (by rw [hkind]; rfl) rfl fun r => ?_
      simp only [Operation.execute, hkind]
      rfl
  case measureAll =>
    refine ⟨⟨.measure "result", List.range n⟩, ?_, ?_⟩
    · simp only [appendOperation, hkind, hn]
      rfl
    · refine PlacedGate.standsFor_unwritten (Operation.touched_of_measureAll hkind)
        (by rw [hkind]; rfl) rfl fun r => ?_
      simp only [Operation.execute, hkind]
      rfl

/-- **Every flip, exchange or measurement that the service knows becomes one gate that stands
    for it.** -/
theorem appendsStandIn (hwf : op.WellFormed n) (hclassical : op.isClassical = true)
    (hforms : op.gate ∉ [Gate.cswap, .dcx]) (hn : out.numQubits = n) :
    AppendsStandIn backend out n op := by
  rcases hlayout : op.gate.signature.qubits with k | ancillas
  · exact appendsStandIn_fixed hwf hlayout hclassical hforms hn
  · exact appendsStandIn_controlled hwf hlayout hclassical

end MomentCircuit

/-! ## 3. Documents of circuits -/

/-- Entries that stand for operations do to bits what the operations do, one after the other. -/
theorem exists_entries {n : Nat} {ops : List (Operation R)} {placed : List (PlacedGate R)}
    (h : List.Forall₂ (fun op p => p.StandsFor n op) ops placed) :
    ∃ entries, placed.mapM IonGate.ofPlaced? = .ok entries ∧
      (∀ g ∈ entries.filterMap id, g.rotation = none) ∧
      ∀ r : Register, (entries.filterMap id).foldlM (IonGate.executeBits? n) r.bits =
        some (ops.foldl (fun r op => op.execute n r) r).bits := by
  induction h with
  | nil => exact ⟨[], rfl, by simp, fun r => rfl⟩
  | @cons op p ops placed hp _ ih =>
    obtain ⟨entry, hentry, hrotation, hexecute⟩ := hp.written
    obtain ⟨entries, hentries, hrotations, hrest⟩ := ih
    have hsplit : (entry :: entries).filterMap id = entry.toList ++ entries.filterMap id := by
      rcases entry with _ | g <;> simp
    refine ⟨entry :: entries, ?_, ?_, fun r => ?_⟩
    · rw [List.mapM_cons, hentry, hentries]
      rfl
    · rw [hsplit]
      intro g hg
      rcases List.mem_append.mp hg with hg | hg
      · exact hrotation g (Option.mem_toList.mp hg)
      · exact hrotations g hg
    · rw [hsplit, List.foldlM_append, hexecute r]
      exact hrest (op.execute n r)

/-- The gates that stand for operations measure what the operations measure. -/
theorem mem_measured_of_standsFor {n q : Nat} {ops : List (Operation R)}
    {placed : List (PlacedGate R)} (h : List.Forall₂ (fun op p => p.StandsFor n op) ops placed) :
    q ∈ (placed.filter (·.gate.isMeasurement)).flatMap (·.qubits) ↔
      ∃ op ∈ ops, op.gate.isMeasurement = true ∧ q ∈ op.touched n := by
  induction h with
  | nil => simp
  | @cons op p ops placed hp _ ih =>
    rw [List.exists_mem_cons_iff, ← ih, ← hp.measures, ← hp.qubits]
    by_cases hmeasures : p.gate.isMeasurement <;> simp [hmeasures]

namespace IonCircuit

variable {c : Circuit R} {ion : IonCircuit R}

/-- The gates of an ion circuit stand for the operations of a circuit, those on different
    qubits perhaps in another order. -/
def StandsFor (ion : IonCircuit R) (c : Circuit R) : Prop :=
  ion.inner.numQubits = c.numQubits ∧
    ∃ ops, Reordered (Operation.Apart c.numQubits) c.operations ops ∧
      List.Forall₂ (fun op p => p.StandsFor c.numQubits op) ops ion.inner.allGates

theorem measuredQubits_of_inner [Magnitude R] (hc : c.Recorded)
    (hn : ion.inner.numQubits = c.numQubits) (h : ion.inner.measuredQubits = c.measuredQubits) :
    ion.measuredQubits = c.reportedQubits := by
  rw [measuredQubits, h, hn]
  split
  · next hnone => exact (Circuit.reportedQubits_of_unmeasured hc hnone).symm
  · next hsome => exact (Circuit.reportedQubits_of_measured hc hsome).symm

theorem StandsFor.measuredQubits_eq [Magnitude R] (h : ion.StandsFor c) (hc : c.Recorded) :
    ion.measuredQubits = c.reportedQubits := by
  obtain ⟨hn, ops, hops, hstands⟩ := h
  refine measuredQubits_of_inner hc hn ?_
  refine (pairwise_ascending _).eq_of_mem_iff (Circuit.pairwise_measuredQubits hc) fun q => ?_
  rw [mem_ascending, mem_measured_of_standsFor hstands, Circuit.mem_measuredQubits hc]
  simp only [hops.perm.mem_iff]

/-- **The document leaves the bits that executing the log leaves.** -/
theorem StandsFor.exists_document (h : ion.StandsFor c) :
    ∃ d : IonDocument R, ion.document = .ok d ∧ d.numQubits = c.numQubits ∧
      (∀ g ∈ d.gates, g.rotation = none) ∧
      d.gates.foldlM (IonGate.executeBits? d.numQubits) (fun _ => false) =
        some c.execute.bits := by
  obtain ⟨hn, ops, hops, hstands⟩ := h
  obtain ⟨entries, hentries, hrotation, hexecute⟩ := exists_entries hstands
  refine ⟨⟨ion.inner.numQubits, entries.filterMap id⟩, ?_, hn, hrotation, ?_⟩
  · exact bind_eq_ok.mpr ⟨entries, hentries, rfl⟩
  · have horder : c.execute = ops.foldl (fun r op => op.execute c.numQubits r) .zero :=
      hops.foldl_eq (fun _ _ _ _ hapart r => Operation.execute_comm hapart r) .zero
    rw [horder, ← hexecute .zero, ← hn]
    rfl

/-- **A circuit of flips, exchanges and measurements that the service knows has an ion circuit
    that stands for it.** -/
theorem exists_standsFor [Zero R] [One R] [Add R] [Sub R] [Neg R] [Mul R] [BEq R] [Elementary R]
    [Magnitude R] [AngleLabel R] (hc : c.Recorded)
    (hclassical : ∀ op ∈ c.operations, op.isClassical = true)
    (hforms : ∀ op ∈ c.operations, op.gate ∉ [Gate.cswap, .dcx]) :
    ∃ ion, ofCircuit c = .ok ion ∧ ion.StandsFor c := by
  have hwf := (Circuit.recorded_iff.mp hc).2
  have hnative : c.operations.find? (!isNative ·.gate) = none := by
    rw [List.find?_eq_none]
    intro op hop
    have hbit := hclassical op hop
    have hform := hforms op hop
    cases hkind : op.gate <;> simp_all [Operation.isClassical, isNative]
  obtain ⟨placed, hplaced, hmatch⟩ := exists_foldlM_forall₂
    (I := fun out => out.numQubits = c.numQubits)
    (g := fun out (p : PlacedGate R) => out.append p.gate p.qubits)
    (P := fun op p => p.StandsFor c.numQubits op)
    (fun op hop out hn => by
      have hstep : MomentCircuit.AppendsStandIn .ionq out c.numQubits op :=
        MomentCircuit.appendsStandIn (hwf op hop) (hclassical op hop) (hforms op hop) hn
      obtain ⟨p, hp, hstands⟩ := hstep
      exact ⟨p, hp, hstands, hn⟩)
    (s := MomentCircuit.empty c.numQubits) rfl
  let m := (MomentCircuit.empty c.numQubits).appendAll placed
  have hm : MomentCircuit.ofCircuit .ionq c = .ok m := hplaced
  have hreordered : Reordered PlacedGate.Apart placed m.allGates :=
    ((MomentCircuit.empty c.numQubits).allGates_appendAll placed).symm List.Disjoint.symm
  obtain ⟨ops, hops, hstands⟩ := hreordered.forall₂
    (J := Operation.Apart c.numQubits) (fun {p q op op'} hp hq hapart => by
      rw [Operation.Apart, ← hp.qubits, ← hq.qubits]; exact hapart) hmatch
  refine ⟨⟨m⟩, ?_, MomentCircuit.numQubits_appendAll placed _, ops, hops, hstands⟩
  rw [ofCircuit, hnative, hm]
  rfl

end IonCircuit

/-! ## 4. What the service reports -/

namespace Native

open Simulator

/-- What is submitted for a circuit: a document that does what the log does, and the qubits to
    be read from what it leaves. -/
theorem exists_document {c : Circuit Float} (hc : c.Recorded)
    (hclassical : ∀ op ∈ c.operations, op.isClassical = true)
    (hforms : ∀ op ∈ c.operations, op.gate ∉ [Gate.cswap, .dcx]) (request : ExecutionRequest)
    (target : String) :
    ∃ native payload document, ofCircuit .ionq c = .ok native ∧
      IonBackend.payload native request target = .ok payload ∧
      payload.program = .json document ∧ payload.measured = c.reportedQubits ∧
      IonDocument.executeBits? document = some c.execute.bits := by
  obtain ⟨ion, hion, hstands⟩ := IonCircuit.exists_standsFor hc hclassical hforms
  obtain ⟨d, hd, -, hrotation, hexecute⟩ := hstands.exists_document
  refine ⟨.ion ion, _, d.toJson, map_eq_ok.mpr ⟨ion, hion, rfl⟩, bind_eq_ok.mpr ⟨d, hd, rfl⟩,
    rfl, hstands.measuredQubits_eq hc, ?_⟩
  rw [IonDocument.executeBits?_toJson d hrotation, hexecute]

/-- **A document reports the values the qubits have in the end**, and so what the log says
    exactly if every measured qubit ends with the value it was last measured with. -/
theorem document_runs_to_the_end {c : Circuit Float} (hc : c.Recorded)
    (hclassical : ∀ op ∈ c.operations, op.isClassical = true)
    (hforms : ∀ op ∈ c.operations, op.gate ∉ [Gate.cswap, .dcx]) (request : ExecutionRequest)
    (target : String) :
    ∃ native payload document bits, ofCircuit .ionq c = .ok native ∧
      IonBackend.payload native request target = .ok payload ∧
      payload.program = .json document ∧ IonDocument.executeBits? document = some bits ∧
      bitstring payload.measured bits = bitstring c.reportedQubits c.execute.bits ∧
      (c.hasMeasurements = true →
        (bitstring payload.measured bits = bitstring c.measuredQubits c.execute.outcomes ↔
          ∀ q ∈ c.measuredQubits, c.execute.bits q = c.execute.outcomes q)) := by
  obtain ⟨native, payload, document, hnative, hpayload, hdocument, hmeasured, hexecute⟩ :=
    exists_document hc hclassical hforms request target
  refine ⟨native, payload, document, c.execute.bits, hnative, hpayload, hdocument, hexecute,
    by rw [hmeasured], ?_⟩
  intro hmeasures
  rw [hmeasured, Circuit.reportedQubits, if_pos hmeasures]
  exact bitstring_eq_iff

/-- A value that is copied, moved and passed on before it is measured again. -/
def passedOn : Circuit Float where
  numQubits := 4
  operations := [⟨.x, [[2]], []⟩, ⟨.cx, [[2], [0]], []⟩, ⟨.measure, [[0]], []⟩,
    ⟨.swap, [[1], [2]], []⟩, ⟨.i, [[2]], []⟩,
    ⟨.mcx, [[0, 1], [3]], [.count 2, .mode .noAncilla]⟩, ⟨.measure, [[3]], []⟩,
    ⟨.measure, [[2]], []⟩]

theorem recorded_passedOn : passedOn.Recorded := by
  refine Circuit.recorded_iff.mpr ⟨by decide, ?_⟩
  simp only [passedOn, List.forall_mem_cons]
  refine ⟨⟨by decide, by decide, rfl, rfl, by simp⟩, ⟨by decide, by decide, rfl, rfl, by simp⟩,
    ⟨by decide, by decide, rfl, rfl, by simp⟩, ⟨by decide, by decide, rfl, rfl, by simp⟩,
    ⟨by decide, by decide, rfl, rfl, by simp⟩,
    ⟨by decide, by decide, rfl, rfl, by simp [Param.Fits, Operation.controls]⟩,
    ⟨by decide, by decide, rfl, rfl, by simp⟩, ⟨by decide, by decide, rfl, rfl, by simp⟩, by simp⟩

theorem document_runs_to_the_end_passedOn :
    passedOn.Recorded ∧ (∀ op ∈ passedOn.operations, op.isClassical = true) ∧
      (∀ op ∈ passedOn.operations, op.gate ∉ [Gate.cswap, .dcx]) ∧
      ∃ native payload document bits, ofCircuit .ionq passedOn = .ok native ∧
        IonBackend.payload native (.new .ionq) "simulator" = .ok payload ∧
        payload.program = .json document ∧ IonDocument.executeBits? document = some bits ∧
        bitstring payload.measured bits = "101" := by
  have hmeasured : passedOn.reportedQubits = [0, 2, 3] := by
    simp [Circuit.reportedQubits, Circuit.hasMeasurements, Gate.isMeasurement, passedOn,
      Circuit.measuredQubits, Circuit.measuredBy, ascending, Operation.qubits, List.mergeSort,
      List.MergeSort.Internal.splitInTwo, List.eraseDups_cons]
  have hreported : bitstring passedOn.reportedQubits passedOn.execute.bits = "101" := by
    rw [hmeasured]; rfl
  have hclassical : ∀ op ∈ passedOn.operations, op.isClassical = true := by decide
  have hforms : ∀ op ∈ passedOn.operations, op.gate ∉ [Gate.cswap, .dcx] := by decide
  obtain ⟨native, payload, document, bits, hnative, hpayload, hdocument, hbits, hread, -⟩ :=
    document_runs_to_the_end recorded_passedOn hclassical hforms (.new .ionq) "simulator"
  rw [hreported] at hread
  exact ⟨recorded_passedOn, hclassical, hforms, native, payload, document, bits, hnative, hpayload,
    hdocument, hbits, hread⟩

def lookedAtThenFlipped : Circuit Float where
  numQubits := 1
  operations := [⟨.measure, [[0]], []⟩, ⟨.x, [[0]], []⟩]

theorem recorded_lookedAtThenFlipped : lookedAtThenFlipped.Recorded := by
  refine Circuit.recorded_iff.mpr ⟨by decide, ?_⟩
  simp only [lookedAtThenFlipped, List.forall_mem_cons]
  exact ⟨⟨by decide, by decide, rfl, rfl, by simp⟩, ⟨by decide, by decide, rfl, rfl, by simp⟩,
    by simp⟩

/-- A document reports a flip that comes after the measurement. -/
theorem document_holds_later_flip :
    lookedAtThenFlipped.Recorded ∧
      (∀ op ∈ lookedAtThenFlipped.operations, op.isClassical = true) ∧
      (∀ op ∈ lookedAtThenFlipped.operations, op.gate ∉ [Gate.cswap, .dcx]) ∧
      bitstring lookedAtThenFlipped.measuredQubits lookedAtThenFlipped.execute.outcomes = "0" ∧
      ∃ native payload document bits, ofCircuit .ionq lookedAtThenFlipped = .ok native ∧
        IonBackend.payload native (.new .ionq) "simulator" = .ok payload ∧
        payload.program = .json document ∧ IonDocument.executeBits? document = some bits ∧
        bitstring payload.measured bits = "1" := by
  have hmeasured : lookedAtThenFlipped.measuredQubits = [0] := by
    simp [lookedAtThenFlipped, Circuit.measuredQubits, Circuit.measuredBy, ascending,
      Operation.qubits, List.eraseDups_cons]
  have hreported : lookedAtThenFlipped.reportedQubits = [0] := hmeasured
  have hclassical : ∀ op ∈ lookedAtThenFlipped.operations, op.isClassical = true := by decide
  have hforms : ∀ op ∈ lookedAtThenFlipped.operations, op.gate ∉ [Gate.cswap, .dcx] := by decide
  obtain ⟨native, payload, document, hnative, hpayload, hdocument, hread, hexecute⟩ :=
    exists_document recorded_lookedAtThenFlipped hclassical hforms (.new .ionq) "simulator"
  refine ⟨recorded_lookedAtThenFlipped, hclassical, hforms, by rw [hmeasured]; rfl, native, payload,
    document, lookedAtThenFlipped.execute.bits, hnative, hpayload, hdocument, hexecute, ?_⟩
  rw [hread, hreported]
  rfl

end Native

end CircuitBroker
