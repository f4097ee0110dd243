/-
  CircuitBroker/Proofs/Circuit/RoundTrip.lean
  ===========================================
  **A circuit is read back from its document, and from the text of it.**

  A document leaves out an empty list of parameters and names gates and modes; reading it
  records its operations one by one.  What has been recorded before passes these checks again
  (`Circuit.ofJson_toJson`), so a circuit is the circuit of its document.  The text of a
  document is read as the document if its numbers are (`Circuit.legible_toJson`), and all but
  the angles always are.
-/
import CircuitBroker.Proofs.Circuit.Contract
import CircuitBroker.Proofs.Json.RoundTrip

namespace CircuitBroker

/-! ## 1. Names -/

theorem Gate.ofName?_name (g : Gate) : Gate.ofName? g.name = some g := by
  cases g <;> rfl

theorem ControlMode.ofName?_name (m : ControlMode) : ControlMode.ofName? m.name = some m := by
  cases m <;> rfl

/-! ## 2. Operations -/

/-- A parameter that a document can hold: its angle is finite and its count a word. -/
def Param.Writable : Param Float → Prop
  | .angle a => a.isFinite = true
  | .count n => n < wordSize
  | _ => True

theorem Param.ofJson?_toJson {p : Param Float} (h : p.Writable) :
    Param.ofJson? p.toJson = some p := by
  cases p with
  | angle a =>
    have hvalue : Json.ofFloat a = .number (.real a) := if_pos h
    change (Json.toFloat? (.ofFloat a)).map Param.angle = _
    rw [hvalue]
    rfl
  | count n =>
    have hvalue : Json.toNatBelow? wordSize (.ofNat n) = some n := if_pos h
    change (Json.toNatBelow? wordSize (.ofNat n)).map Param.count = _
    rw [hvalue]
    rfl
  | flag b => rfl
  | mode m =>
    change (ControlMode.ofName? m.name).map Param.mode = _
    rw [ControlMode.ofName?_name]
    rfl

theorem Param.legible_toJson {p : Param Float} (h : p.Writable)
    (hangle : ∀ a, p.angle? = some a → (Json.Number.real a).ReadsBack) : p.toJson.Legible := by
  cases p with
  | angle a =>
    have hvalue : Json.ofFloat a = .number (.real a) := if_pos h
    rw [toJson, hvalue]
    exact .object (List.forall_mem_singleton.mpr (.number (hangle a rfl)))
  | count n => exact .object (List.forall_mem_singleton.mpr (.ofNat h))
  | flag b => exact .object (List.forall_mem_singleton.mpr (.bool b))
  | mode m => exact .object (List.forall_mem_singleton.mpr (.string m.name))

theorem qubitBound_lt : qubitBound < UInt64.size := by decide

namespace Operation

variable {op : Operation Float} {n : Nat}

structure Writable (op : Operation Float) : Prop where
  qubits : ∀ g ∈ op.groups, ∀ q ∈ g, q < qubitBound
  params : ∀ p ∈ op.params, p.Writable

theorem listOf?_groups {groups : List (List Nat)} (h : ∀ g ∈ groups, ∀ q ∈ g, q < qubitBound) :
    (Json.array (groups.map fun g => .array (g.map .ofNat))).listOf?
      (Json.listOf? (Json.toNatBelow? qubitBound)) = some groups := by
  refine Json.listOf?_map fun g hg => Json.listOf?_map fun q hq => ?_
  exact if_pos (h g hg q hq)

/-- The fields of a document; a missing list of parameters is an empty one. -/
theorem record?_toJson (op : Operation Float) :
    op.toJson.record? [["kind"], ["qubit_groups"], ["params"]] =
      some [some (.string op.gate.name), some (.array (op.groups.map fun g => .array (g.map .ofNat))),
        if op.params.isEmpty then none else some (.array (op.params.map Param.toJson))] := by
  obtain ⟨gate, groups, params⟩ := op
  cases params <;> rfl

theorem ofJson?_toJson (h : op.Writable) : Operation.ofJson? op.toJson = some op := by
  have hgate : (Json.string op.gate.name).unitTag?.bind Gate.ofName? = some op.gate :=
    Gate.ofName?_name op.gate
  have hread : (Json.array (op.params.map Param.toJson)).listOf? Param.ofJson? = some op.params :=
    Json.listOf?_map fun p hp => Param.ofJson?_toJson (h.params p hp)
  unfold ofJson?
  rw [record?_toJson]
  simp only [hgate, listOf?_groups h.qubits, Option.bind_eq_bind, Option.bind_some]
  by_cases hempty : op.params.isEmpty = true
  · rw [if_pos hempty]
    obtain ⟨gate, groups, params⟩ := op
    obtain rfl : params = [] := List.isEmpty_iff.mp hempty
    rfl
  · rw [if_neg hempty]
    dsimp only
    rw [hread]
    rfl

theorem legible_toJson (h : op.Writable)
    (hangles : ∀ a ∈ op.angles, (Json.Number.real a).ReadsBack) : op.toJson.Legible := by
  have hlist : ∀ g ∈ op.groups, (Json.array (g.map .ofNat)).Legible := fun g hg =>
    .map fun q hq => .ofNat (Nat.lt_trans (h.qubits g hg q hq) qubitBound_lt)
  have hwritten : ∀ p ∈ op.params, p.toJson.Legible := fun p hp =>
    Param.legible_toJson (h.params p hp) fun a ha => hangles a (List.mem_filterMap.mpr ⟨p, hp, ha⟩)
  refine .object (List.forall_mem_append.mpr ⟨?_, ?_⟩)
  · exact List.forall_mem_cons.mpr ⟨.string _, List.forall_mem_singleton.mpr (.map hlist)⟩
  · split
    · simp
    · exact List.forall_mem_singleton.mpr (.map hwritten)

/-- What has been recorded can be written: there are no more controls than qubits. -/
theorem WellFormed.writable (h : op.WellFormed n) (hn : n < qubitBound) : op.Writable := by
  have hlt : ∀ g ∈ op.groups, ∀ q ∈ g, q < n := fun g hg q hq =>
    h.lt q (List.mem_flatten.mpr ⟨g, hg, hq⟩)
  refine ⟨fun g hg q hq => Nat.lt_trans (hlt g hg q hq) hn, fun p hp => ?_⟩
  have hfits := h.fits p hp
  cases p with
  | angle a => exact hfits
  | count k =>
    have hcontrols : op.controls.Sublist op.qubits := by
      rw [controls, qubits]
      cases op.groups with
      | nil => exact List.nil_sublist _
      | cons g gs => exact List.sublist_append_left g gs.flatten
    have hlength : op.controls.length ≤ n := by
      have hsub := (h.nodup.sublist hcontrols).subperm fun q hq =>
        List.mem_range.mpr (h.lt q (hcontrols.subset hq))
      rw [← List.length_range (n := n)]
      exact hsub.length_le
    obtain rfl : k = op.controls.length := hfits
    exact Nat.lt_of_le_of_lt hlength (Nat.lt_trans hn qubitBound_lt)
  | flag b => trivial
  | mode m => trivial

end Operation

/-! ## 3. Documents of circuits -/

namespace Circuit

variable {c : Circuit Float}

theorem parts?_toJson (hc : c.Recorded) (hn : c.numQubits < qubitBound) :
    parts? c.toJson = some (c.numQubits, c.operations) := by
  have hqubits : Json.toNatBelow? qubitBound (.ofNat c.numQubits) = some c.numQubits := if_pos hn
  have hops : (Json.array (c.operations.map Operation.toJson)).listOf? Operation.ofJson? =
      some c.operations := by
    refine Json.listOf?_map fun op hop => ?_
    exact Operation.ofJson?_toJson (((recorded_iff.mp hc).2 op hop).writable hn)
  have hrecord : c.toJson.record? [["num_qubits"], ["operations"]] =
      some [some (.ofNat c.numQubits), some (.array (c.operations.map Operation.toJson))] := rfl
  unfold parts?
  rw [hrecord]
  simp only [hqubits, hops, Option.bind_eq_bind, Option.bind_some]

/-- **A circuit is read back from its document.** -/
theorem ofJson_toJson (hc : c.Recorded) (hn : c.numQubits < qubitBound) :
    ofJson c.toJson = .ok c := by
  obtain ⟨hpos, hops⟩ := recorded_iff.mp hc
  exact (ofJson_eq_ok_iff (parts?_toJson hc hn)).mpr
    ⟨hpos, fun op hop => (Operation.meetsContract_iff _ _).mpr (hops op hop), rfl⟩

theorem lt_of_parts? {j : Json} {n : Nat} {ops : List (Operation Float)}
    (h : parts? j = some (n, ops)) : n < qubitBound := by
  unfold parts? at h
  obtain ⟨values, -, h⟩ := Option.bind_eq_some_iff.mp h
  split at h
  · next numQubits operations =>
    obtain ⟨m, hm, h⟩ := Option.bind_eq_some_iff.mp h
    obtain rfl : m = n := by
      cases operations with
      | none =>
        cases h
        rfl
      | some list =>
        obtain ⟨_, -, h⟩ := Option.bind_eq_some_iff.mp h
        cases h
        rfl
    exact Json.lt_of_toNatBelow? hm
  · cases h

/-- A circuit that has been read could have been recorded. -/
theorem recorded_of_ofJson {j : Json} (h : ofJson j = .ok c) :
    c.Recorded ∧ c.numQubits < qubitBound := by
  obtain ⟨hpos, hops⟩ := contract_of_ofJson h
  refine
    ⟨recorded_iff.mpr ⟨hpos, fun op hop => (Operation.meetsContract_iff _ _).mp (hops op hop)⟩, ?_⟩
  cases hparts : parts? j with
  | none =>
    rw [ofJson_eq_malformed_iff.mpr hparts] at h
    cases h
  | some parts =>
    obtain ⟨-, -, rfl⟩ := (ofJson_eq_ok_iff hparts).mp h
    exact lt_of_parts? hparts

/-! ## 4. Texts of circuits -/

/-- All angles of a circuit are read back, each where it stands alone. -/
def AnglesReadBack (c : Circuit Float) : Prop :=
  ∀ op ∈ c.operations, ∀ a ∈ op.angles, (Json.Number.real a).ReadsBack

theorem legible_toJson (hc : c.Recorded) (hn : c.numQubits < qubitBound) (ha : c.AnglesReadBack) :
    c.toJson.Legible := by
  have hops : ∀ op ∈ c.operations, op.toJson.Legible := fun op hop =>
    Operation.legible_toJson (((recorded_iff.mp hc).2 op hop).writable hn) (ha op hop)
  refine .object (List.forall_mem_cons.mpr ⟨?_, List.forall_mem_singleton.mpr (.map hops)⟩)
  exact .ofNat (Nat.lt_trans hn qubitBound_lt)

/-- **A circuit is read back from its text**, if its angles are. -/
theorem ofText_compress (hc : c.Recorded) (hn : c.numQubits < qubitBound) (ha : c.AnglesReadBack) :
    ofText c.toJson.compress = .ok c := by
  unfold ofText
  rw [Json.readPrefix?_compress (legible_toJson hc hn ha)]
  simp only [ofJson_toJson hc hn, bind, Except.bind]
  rfl

theorem ofText_eq_ok {text : String} (h : ofText text = .ok c) :
    c.Recorded ∧ c.numQubits < qubitBound := by
  obtain ⟨j, hj⟩ := exists_ofJson_of_ofText h
  exact recorded_of_ofJson hj

/-- A circuit is what its document is read as, whether it has been built or read, and if its
    angles are read back one by one, it is what the text of its document is read as. -/
theorem round_trip (c : Circuit Float)
    (hc : (c.Recorded ∧ c.numQubits < qubitBound) ∨ (∃ j, ofJson j = .ok c) ∨
      ∃ text, ofText text = .ok c) :
    ofJson c.toJson = .ok c ∧ (c.AnglesReadBack → ofText c.toJson.compress = .ok c) := by
  obtain ⟨hrecorded, hn⟩ : c.Recorded ∧ c.numQubits < qubitBound := by
    rcases hc with hc | ⟨j, hj⟩ | ⟨text, htext⟩
    · exact hc
    · exact recorded_of_ofJson hj
    · exact ofText_eq_ok htext
  exact ⟨ofJson_toJson hrecorded hn, ofText_compress hrecorded hn⟩

def everyKind : Circuit Float :=
  ⟨5, [⟨.rx, [[4]], [.angle 0.25]⟩, ⟨.mcx, [[0, 1, 2], [3], [4]], [.count 3, .mode .vChain]⟩,
    ⟨.mcxvchain, [[3, 1], [0]], [.count 2, .flag true]⟩, ⟨.measureAll, [], []⟩]⟩

theorem round_trip_everyKind : everyKind.Recorded ∧ everyKind.AnglesReadBack ∧
    ofJson everyKind.toJson = .ok everyKind ∧ ofText everyKind.toJson.compress = .ok everyKind := by
  have hops : ∀ op ∈ everyKind.operations, op.validate 5 = .ok () := by
    simp only [everyKind, List.forall_mem_cons]
    exact ⟨rfl, rfl, rfl, rfl, nofun⟩
  have hrecorded : everyKind.Recorded := recorded_iff.mpr ⟨by decide, fun op hop =>
    (Operation.validate_eq_ok_iff op 5).mp (hops op hop)⟩
  have hangles : everyKind.AnglesReadBack := by
    unfold AnglesReadBack
    simp only [everyKind, List.forall_mem_cons]
    refine ⟨?_, nofun, nofun, nofun, nofun⟩
    intro a ha
    obtain rfl : a = 0.25 := List.mem_singleton.mp ha
    rfl
  obtain ⟨hjson, htext⟩ := round_trip everyKind (.inl ⟨hrecorded, by decide⟩)
  exact ⟨hrecorded, hangles, hjson, htext hangles⟩

end Circuit

end CircuitBroker
