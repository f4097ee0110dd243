/-
  CircuitBroker/Proofs/Session/Translations.lean
  ==============================================
  **A remembered translation is the translation of the circuit as it is.**

  A session knows of its last translation only the backend and the number of operations.
  That is enough: the log only ever grows at its end, so that as many operations are the same
  operations, and other adapters make it forget (`Remembers`).  Every call on a session keeps
  this (`SessionCall.sound_perform`), so after any calls a conversion answers as if nothing had
  been remembered (`conversions_transparent`), and the count of translations is the number of
  conversions that found nothing and succeeded.
-/
import CircuitBroker.Proofs.Circuit.Recorded
import CircuitBroker.Session.Comparison
import CircuitBroker.Session.Construction

namespace CircuitBroker

variable {σ : Type}

def Circuit.upTo (c : Circuit Float) (count : Nat) : Circuit Float :=
  ⟨c.numQubits, c.operations.take count⟩

theorem Circuit.upTo_size (c : Circuit Float) : c.upTo c.size = c := by
  simp [upTo, size]

namespace Session

/-! ## 1. One conversion -/

/-- What the adapter of a backend makes of the circuit as it is now. -/
def translated (s : Session σ) (backend : Backend) : Except ExecutionFailure (Native Float) :=
  (s.registry.get backend).bind (·.translate s.circuit)

def remembersFor (s : Session σ) (backend : Backend) : Bool :=
  match s.cache with
  | some c => decide (c.backend = backend ∧ c.operations = s.circuit.size)
  | none => false

/-- What is remembered is what the adapter makes of the operations that there were then. -/
def Remembers (s : Session σ) : Prop :=
  ∀ c, s.cache = some c → c.operations ≤ s.circuit.size ∧
    (s.registry.get c.backend).bind (·.translate (s.circuit.upTo c.operations)) = .ok c.native

def remember (s : Session σ) (backend : Backend) (native : Native Float) : Session σ :=
  { s with
    backend
    cache := some ⟨backend, s.circuit.size, native⟩
    translations := s.translations + 1 }

theorem convert_of_not_remembersFor {s : Session σ} {b : Backend} (h : s.remembersFor b = false) :
    s.convert b = match s.translated b with
      | .error e => (.error e, s.withBackend b)
      | .ok native => (.ok native, s.remember b native) := by
  have hcached : (s.withBackend b).cached? = none := by
    unfold cached?
    unfold remembersFor at h
    cases hcache : s.cache with
    | none => simp [withBackend, hcache]
    | some c =>
      rw [hcache] at h
      simpa [withBackend, hcache] using h
  unfold convert
  dsimp only
  rw [hcached]
  rfl

theorem convert_of_remembersFor {s : Session σ} {b : Backend} (hs : s.Remembers)
    (h : s.remembersFor b = true) :
    ∃ native, s.translated b = .ok native ∧ s.convert b = (.ok native, s.withBackend b) := by
  unfold remembersFor at h
  cases hcache : s.cache with
  | none => simp [hcache] at h
  | some c =>
    rw [hcache] at h
    obtain ⟨hbackend, hsize⟩ := of_decide_eq_true h
    obtain ⟨-, hnative⟩ := hs c hcache
    rw [hsize, Circuit.upTo_size, hbackend] at hnative
    refine ⟨c.native, hnative, ?_⟩
    simp [convert, cached?, withBackend, hcache, hbackend, hsize]

/-- The three ways a conversion can go. -/
theorem convert_cases {s : Session σ} (hs : s.Remembers) (b : Backend) :
    (s.remembersFor b = true ∧ ∃ native, s.translated b = .ok native ∧
      s.convert b = (.ok native, s.withBackend b)) ∨
    (s.remembersFor b = false ∧ ∃ e, s.translated b = .error e ∧
      s.convert b = (.error e, s.withBackend b)) ∨
    (s.remembersFor b = false ∧ ∃ native, s.translated b = .ok native ∧
      s.convert b = (.ok native, s.remember b native)) := by
  cases h : s.remembersFor b with
  | true => exact .inl ⟨rfl, convert_of_remembersFor hs h⟩
  | false =>
    have hconvert := convert_of_not_remembersFor h
    cases htranslated : s.translated b with
    | error e => exact .inr (.inl ⟨rfl, e, rfl, by rw [hconvert, htranslated]⟩)
    | ok native => exact .inr (.inr ⟨rfl, native, rfl, by rw [hconvert, htranslated]⟩)

theorem remembers_remember {s : Session σ} {b : Backend} {native : Native Float}
    (h : s.translated b = .ok native) : (s.remember b native).Remembers := by
  intro c hc
  cases hc
  refine ⟨Nat.le_refl _, ?_⟩
  change (s.registry.get b).bind (·.translate (s.circuit.upTo s.circuit.size)) = .ok native
  rw [Circuit.upTo_size]
  exact h

theorem remembers_convert {s : Session σ} (hs : s.Remembers) (b : Backend) :
    (s.convert b).2.Remembers := by
  obtain ⟨-, _, -, hconvert⟩ | ⟨-, _, -, hconvert⟩ | ⟨-, _, hnative, hconvert⟩ := convert_cases hs b
  · rw [hconvert]
    exact hs
  · rw [hconvert]
    exact hs
  · rw [hconvert]
    exact remembers_remember hnative

/-- A conversion answers as if nothing had been remembered. -/
theorem convert_eq_translated {s : Session σ} (hs : s.Remembers) (b : Backend) :
    (s.convert b).1 = s.translated b := by
  obtain ⟨-, _, h, hconvert⟩ | ⟨-, _, h, hconvert⟩ | ⟨-, _, h, hconvert⟩ := convert_cases hs b <;>
    rw [hconvert, h]

/-- A failed conversion changes nothing but the selected backend. -/
theorem convert_of_error {s : Session σ} (hs : s.Remembers) {b : Backend} {e : ExecutionFailure}
    (h : (s.convert b).1 = .error e) : (s.convert b).2 = s.withBackend b := by
  obtain ⟨-, _, -, hconvert⟩ | ⟨-, _, -, hconvert⟩ | ⟨-, _, -, hconvert⟩ := convert_cases hs b
  · rw [hconvert]
  · rw [hconvert]
  · rw [hconvert] at h
    cases h

/-! ## 2. Conversions counted -/

/-- A conversion: whether it found a translation, and whether it gave one. -/
structure Conversion where
  backend : Backend
  found : Bool
  succeeded : Bool

def Conversion.made (c : Conversion) : Bool := c.succeeded && !c.found

def conversion (s : Session σ) (b : Backend) : Conversion :=
  ⟨b, s.remembersFor b, (s.convert b).1.isOk⟩

def convertAll : List Backend → Session σ → List Conversion × Session σ
  | [], s => ([], s)
  | b :: bs, s =>
    let (conversions, last) := convertAll bs (s.convert b).2
    (s.conversion b :: conversions, last)

/-- A session that remembers rightly, and counts the translations made so far. -/
structure Sound (log : List Conversion) (s : Session σ) : Prop where
  remembers : s.Remembers
  translations : s.translations = log.countP Conversion.made

theorem Sound.convert {log : List Conversion} {s : Session σ} (h : Sound log s) (b : Backend) :
    Sound (log ++ [s.conversion b]) (s.convert b).2 := by
  refine ⟨remembers_convert h.remembers b, ?_⟩
  have hmade : (s.conversion b).made = ((s.convert b).1.isOk && !s.remembersFor b) := rfl
  rw [List.countP_append, List.countP_singleton, ← h.translations, hmade]
  obtain ⟨hfound, _, _, hconvert⟩ | ⟨hfound, _, _, hconvert⟩ | ⟨hfound, _, _, hconvert⟩ :=
    convert_cases h.remembers b <;>
    rw [hconvert, hfound] <;> rfl

theorem Sound.convertAll {s : Session σ} {log : List Conversion} (h : Sound log s)
    (bs : List Backend) : Sound (log ++ (s.convertAll bs).1) (s.convertAll bs).2 := by
  induction bs generalizing s log with
  | nil => simpa [Session.convertAll] using h
  | cons b bs ih =>
    have hrest := ih (h.convert b)
    rw [List.append_assoc] at hrest
    exact hrest

/-! ## 3. Recording -/

theorem Remembers.of_append {s s' : Session σ} (hs : s.Remembers) {ops : List (Operation Float)}
    (hcircuit : s'.circuit = ⟨s.circuit.numQubits, s.circuit.operations ++ ops⟩)
    (hcache : s'.cache = s.cache) (hregistry : s'.registry = s.registry) : s'.Remembers := by
  intro c hc
  obtain ⟨hle, hnative⟩ := hs c (hcache ▸ hc)
  -- what was translated is the beginning of the log still
  have htake : s'.circuit.upTo c.operations = s.circuit.upTo c.operations := by
    simp only [Circuit.upTo, hcircuit, List.take_append_of_le_length hle]
  refine ⟨?_, by rw [hregistry, htake, hnative]⟩
  rw [hcircuit, Circuit.size, List.length_append]
  exact Nat.le_add_right_of_le hle

/-- Recording adds to the end of the log and touches nothing else. -/
theorem exists_appendAll (ops : List (Operation Float)) (s : Session σ) : ∃ added,
    (s.appendAll ops).2 =
      { s with circuit := ⟨s.circuit.numQubits, s.circuit.operations ++ added⟩ } := by
  induction ops generalizing s with
  | nil => exact ⟨[], by simp [appendAll]⟩
  | cons op ops ih =>
    rw [appendAll, append]
    cases hpush : s.circuit.push op with
    | error fault => exact ⟨[], by simp [Except.map]⟩
    | ok c =>
      obtain ⟨-, rfl⟩ := Circuit.push_eq_ok_iff.mp hpush
      obtain ⟨added, hadded⟩ :=
        ih { s with circuit := ⟨s.circuit.numQubits, s.circuit.operations ++ [op]⟩ }
      exact ⟨op :: added, by simpa [Except.map] using hadded⟩

theorem Sound.appendAll {log : List Conversion} {s : Session σ} (h : Sound log s)
    (ops : List (Operation Float)) : Sound log (s.appendAll ops).2 := by
  obtain ⟨added, hadded⟩ := exists_appendAll ops s
  rw [hadded]
  exact ⟨h.remembers.of_append rfl rfl rfl, h.translations⟩

end Session

/-! ## 4. Calls -/

inductive SessionCall (σ : Type) where
  | append (op : Operation Float)
  | build (c : Construction)
  | selectBackend (backend : Backend)
  | configure (settings : Settings) (chance : UInt64)
  | useRegistry (registry : Registry σ)
  | useSimulator (simulator : Simulator)
  | draw
  | drawFor (backend : Backend)
  | convert (backend : Backend)
  | execute (request : ExecutionRequest) (now : Instant) (world : σ)
  | compare (executions : List ExecutionSettings) (now : Instant) (world : σ)

namespace SessionCall

open Session

/-- The session after a call, accepted or not. -/
def perform : SessionCall σ → Session σ → Session σ
  | append op, s => (s.appendAll [op]).2
  | build c, s => (s.build c).2
  | selectBackend b, s => s.withBackend b
  | configure settings chance, s => s.configured settings chance
  | useRegistry registry, s => s.withRegistry registry
  | useSimulator simulator, s => s.withSimulator simulator
  | draw, s => s.draw.2
  | drawFor b, s => (s.drawFor b).2
  | convert b, s => (s.convert b).2
  | execute request now world, s => (s.execute request now world).2.1
  | compare executions now world, s => (s.compare executions now world).2.1

def backends (s : Session σ) : SessionCall σ → List Backend
  | draw => [s.backend]
  | drawFor b | convert b => [b]
  | execute request _ _ => [request.backend]
  | compare executions _ _ => executions.map (·.backend)
  | _ => []

def conversions (s : Session σ) (call : SessionCall σ) : List Conversion :=
  (s.convertAll (call.backends s)).1

theorem execute_session (s : Session σ) (request : ExecutionRequest) (now : Instant) (world : σ) :
    (s.execute request now world).2.1 = (s.convert request.backend).2 := by
  have hprepare : (s.prepare request).2 = (s.convert request.backend).2 := rfl
  unfold Session.execute
  rcases hprepared : s.prepare request with ⟨_ | _, s'⟩
  · rw [← hprepare, hprepared]
  · rw [← hprepare, hprepared]

theorem prepareAll_session (executions : List ExecutionSettings) (s : Session σ) :
    (s.prepareAll executions).2 = (s.convertAll (executions.map (·.backend))).2 := by
  induction executions generalizing s with
  | nil => rfl
  | cons e es ih => exact ih _

theorem compare_session (s : Session σ) (executions : List ExecutionSettings) (now : Instant)
    (world : σ) :
    (s.compare executions now world).2.1 = (s.convertAll (executions.map (·.backend))).2 := by
  rw [← prepareAll_session]
  unfold Session.compare
  dsimp only
  split
  · rfl
  · split
    · rfl
    · split <;> rfl

/-- **Every call keeps a session sound.** -/
theorem sound_perform {log : List Conversion} {s : Session σ} (h : Sound log s)
    (call : SessionCall σ) : Sound (log ++ call.conversions s) (call.perform s) := by
  have hconverted := h.convertAll (call.backends s)
  cases call with
  | append op => exact (List.append_nil log).symm ▸ h.appendAll [op]
  | build c => exact (List.append_nil log).symm ▸ h.appendAll c.operations
  | selectBackend _ | configure _ _ | useSimulator _ =>
    exact (List.append_nil log).symm ▸ ⟨h.remembers, h.translations⟩
  -- other adapters may translate otherwise: nothing is remembered
  | useRegistry registry => exact (List.append_nil log).symm ▸ ⟨nofun, h.translations⟩
  | draw | drawFor b | convert b => exact hconverted
  | execute request now world =>
    rw [perform, execute_session]
    exact hconverted
  | compare executions now world =>
    rw [perform, compare_session]
    exact hconverted

end SessionCall

namespace Session

/-- The sessions there can be, with the conversions made on the way. -/
inductive History : List Conversion → Session σ → Prop
  | start (registry : Registry σ) (simulator : Simulator) (circuit : Circuit Float) :
      History [] (ofCircuit registry simulator circuit)
  | call {log : List Conversion} {s : Session σ} (h : History log s) (c : SessionCall σ) :
      History (log ++ c.conversions s) (c.perform s)

theorem History.sound {log : List Conversion} {s : Session σ} (h : History log s) : Sound log s := by
  induction h with
  | start registry simulator circuit => exact ⟨nofun, rfl⟩
  | call _ c ih => exact c.sound_perform ih

/-- After any calls a conversion gives what the adapter makes of the circuit as it is; a
    translation has been made for each conversion that succeeded without finding one; and a
    conversion that fails leaves the circuit and what is remembered alone. -/
theorem conversions_transparent {log : List Conversion} {s : Session σ} (h : History log s)
    (b : Backend) :
    (s.convert b).1 = (s.registry.get b).bind (·.translate s.circuit) ∧
    s.translations = log.countP Conversion.made ∧
    ∀ e, (s.convert b).1 = .error e → (s.convert b).2.circuit = s.circuit ∧
      (s.convert b).2.cache = s.cache ∧ (s.convert b).2.translations = s.translations := by
  refine ⟨convert_eq_translated h.sound.remembers b, h.sound.translations, fun e he => ?_⟩
  rw [convert_of_error h.sound.remembers he]
  exact ⟨rfl, rfl, rfl⟩

/-- Translated, refused an operation, drawn again, and translated after one more operation. -/
def redrawn : Session Unit :=
  let calls : List (SessionCall Unit) :=
    [.convert .cirq, .append ⟨.x, [[7]], []⟩, .draw, .append ⟨.x, [[0]], []⟩, .convert .cirq]
  calls.foldl (fun s call => call.perform s)
    (ofCircuit (.full .offline none) ⟨1, 20⟩ ⟨1, [⟨.x, [[0]], []⟩]⟩)

theorem conversions_transparent_redrawn :
    ∃ log, History log redrawn ∧ log.map (·.found) = [false, true, false] ∧
      redrawn.translations = 2 ∧ log.countP Conversion.made = 2 ∧
      (redrawn.convert .cirq).1 = Native.ofCircuit .cirq ⟨1, [⟨.x, [[0]], []⟩, ⟨.x, [[0]], []⟩]⟩ := by
  have hstart := History.start (σ := Unit) (.full .offline none) ⟨1, 20⟩ ⟨1, [⟨.x, [[0]], []⟩]⟩
  have hredrawn : History _ redrawn := ((((hstart.call (.convert .cirq)).call
    (.append ⟨.x, [[7]], []⟩)).call .draw).call (.append ⟨.x, [[0]], []⟩)).call (.convert .cirq)
  obtain ⟨hconvert, hcount, -⟩ := conversions_transparent hredrawn .cirq
  have htranslations : redrawn.translations = 2 := rfl
  exact ⟨_, hredrawn, rfl, htranslations, hcount.symm.trans htranslations, hconvert⟩

end Session

end CircuitBroker
