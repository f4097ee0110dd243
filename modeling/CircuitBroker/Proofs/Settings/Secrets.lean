/-
  CircuitBroker/Proofs/Settings/Secrets.lean
  ==========================================
  **Which texts keep a secret, and which do not.**

  A value is `masked` by emptying the secrets it has; two values with the same masked form differ in
  nothing but what their secrets are.  Requests, executions, settings and clients are then shown
  alike.  What a command line says is not: its credential stands in the text as it was given, so
  the texts differ exactly where the credentials do.
-/
import CircuitBroker.Proofs.Text.Inspection
import CircuitBroker.Service.Ibm
import CircuitBroker.Service.Ion
import CircuitBroker.Settings

namespace CircuitBroker

/-! ## 1. Masks -/

/-- A text that masking leaves alone is the same for values with one masked form. -/
theorem inspect_eq_of_masked {T : Type} {inspect : T → String} {masked : T → T}
    (h : ∀ t, inspect (masked t) = inspect t) {t t' : T} (halike : masked t = masked t') :
    inspect t = inspect t' := by
  rw [← h t, halike, h t']

def Credential.masked (_ : Credential) : Credential := ⟨""⟩

def ExecutionRequest.masked (r : ExecutionRequest) : ExecutionRequest :=
  { r with credential := r.credential.map Credential.masked }

def ExecutionSettings.masked (e : ExecutionSettings) : ExecutionSettings :=
  { e with credential := e.credential.map fun _ => "" }

def Settings.masked (s : Settings) : Settings :=
  { s with executions := s.executions.map ExecutionSettings.masked }

def IbmClient.masked (c : IbmClient) : IbmClient := { c with token := "" }

def IonClient.masked (c : IonClient) : IonClient := { c with key := "" }

def Overrides.masked (o : Overrides) : Overrides :=
  { o with credential := o.credential.map fun _ => "" }

/-! ## 2. Texts that keep secrets -/

theorem ExecutionRequest.inspect_masked (r : ExecutionRequest) : r.masked.inspect = r.inspect := by
  obtain ⟨backend, target, repetitions, credential, storage, pollTimeout, pollInterval⟩ := r
  cases credential <;> rfl

theorem ExecutionSettings.inspect_masked (e : ExecutionSettings) :
    e.masked.inspect = e.inspect := by
  obtain ⟨backend, credential, device, bucket, directory, simulator, _, _, _⟩ := e
  cases credential <;> rfl

theorem Settings.inspect_masked (s : Settings) : s.masked.inspect = s.inspect := by
  simp only [inspect, masked, List.map_map, Function.comp_def, ExecutionSettings.inspect_masked]

theorem IbmClient.inspect_masked (c : IbmClient) : c.masked.inspect = c.inspect := rfl

theorem IonClient.inspect_masked (c : IonClient) : c.masked.inspect = c.inspect := rfl

/-! ## 3. A text that does not -/

theorem Overrides.eq_of_masked {o o' : Overrides} (h : o.masked = o'.masked) :
    o' = { o with credential := o'.credential } := by
  simp only [masked, mk.injEq] at h
  obtain ⟨hshots, hdevice, hsimulator, -, hbucket, hdirectory, htimeout⟩ := h
  rw [hshots, hdevice, hsimulator, hbucket, hdirectory, htimeout]

/-- **The text of what a command line says tells the credential.** -/
theorem Overrides.inspect_eq_iff {o o' : Overrides} (h : o.masked = o'.masked) :
    o.inspect = o'.inspect ↔ o = o' := by
  let text : Option String → String := Inspection.optional Inspection.quote
  constructor
  · intro htexts
    rw [eq_of_masked h] at htexts ⊢
    have hcredential := Inspection.record_field_injective "Overrides" "api"
      [("shots", Inspection.optional toString o.shots), ("device", text o.device),
        ("simulator", text o.simulator)]
      [("bucket", text o.bucket), ("directory", text o.directory),
        ("timeout", Inspection.optional toString o.timeout)] htexts
    have hsame : o.credential = o'.credential :=
      Inspection.optional_injective Inspection.quote_injective hcredential
    rw [← hsame]
  · rintro rfl
    rfl

/-- **Secrets are hidden in the texts of requests, executions, settings and clients**, and shown in
    those of what a command line says: where only the credentials may differ, these texts are the
    same exactly if the credentials are. -/
theorem secrets_hidden_except_in_overrides (c c' : Credential) (r r' : ExecutionRequest)
    (e e' : ExecutionSettings) (s s' : Settings) (ibm ibm' : IbmClient) (ion ion' : IonClient)
    (o o' : Overrides) :
    (c.masked = c'.masked → c.inspect = c'.inspect) ∧
    (r.masked = r'.masked → r.inspect = r'.inspect) ∧
    (e.masked = e'.masked → e.inspect = e'.inspect) ∧
    (s.masked = s'.masked → s.inspect = s'.inspect) ∧
    (ibm.masked = ibm'.masked → ibm.inspect = ibm'.inspect) ∧
    (ion.masked = ion'.masked → ion.inspect = ion'.inspect) ∧
    (o.masked = o'.masked → (o.inspect = o'.inspect ↔ o = o')) := by
  refine ⟨fun _ => rfl, ?request, ?execution, ?settings, ?ibm, ?ion, Overrides.inspect_eq_iff⟩
  case request => exact inspect_eq_of_masked ExecutionRequest.inspect_masked
  case execution => exact inspect_eq_of_masked ExecutionSettings.inspect_masked
  case settings => exact inspect_eq_of_masked Settings.inspect_masked
  case ibm => exact inspect_eq_of_masked IbmClient.inspect_masked
  case ion => exact inspect_eq_of_masked IonClient.inspect_masked

theorem secrets_hidden_except_in_overrides_accounts :
    let settings (token key : String) : Settings := { Settings.default with
      executions := [{ ExecutionSettings.new .qiskit with credential := some token },
        { ExecutionSettings.new .ionq with credential := some key }] }
    let said (token : String) : Overrides := { Overrides.none with credential := some token }
    (settings "ours" "mine").masked = (settings "theirs" "yours").masked ∧
      (settings "ours" "mine").inspect = (settings "theirs" "yours").inspect ∧
      (⟨"https://api", "ours"⟩ : IbmClient).inspect =
        (⟨"https://api", "theirs"⟩ : IbmClient).inspect ∧
      (said "ours").masked = (said "theirs").masked ∧
      ((said "ours").inspect = (said "theirs").inspect ↔ said "ours" = said "theirs") := by
  intro settings said
  obtain ⟨-, -, -, hsettings, hclient, -, hsaid⟩ := secrets_hidden_except_in_overrides
    ⟨"ours"⟩ ⟨"theirs"⟩ (ExecutionRequest.new .ionq) (ExecutionRequest.new .ionq)
    (ExecutionSettings.new .ionq) (ExecutionSettings.new .ionq) (settings "ours" "mine")
    (settings "theirs" "yours") ⟨"https://api", "ours"⟩ ⟨"https://api", "theirs"⟩ ⟨"", "mine"⟩
    ⟨"", "yours"⟩ (said "ours") (said "theirs")
  exact ⟨rfl, hsettings rfl, hclient rfl, rfl, hsaid rfl⟩

/-- Two command lines that differ in nothing but a credential, and the text of one. -/
theorem override_shows_credential :
    let said (token : String) : Overrides := { Overrides.none with credential := some token }
    (said "sk-live").masked = (said "sk-test").masked ∧
      (said "sk-live").inspect =
        "Overrides \x7b shots: None, device: None, simulator: None, api: Some(\"sk-live\"), " ++
          "bucket: None, directory: None, timeout: None \x7d" ∧
      (said "sk-live").inspect ≠ (said "sk-test").inspect := by
  intro said
  exact ⟨rfl, by decide +kernel, by decide +kernel⟩

end CircuitBroker
