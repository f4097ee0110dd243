/-
  CircuitBroker/Proofs/Native/Support.lean
  ========================================
  **Which operations a backend has a form for.**

  An assembly program can write every decomposition.  The other forms have none that works with
  ancillas, and refuse an operation that asks for one (`Operation.ancillaMode?`).  Nothing else
  is refused, neither for its kind nor for its qubits or angles: a kind without a form of its own
  has a matrix, and `LibraryPasses` says that the matrix becomes a gate.
-/
import CircuitBroker.Proofs.GateMatrix.Library
import CircuitBroker.Proofs.Native.Modifiers

namespace CircuitBroker

variable {R : Type}

/-! ## 1. Decompositions with ancillas -/

namespace Operation

def ancillaMode? (op : Operation R) : Option ControlMode :=
  match op.gate with
  | .mcxvchain => some .vChain
  | .mcx | .mct => if op.mode.usesAncillas then some op.mode else none
  | _ => none

def NeedsAncillas (op : Operation R) : Prop :=
  op.gate = .mcxvchain ∨ (op.gate = .mcx ∨ op.gate = .mct) ∧ op.mode ≠ .noAncilla

instance (op : Operation R) : Decidable op.NeedsAncillas := inferInstanceAs (Decidable (_ ∨ _))

theorem ancillaMode?_eq_none_iff {op : Operation R} :
    op.ancillaMode? = none ↔ ¬ op.NeedsAncillas := by
  unfold ancillaMode? NeedsAncillas
  cases op.gate <;> simp [ControlMode.usesAncillas]

/-- Why a backend without such decompositions refuses an operation. -/
def refusal? (backend : Backend) (op : Operation R) : Option (Failure R) :=
  op.ancillaMode?.map fun mode => .untranslatable op.gate backend (.needsAncillas mode)

theorem refusal?_eq_none_iff {backend : Backend} {op : Operation R} :
    op.refusal? backend = none ↔ ¬ op.NeedsAncillas := by
  rw [refusal?, Option.map_eq_none_iff, ancillaMode?_eq_none_iff]

theorem ancillaMode?_of_fixed {op : Operation R} {k : Nat}
    (hlayout : op.gate.signature.qubits = .fixed k) : op.ancillaMode? = none := by
  unfold ancillaMode?
  cases hkind : op.gate <;> first | rfl | (rw [hkind] at hlayout; cases hlayout)

theorem refusal?_of_fixed {op : Operation R} {k : Nat} (backend : Backend)
    (hlayout : op.gate.signature.qubits = .fixed k) : op.refusal? backend = none := by
  rw [refusal?, ancillaMode?_of_fixed hlayout]
  rfl

theorem WellFormed.finite_angles [Magnitude R] {op : Operation R} {n : Nat} (h : op.WellFormed n) :
    ∀ a ∈ op.angles, Magnitude.isFinite a = true := by
  intro a ha
  obtain ⟨p, hp, hangle⟩ := List.mem_filterMap.mp ha
  cases p <;> cases hangle
  exact h.fits _ hp

end Operation

/-! ## 2. Matrices of the libraries -/

section Library

variable [Zero R] [One R] [Add R] [Sub R] [Neg R] [Mul R] [Elementary R]

theorem AssemblyGate.onQubits_matrix (g : AssemblyGate R) :
    g.matrix.OnQubits (g.lowered.2 + g.numTargets) := by
  have hlowered := g.onQubits_lowered
  rw [matrix]
  split
  · next m heq =>
    rw [heq] at hlowered ⊢
    rwa [Nat.zero_add]
  · next m controls heq =>
    rw [heq] at hlowered ⊢
    exact hlowered.controlled (controls + 1)

theorem AssemblyGate.few_of_isKept {g : AssemblyGate R} (hkept : g.isKept = true) :
    g.lowered.2 + g.numTargets ≤ 4 := by
  cases g <;> first | (cases hkept; done) | simp [lowered, numTargets]

omit [Zero R] [One R] [Add R] [Sub R] [Neg R] [Mul R] [Elementary R] in
theorem AssemblyGate.angles_of_fixedGate {kind : Gate} {angles : List R} {g : AssemblyGate R}
    (hangles : ∃ a b c d e, angles = [a, b, c, d, e].take (kind.signature.params.count .angle))
    (hg : Assembly.fixedGate? kind angles = some g) : g.angles = angles := by
  obtain ⟨a, b, c, d, e, rfl⟩ := hangles
  cases kind <;> first | (cases hg; done) | (cases hg; rfl)

variable [BEq R] [Magnitude R] (hR : LibraryPasses R)

include hR

/-- **The matrix of a library becomes a gate.** -/
theorem CustomGate.new_kept {g : AssemblyGate R} (hkept : g.isKept = true)
    (hfinite : ∀ a ∈ g.angles, Magnitude.isFinite a = true) {name : String} {arity : Nat}
    {labels : List String} (harity : arity = g.lowered.2 + g.numTargets)
    (hlabels : labels.length = arity) :
    new name arity g.matrix labels = .ok ⟨name, arity, g.matrix, labels⟩ := by
  have hfew := AssemblyGate.few_of_isKept hkept
  have hdim : Word.bit arity = .ok g.matrix.dim := by
    rw [g.onQubits_matrix.dim, harity, Word.bit_of_lt (by omega), Nat.one_shiftLeft]
  exact new_eq_ok_iff.mpr ⟨hdim, hlabels, hR g hkept hfinite, rfl⟩

end Library

/-! ## 3. Moment circuits -/

namespace MomentCircuit

section Append

variable [Zero R] [One R] [Add R] [Sub R] [Neg R] [Mul R] [BEq R] [Elementary R] [Magnitude R]
  [AngleLabel R] (hR : LibraryPasses R) {op : Operation R} {n : Nat} {backend : Backend}

include hR

theorem exists_library {kind : Gate} {angles : List R}
    (hangles : ∃ a b c d e, angles = [a, b, c, d, e].take (kind.signature.params.count .angle))
    {g : AssemblyGate R} (hg : Assembly.fixedGate? kind angles = some g) (hkept : g.isKept = true)
    (hfinite : ∀ a ∈ angles, Magnitude.isFinite a = true) :
    ∃ custom, libraryGate backend kind angles = .ok custom := by
  suffices hfound : ∃ custom, MomentGate.library? kind angles = .ok (some custom) from
    hfound.imp fun custom hcustom => bind_eq_ok.mpr ⟨some custom, hcustom, rfl⟩
  rw [← AssemblyGate.angles_of_fixedGate hangles hg] at hfinite
  obtain ⟨a, b, c, d, e, rfl⟩ := hangles
  cases kind <;> first
    | (cases hg; done)
    | (cases hg
       first
        | (cases hkept; done)
        | exact ⟨_, map_eq_ok.mpr ⟨_, CustomGate.new_kept hR hkept hfinite rfl rfl, rfl⟩⟩)

theorem exists_library_phase (h : op.WellFormed n) (hkind : op.gate = .mcp) :
    ∃ custom, libraryGate backend .mcp op.angles = .ok custom := by
  obtain ⟨a, b, c, d, e, hangles⟩ := h.exists_angles
  have hfinite := h.finite_angles
  rw [hkind] at hangles
  rw [hangles] at hfinite ⊢
  have hnew : CustomGate.new "P" 1 (AssemblyGate.p a).matrix [MomentGate.angled "P" a] =
      .ok ⟨"P", 1, _, _⟩ := CustomGate.new_kept hR (g := .p a) rfl hfinite rfl rfl
  exact ⟨_, bind_eq_ok.mpr ⟨_, map_eq_ok.mpr ⟨_, hnew, rfl⟩, rfl⟩⟩

theorem exists_append_fixed (h : op.WellFormed n) {k : Nat}
    (hlayout : op.gate.signature.qubits = .fixed k) (out : MomentCircuit R) :
    ∃ out', appendOperation backend out op = .ok out' := by
  rcases op.gate.measurement_cases with hgate | hkind | hkind
  · obtain ⟨g, hg, -⟩ := Operation.exists_fixedGate hlayout hgate h.exists_angles
    have hlibrary : g.isKept = true →
        ∃ custom, libraryGate backend op.gate op.angles = .ok custom := fun hkept =>
      exists_library hR h.exists_angles hg hkept h.finite_angles
    obtain ⟨a, b, c, d, e, hangles⟩ := h.exists_angles
    obtain ⟨kind, groups, params⟩ := op
    dsimp only at hlayout hg hangles hlibrary hgate
    rw [hangles] at hg hlibrary
    cases kind
    all_goals first
      | (cases hlayout; done)
      | (cases hg; done)
      | (cases hg
         simp only [appendOperation, hangles]
         first
          | exact ⟨_, rfl⟩
          | (obtain ⟨custom, hcustom⟩ := hlibrary rfl
             exact ⟨_, bind_eq_ok.mpr ⟨custom, hcustom, rfl⟩⟩))
  · simp only [appendOperation, hkind]
    exact ⟨_, rfl⟩
  · simp only [appendOperation, hkind]
    exact ⟨_, rfl⟩

/-- **An operation is appended unless it asks for ancillas.** -/
theorem appendOperation_settled (h : op.WellFormed n) (out : MomentCircuit R) :
    Settled (op.refusal? backend) (appendOperation backend out op) := by
  cases hlayout : op.gate.signature.qubits with
  | fixed k =>
    rw [Operation.refusal?_of_fixed backend hlayout]
    exact exists_append_fixed hR h hlayout out
  | controlled ancillas =>
    cases hkind : op.gate
    case mcx | mct =>
      cases huses : op.mode.usesAncillas <;>
        simp only [Operation.refusal?, Operation.ancillaMode?, appendOperation, hkind, huses]
      · exact ⟨_, rfl⟩
      · rfl
    case mcxgc | mcxrec =>
      simp only [Operation.refusal?, Operation.ancillaMode?, appendOperation, hkind]
      exact ⟨_, rfl⟩
    case mcxvchain =>
      simp only [Operation.refusal?, Operation.ancillaMode?, appendOperation, hkind]
      rfl
    case mcp =>
      obtain ⟨custom, hcustom⟩ := exists_library_phase hR h hkind
      simp only [Operation.refusal?, Operation.ancillaMode?, appendOperation, hkind]
      exact ⟨_, bind_eq_ok.mpr ⟨custom, hcustom, rfl⟩⟩
    all_goals rw [hkind] at hlayout; cases hlayout

theorem ofCircuit_settled {c : Circuit R} (hc : c.Recorded) :
    Settled (c.operations.findSome? (·.refusal? backend)) (ofCircuit backend c) :=
  foldlM_settled (fun op hop out =>
    appendOperation_settled hR ((Circuit.recorded_iff.mp hc).2 op hop) out) _

end Append

end MomentCircuit

/-! ## 4. Modifier programs -/

namespace ModifierProgram

section Push

variable [Zero R] [One R] [Add R] [Sub R] [Neg R] [Mul R] [BEq R] [Elementary R] [Magnitude R]
  (hR : LibraryPasses R) {op : Operation R} {n : Nat}

include hR

theorem exists_library {kind : Gate} {angles : List R}
    (hangles : ∃ a b c d e, angles = [a, b, c, d, e].take (kind.signature.params.count .angle))
    (hfinite : ∀ a ∈ angles, Magnitude.isFinite a = true)
    (hkind : kind ∈ [Gate.u2, .r, .u, .u3, .dcx, .rzx, .cu3, .cu, .rccx, .rc3x]) :
    ∃ custom, ModifierGate.library? kind angles = .ok (some custom) := by
  have hgate := fun g hg => AssemblyGate.angles_of_fixedGate (g := g) hangles hg
  obtain ⟨a, b, c, d, e, rfl⟩ := hangles
  fin_cases hkind
  all_goals
    rw [← hgate _ rfl] at hfinite
    exact ⟨_, map_eq_ok.mpr ⟨_, CustomGate.new_kept hR rfl hfinite rfl rfl, rfl⟩⟩

theorem exists_push_fixed (h : op.WellFormed n) {k : Nat}
    (hlayout : op.gate.signature.qubits = .fixed k) (out : ModifierProgram R) :
    ∃ out', pushOperation out op = .ok out' := by
  rcases op.gate.measurement_cases with hgate | hkind | hkind
  · have hlibrary := exists_library hR h.exists_angles h.finite_angles
    obtain ⟨a, b, c, d, e, hangles⟩ := h.exists_angles
    obtain ⟨kind, groups, params⟩ := op
    dsimp only at hlayout hangles hlibrary hgate
    rw [hangles] at hlibrary
    cases kind
    all_goals first
      | (cases hlayout; done)
      | (cases hgate; done)
      | (simp only [pushOperation, hangles]
         first
          | exact ⟨_, rfl⟩
          | (obtain ⟨custom, hcustom⟩ := hlibrary (by simp)
             exact ⟨_, bind_eq_ok.mpr ⟨some custom, hcustom, rfl⟩⟩))
  · simp only [pushOperation, hkind]
    exact ⟨_, rfl⟩
  · simp only [pushOperation, hkind]
    exact ⟨_, rfl⟩

/-- **An operation is added unless it asks for ancillas.** -/
theorem pushOperation_settled (h : op.WellFormed n) (out : ModifierProgram R) :
    Settled (op.refusal? .braket) (pushOperation out op) := by
  cases hlayout : op.gate.signature.qubits with
  | fixed k =>
    rw [Operation.refusal?_of_fixed .braket hlayout]
    exact exists_push_fixed hR h hlayout out
  | controlled ancillas =>
    cases hkind : op.gate
    case mcx | mct =>
      cases huses : op.mode.usesAncillas <;>
        simp only [Operation.refusal?, Operation.ancillaMode?, pushOperation, hkind, huses]
      · exact ⟨_, rfl⟩
      · rfl
    case mcxgc | mcxrec =>
      simp only [Operation.refusal?, Operation.ancillaMode?, pushOperation, hkind]
      exact ⟨_, rfl⟩
    case mcxvchain =>
      simp only [Operation.refusal?, Operation.ancillaMode?, pushOperation, hkind]
      rfl
    case mcp =>
      obtain ⟨a, b, c, d, e, hangles⟩ := h.exists_angles
      rw [hkind] at hangles
      simp only [Operation.refusal?, Operation.ancillaMode?, pushOperation, hkind, hangles]
      exact ⟨_, rfl⟩
    all_goals rw [hkind] at hlayout; cases hlayout

theorem ofCircuit_settled {c : Circuit R} (hc : c.Recorded) :
    Settled (c.operations.findSome? (·.refusal? .braket)) (ofCircuit c) :=
  foldlM_settled (fun op hop out =>
    pushOperation_settled hR ((Circuit.recorded_iff.mp hc).2 op hop) out) _

end Push

end ModifierProgram

end CircuitBroker
