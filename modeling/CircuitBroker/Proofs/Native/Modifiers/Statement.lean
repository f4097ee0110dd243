/-
  CircuitBroker/Proofs/Native/Modifiers/Statement.lean
  ====================================================
  **What is written of a gate and what is simulated of it.**

  A statement is read by its words: modifiers that add controls, then a gate with what stands in
  brackets after it, then the operands (`GateStatement.read?`).  What is simulated of a gate comes
  from all of its modifiers (`ModifierGate.lowered_eq`), counted in words (`lowered?_eq`), what is
  written only from the outermost one (`read?_statementText`).  So the two agree on gates under at
  most one modifier, and lose controls or an angle between them where modifiers are nested
  (`statement_agrees`).
-/
import CircuitBroker.Native.Modifiers.Gate
import CircuitBroker.Proofs.Text.Pieces

namespace CircuitBroker

open Pieces

/-! ## 1. Reading a statement -/

/-- What a gate statement says: how many controls its modifiers add, which gate it names, what
    stands in brackets after the name, and the operands. -/
structure GateStatement where
  controls : Nat
  gate : String
  argument : Option String
  operands : String
  deriving DecidableEq

namespace GateStatement

def call? (text : List Char) : Option (List Char × Option (List Char)) :=
  match text.dropWhile (· ≠ '(') with
  | [] => some (text, none)
  | _ :: rest => (before? ')' rest).map fun argument => (text.takeWhile (· ≠ '('), some argument)

def modifier? (word : List Char) : Option Nat :=
  match call? word with
  | some (['c', 't', 'r', 'l'], none) => some 1
  | some (['c', 't', 'r', 'l'], some digits) => natural? digits
  | _ => none

/-- A statement by its words: modifiers, each before an `@`, then the gate, then the operands up to
    the semicolon. -/
def ofWords? : List (List Char) → Option GateStatement
  | word :: ['@'] :: rest => do
    let added ← modifier? word
    let statement ← ofWords? rest
    return { statement with controls := added + statement.controls }
  | word :: rest => do
    let (gate, argument) ← call? word
    let operands ← before? ';' ([' '].intercalate rest)
    return ⟨0, .ofList gate, argument.map .ofList, .ofList operands⟩
  | [] => none

/-- The rest of a pragma: a matrix in brackets, which may have blanks in it, then the operands. -/
def ofPragma? (text : List Char) : Option GateStatement := do
  let (gate, argument) ← call? (text.rdropWhile (· ≠ ')'))
  match text.rtakeWhile (· ≠ ')') with
  | ' ' :: operands => return ⟨0, .ofList gate, argument.map .ofList, .ofList operands⟩
  | _ => none

def read? (text : String) : Option GateStatement :=
  let words := text.toList.splitOn ' '
  if words.take 2 = ["#pragma".toList, "braket".toList] then
    ofPragma? ([' '].intercalate (words.drop 2))
  else ofWords? words

theorem call?_of_notMem {name : List Char} (h : '(' ∉ name) : call? name = some (name, none) := by
  have hdrop : name.dropWhile (· ≠ '(') = [] := by
    simpa [List.dropWhile_eq_nil_iff] using fun c hc (heq : c = '(') => h (heq ▸ hc)
  simp only [call?, hdrop]

theorem call?_append {name : List Char} (h : '(' ∉ name) (argument : List Char) :
    call? (name ++ '(' :: (argument ++ [')'])) = some (name, some argument) := by
  have hname : ∀ c ∈ name, decide (c ≠ '(') = true := fun c hc =>
    decide_eq_true fun heq => h (heq ▸ hc)
  obtain ⟨hdrop, htake⟩ := dropWhile_stop hname (by decide : decide ('(' ≠ '(') = false)
    (argument ++ [')'])
  simp only [call?, hdrop, htake, before?_append, Option.map_some]

theorem head?_splitOn {c : Char} (hc : c ≠ ' ') (cs : List Char) :
    ∃ word, ((c :: cs).splitOn ' ').head? = some (c :: word) := by
  rw [List.splitOn_cons_eq_if_modifyHead, if_neg (by simpa using hc)]
  cases hwords : cs.splitOn ' ' with
  | nil => exact absurd hwords (List.splitOn_ne_nil ' ' cs)
  | cons word words => exact ⟨word, rfl⟩

theorem ofWords?_of_head {word : List Char} {words : List (List Char)}
    (h : words.head? ≠ some ['@']) :
    ofWords? (word :: words) = (do
      let (gate, argument) ← call? word
      let operands ← before? ';' ([' '].intercalate words)
      return ⟨0, .ofList gate, argument.map .ofList, .ofList operands⟩) := by
  cases words with
  | nil => rfl
  | cons second words =>
    rw [ofWords?]
    intro rest hrest
    cases hrest
    exact h rfl

theorem read?_of_head {text : String}
    (h : (text.toList.splitOn ' ').head? ≠ some "#pragma".toList) :
    read? text = ofWords? (text.toList.splitOn ' ') := by
  rw [read?]
  refine if_neg fun hpragma => h ?_
  have htwo := congrArg List.head? hpragma
  rwa [List.head?_take, if_neg (by decide)] at htwo

/-- Where the last of some characters stands. -/
theorem split_last {c : Char} {back : List Char} (h : c ∉ back) (front : List Char) :
    ((front ++ [c]) ++ back).rdropWhile (· ≠ c) = front ++ [c] ∧
      ((front ++ [c]) ++ back).rtakeWhile (· ≠ c) = back := by
  have hback : ∀ x ∈ back.reverse, decide (x ≠ c) = true := fun x hx =>
    decide_eq_true fun heq => h (heq ▸ List.mem_reverse.mp hx)
  rw [List.rdropWhile, List.rtakeWhile, List.reverse_append, List.reverse_append,
    List.dropWhile_append_of_pos hback, List.takeWhile_append_of_pos hback]
  simp

theorem ofPragma?_append {gate argument operands : List Char} (hgate : '(' ∉ gate)
    (hoperands : ')' ∉ operands) :
    ofPragma? (gate ++ '(' :: (argument ++ ')' :: ' ' :: operands)) =
      some ⟨0, .ofList gate, some (.ofList argument), .ofList operands⟩ := by
  have hafter : ')' ∉ ' ' :: operands := List.not_mem_cons_of_ne_of_not_mem (by decide) hoperands
  obtain ⟨hcall, hrest⟩ := split_last hafter (gate ++ '(' :: argument)
  have htext : gate ++ '(' :: (argument ++ ')' :: ' ' :: operands) =
      gate ++ '(' :: argument ++ [')'] ++ ' ' :: operands := by simp
  have hcloses : gate ++ '(' :: argument ++ [')'] = gate ++ '(' :: (argument ++ [')']) := by simp
  rw [htext, ofPragma?, hcall, hrest, hcloses, call?_append hgate]
  rfl

theorem read?_pragma {text : String} {gate argument operands : List Char}
    (htext : text.toList =
      "#pragma braket ".toList ++ gate ++ '(' :: (argument ++ ')' :: ' ' :: operands))
    (hgate : '(' ∉ gate) (hoperands : ')' ∉ operands) :
    read? text = some ⟨0, .ofList gate, some (.ofList argument), .ofList operands⟩ := by
  have hwords : text.toList.splitOn ' ' = "#pragma".toList :: "braket".toList ::
      (gate ++ '(' :: (argument ++ ')' :: ' ' :: operands)).splitOn ' ' := by
    rw [htext, ← List.splitOn_append_cons_self_of_not_mem (by decide : ' ' ∉ "braket".toList),
      ← List.splitOn_append_cons_self_of_not_mem (by decide : ' ' ∉ "#pragma".toList)]
    simp
  rw [read?, hwords]
  refine (if_pos rfl).trans ?_
  rw [List.drop_succ_cons, List.drop_succ_cons, List.drop_zero, List.intercalate_splitOn,
    ofPragma?_append hgate hoperands]

end GateStatement

/-! ## 2. Gates under modifiers -/

namespace ModifierGate

open GateStatement

section Lowering

variable {R : Type}

def innermost : ModifierGate R → ModifierGate R
  | ctrl _ base => base.innermost
  | g => g

def addedControls : ModifierGate R → Nat
  | ctrl n base => base.addedControls + n
  | _ => 0

/-- Each modifier adds a word of controls. -/
def Counted : ModifierGate R → Prop
  | ctrl n base => n < wordSize ∧ base.Counted
  | _ => True

/-- Whether a gate is neither under a modifier nor given by its matrix. -/
def isNamed : ModifierGate R → Bool
  | ctrl _ _ | unitary _ => false
  | _ => true

theorem name_innermost (g : ModifierGate R) : g.innermost.name = g.name := by
  induction g with
  | ctrl n base ih => exact ih
  | _ => rfl

theorem name_letters (g : ModifierGate R) :
    g.name.toList ≠ [] ∧ ∀ c ∈ g.name.toList, c.isLower = true := by
  induction g with
  | ctrl n base ih => exact ih
  | _ => simp [name, Char.isLower]

variable [Zero R] [One R] [Add R] [Sub R] [Neg R] [Mul R] [Elementary R]

/-- **What is simulated comes from all modifiers.** -/
theorem lowered_eq (g : ModifierGate R) :
    g.lowered = (g.innermost.lowered.1, g.innermost.lowered.2 + g.addedControls) := by
  induction g with
  | ctrl n base ih =>
    rw [lowered, ih, innermost, addedControls, ← Nat.add_assoc]
  | _ => rfl

omit [Zero R] [One R] [Add R] [Sub R] [Neg R] [Mul R] [Elementary R] in
theorem counted_of_lt {g : ModifierGate R} (h : g.addedControls < wordSize) : g.Counted := by
  induction g with
  | ctrl n base ih =>
    rw [addedControls] at h
    exact ⟨by omega, ih (by omega)⟩
  | _ => trivial

/-- A word added to what has been counted. -/
theorem reduce_bind_add [Build] {n : Nat} (hn : n < wordSize) (m : Nat) :
    (do
      let inner ← Word.reduce wordSize m
      if inner = 0 then .ok n else Word.add inner n) = Word.reduce wordSize (m + n) := by
  have hok : ∀ {k : Nat} (f : Nat → Except MachineFault Nat),
      (do let inner ← Except.ok k; f inner) = f k := fun _ => rfl
  by_cases hm : m < wordSize
  · rw [Word.reduce_of_lt hm, hok]
    split
    · next hzero => rw [hzero, Nat.zero_add, Word.reduce_of_lt hn]
    · rfl
  cases hchecks : Build.checks with
  | true =>
    have hover : ∀ k, wordSize ≤ k → Word.reduce wordSize k = .error .overflow := fun k hk =>
      Word.reduce_eq_error_iff.mpr ⟨⟨hk, hchecks⟩, rfl⟩
    rw [hover m (Nat.not_lt.mp hm), hover (m + n) (Nat.le_add_right_of_le (Nat.not_lt.mp hm))]
    rfl
  | false =>
    rw [Word.reduce_of_wraps hchecks wordSize m, hok, Word.reduce_of_wraps hchecks]
    split
    · next hzero => rw [Nat.add_mod, hzero, Nat.zero_add, Nat.mod_mod, Nat.mod_eq_of_lt hn]
    · rw [Word.add, Word.reduce_of_wraps hchecks, Nat.mod_add_mod]

/-- The controls of the modifiers are added one after the other, each sum a word of the build. -/
theorem lowered?_eq [Build] {g : ModifierGate R} (h : g.Counted) :
    g.lowered? = (Word.reduce wordSize g.lowered.2).map fun controls => (g.lowered.1, controls) := by
  induction g with
  | ctrl n base ih =>
    have hsum := reduce_bind_add h.1 base.lowered.2
    rw [lowered, ← hsum, lowered?, ih h.2]
    cases Word.reduce wordSize base.lowered.2 with
    | error fault => rfl
    | ok inner =>
      simp only [Except.map, bind, Except.bind]
      split
      · rfl
      · cases Word.add inner n <;> rfl
  | _ => rfl

end Lowering

def parameter? : ModifierGate Float → Option String
  | unitary u => some (matrixText u.matrix)
  | g => g.angle?.map (Decimal.text .plain)

def operandText (qubits : List Nat) : String :=
  ", ".intercalate (qubits.map fun q => "q[" ++ toString q ++ "]")

/-- What is written of a gate: the outermost modifier, and the gate right under it. -/
def written (g : ModifierGate Float) (qubits : List Nat) : GateStatement :=
  match g with
  | ctrl n base => ⟨n, base.name, base.angle?.map (Decimal.text .plain), operandText qubits⟩
  | g => ⟨0, g.name, g.parameter?, operandText qubits⟩

theorem bracket_notMem_name (g : ModifierGate Float) : '(' ∉ g.name.toList := fun h =>
  absurd (g.name_letters.2 _ h) (by decide)

theorem call?_callText (g : ModifierGate Float) : call? g.callText.toList =
    some (g.name.toList, (g.angle?.map (Decimal.text .plain)).map String.toList) := by
  rw [callText]
  cases g.angle? with
  | none => exact call?_of_notMem g.bracket_notMem_name
  | some a =>
    have htext : (g.name ++ "(" ++ Decimal.text .plain a ++ ")").toList =
        g.name.toList ++ '(' :: ((Decimal.text .plain a).toList ++ [')']) := by simp
    simp only [htext, call?_append g.bracket_notMem_name, Option.map_some]

theorem blank_notMem_callText (g : ModifierGate Float) : ' ' ∉ g.callText.toList := by
  have hangle := Decimal.notMem_text (c := ' ') (by decide) (by decide)
  have hname : ' ' ∉ g.name.toList := fun h => absurd (g.name_letters.2 _ h) (by decide)
  rw [callText]
  cases g.angle? with
  | none => exact hname
  | some a => simp [hname, hangle]

theorem toList_operandText_cons (q : Nat) (qubits : List Nat) :
    ∃ others, (operandText (q :: qubits)).toList =
        'q' :: '[' :: (Nat.toDigits 10 q ++ ']' :: others) ∧
      (others = [] ∨ others = ',' :: ' ' :: (operandText qubits).toList) := by
  have hoperand : ("q[" ++ toString q ++ "]").toList =
      'q' :: '[' :: (Nat.toDigits 10 q ++ [']']) := by
    simp [Nat.toString_eq_repr, Nat.toList_repr]
  cases qubits with
  | nil => exact ⟨[], by rw [operandText, List.map_singleton, String.intercalate_singleton, hoperand],
      .inl rfl⟩
  | cons q' qubits =>
    refine ⟨_, ?_, .inr rfl⟩
    rw [operandText, operandText, List.map_cons, List.map_cons, String.intercalate_cons_cons,
      String.toList_append, String.toList_append, hoperand]
    simp

/-- No operand is taken for the sign after a modifier. -/
theorem head?_operands (qubits : List Nat) :
    ((operandText qubits ++ ";").toList.splitOn ' ').head? ≠ some ['@'] := by
  obtain ⟨c, cs, htext, hblank, hsign⟩ :
      ∃ c cs, (operandText qubits ++ ";").toList = c :: cs ∧ c ≠ ' ' ∧ c ≠ '@' := by
    cases qubits with
    | nil => exact ⟨';', [], rfl, by decide, by decide⟩
    | cons q qubits =>
      obtain ⟨others, hothers, -⟩ := toList_operandText_cons q qubits
      exact ⟨'q', _, by rw [String.toList_append, hothers, List.cons_append], by decide, by decide⟩
  obtain ⟨word, hword⟩ := head?_splitOn hblank cs
  rw [htext, hword]
  simp [hsign]

/-- No operand closes the bracket of a matrix. -/
theorem bracket_notMem_operandText (qubits : List Nat) : ')' ∉ (operandText qubits).toList := by
  induction qubits with
  | nil => decide
  | cons q qubits ih =>
    have hdigits : ')' ∉ Nat.toDigits 10 q := notMem_toDigits (by decide) q
    obtain ⟨others, hothers, rfl | rfl⟩ := toList_operandText_cons q qubits
    · simp [hothers, hdigits]
    · simp [hothers, hdigits, ih]

theorem splitOn_callText (g : ModifierGate Float) (qubits : List Nat) :
    (g.callText ++ " " ++ operandText qubits ++ ";").toList.splitOn ' ' =
      g.callText.toList :: (operandText qubits ++ ";").toList.splitOn ' ' := by
  rw [← List.splitOn_append_cons_self_of_not_mem g.blank_notMem_callText]
  simp

theorem ofWords?_callText (g : ModifierGate Float) (qubits : List Nat) :
    ofWords? ((g.callText ++ " " ++ operandText qubits ++ ";").toList.splitOn ' ') =
      some ⟨0, g.name, g.angle?.map (Decimal.text .plain), operandText qubits⟩ := by
  have hoperands : before? ';' ([' '].intercalate ((operandText qubits ++ ";").toList.splitOn ' ')) =
      some (operandText qubits).toList := by
    rw [List.intercalate_splitOn, String.toList_append]
    exact before?_append _ _
  rw [splitOn_callText, ofWords?_of_head (head?_operands qubits), call?_callText, hoperands]
  cases g.angle? <;> simp

theorem callText_ne_pragma (g : ModifierGate Float) : g.callText.toList ≠ "#pragma".toList := by
  intro h
  have hcall := g.call?_callText
  rw [h, call?_of_notMem (by decide)] at hcall
  have hname : "#pragma".toList = g.name.toList := congrArg Prod.fst (Option.some.inj hcall)
  have hletter : '#'.isLower = true := g.name_letters.2 '#' (hname ▸ by decide)
  exact absurd hletter (by decide)

def modifierWord (n : Nat) : List Char :=
  if n = 1 then "ctrl".toList else "ctrl".toList ++ '(' :: (Nat.toDigits 10 n ++ [')'])

theorem modifier?_modifierWord (n : Nat) : modifier? (modifierWord n) = some n := by
  have hname : '(' ∉ "ctrl".toList := by decide
  rw [modifierWord]
  split
  · next hone =>
    rw [modifier?, call?_of_notMem hname, hone]
    rfl
  · rw [modifier?, call?_append hname]
    exact natural?_toDigits n

theorem splitOn_ctrl (n : Nat) (text : String) :
    ((if n = 1 then "ctrl @ " else "ctrl(" ++ toString n ++ ") @ ") ++ text).toList.splitOn ' ' =
      modifierWord n :: ['@'] :: text.toList.splitOn ' ' := by
  have htext : ((if n = 1 then "ctrl @ " else "ctrl(" ++ toString n ++ ") @ ") ++ text).toList =
      modifierWord n ++ ' ' :: (['@'] ++ ' ' :: text.toList) := by
    rw [modifierWord]
    split
    · simp
    · simp [Nat.toString_eq_repr, Nat.toList_repr]
  have hblank : ' ' ∉ modifierWord n := by
    have hdigits : ' ' ∉ Nat.toDigits 10 n := notMem_toDigits (by decide) n
    rw [modifierWord]
    split
    · decide
    · simp [hdigits]
  rw [htext, List.splitOn_append_cons_self_of_not_mem hblank,
    List.splitOn_append_cons_self_of_not_mem (by decide)]

theorem statementText_of_isNamed {g : ModifierGate Float} (h : g.isNamed = true)
    (qubits : List Nat) :
    g.statementText qubits = g.callText ++ " " ++ operandText qubits ++ ";" := by
  cases g <;> first | rfl | cases h

theorem written_of_isNamed {g : ModifierGate Float} (h : g.isNamed = true) (qubits : List Nat) :
    g.written qubits = ⟨0, g.name, g.angle?.map (Decimal.text .plain), operandText qubits⟩ := by
  cases g <;> first | rfl | cases h

theorem read?_of_isNamed {g : ModifierGate Float} (h : g.isNamed = true) (qubits : List Nat) :
    read? (g.statementText qubits) = some (g.written qubits) := by
  have hhead : ((g.callText ++ " " ++ operandText qubits ++ ";").toList.splitOn ' ').head? ≠
      some "#pragma".toList := by
    rw [splitOn_callText]
    exact fun heq => g.callText_ne_pragma (Option.some.inj heq)
  rw [statementText_of_isNamed h, read?_of_head hhead, ofWords?_callText, written_of_isNamed h]

theorem read?_ctrl (n : Nat) (base : ModifierGate Float) (qubits : List Nat) :
    read? ((ctrl n base).statementText qubits) = some ((ctrl n base).written qubits) := by
  have htext : (ctrl n base).statementText qubits =
      (if n = 1 then "ctrl @ " else "ctrl(" ++ toString n ++ ") @ ") ++
        (base.callText ++ " " ++ operandText qubits ++ ";") := by
    rw [← String.append_assoc, ← String.append_assoc, ← String.append_assoc]
    rfl
  have hmodifier : modifierWord n ≠ "#pragma".toList := by
    rw [modifierWord]
    split <;> simp
  have hwords := splitOn_ctrl n (base.callText ++ " " ++ operandText qubits ++ ";")
  rw [← htext] at hwords
  rw [read?_of_head (by simpa [hwords] using hmodifier), hwords, ofWords?, modifier?_modifierWord,
    ofWords?_callText]
  simp [written]

theorem read?_unitary (u : CustomGate Float) (qubits : List Nat) :
    read? ((unitary u).statementText qubits) = some ((unitary u).written qubits) := by
  have hstatement : (unitary u).statementText qubits =
      "#pragma braket unitary(" ++ matrixText u.matrix ++ ") " ++ operandText qubits := rfl
  have htext : ((unitary u).statementText qubits).toList = "#pragma braket ".toList ++
      "unitary".toList ++ '(' :: ((matrixText u.matrix).toList ++ ')' :: ' ' ::
        (operandText qubits).toList) := by
    rw [hstatement]
    simp
  rw [read?_pragma htext (by decide) (bracket_notMem_operandText qubits)]
  simp [written, name, parameter?]

/-- **What is written comes from the outermost modifier** and the gate right under it. -/
theorem read?_statementText (g : ModifierGate Float) (qubits : List Nat) :
    read? (g.statementText qubits) = some (g.written qubits) := by
  cases g with
  | ctrl n base => exact read?_ctrl n base qubits
  | unitary u => exact read?_unitary u qubits
  | _ => exact read?_of_isNamed rfl qubits

/-- What stands in brackets is that of the innermost gate only if it stands right there. -/
theorem angle?_eq_parameter?_iff (base : ModifierGate Float) :
    base.angle?.map (Decimal.text .plain) = base.innermost.parameter? ↔
      base.isNamed = true ∨ base.innermost.parameter? = none := by
  cases base with
  | ctrl n base => simp [angle?, isNamed, eq_comm]
  | unitary u => simp [angle?, isNamed, innermost, parameter?]
  | _ => exact iff_of_true rfl (.inl rfl)

/-- What is written besides the controls, against the gate under all modifiers. -/
theorem written_eq (g : ModifierGate Float) (qubits : List Nat) :
    (g.written qubits).gate = g.innermost.name ∧
      (g.written qubits).operands = operandText qubits ∧
      ((g.written qubits).argument = g.innermost.parameter? ↔ ∀ n base, g = ctrl n base →
        base.isNamed = true ∨ base.innermost.parameter? = none) := by
  cases g with
  | ctrl n base =>
    refine ⟨base.name_innermost.symm, rfl, (angle?_eq_parameter?_iff base).trans
      ⟨fun h m under heq => ?_, fun h => h n base rfl⟩⟩
    rwa [← (ctrl.inj heq).2]
  | _ => exact ⟨rfl, rfl, iff_of_true rfl nofun⟩

/-- What the outermost modifier adds is written, and the modifiers under it add the rest. -/
theorem exists_addedControls (g : ModifierGate Float) (qubits : List Nat) :
    ∃ under, g.addedControls = under + (g.written qubits).controls ∧
      ∀ P : Nat → Prop, P 0 → (P under ↔ ∀ n base, g = ctrl n base → P base.addedControls) := by
  cases g with
  | ctrl n base =>
    refine ⟨base.addedControls, rfl, fun P _ => ⟨fun h m under heq => ?_, fun h => h n base rfl⟩⟩
    rwa [← (ctrl.inj heq).2]
  | _ => exact ⟨0, rfl, fun P hzero => iff_of_true hzero nofun⟩

/-- A count that has gone around is the one without the controls under the outermost modifier only
    if going around has lost all of these. -/
theorem wrapped_eq_iff {own under outermost : Nat} :
    (own + (under + outermost)) % wordSize = own + outermost ↔
      own + outermost < wordSize ∧ wordSize ∣ under := by
  have hsum : own + (under + outermost) = under + (own + outermost) := by omega
  rw [hsum]
  constructor
  · intro h
    have hlt : own + outermost < wordSize := h ▸ Nat.mod_lt _ (by decide)
    refine ⟨hlt, (Nat.modEq_zero_iff_dvd).mp (Nat.ModEq.add_right_cancel' (own + outermost) ?_)⟩
    rw [Nat.ModEq, h, Nat.zero_add, Nat.mod_eq_of_lt hlt]
  · rintro ⟨hlt, k, rfl⟩
    rw [Nat.mul_add_mod, Nat.mod_eq_of_lt hlt]

/-- **What is written and what is simulated.**  A statement can be read; it names the innermost gate
    and has the operands, and the angle or matrix of the gate is in it, if there is one, exactly if
    the gate has a name and stands right under the outermost modifier.  Where the controls of the
    gate and of its modifiers are a word together, those written are the ones that are simulated
    besides the gate's own exactly if the outermost modifier adds all of them.  Where they are none
    a checked build lowers nothing, and in the other one they agree if what is lost is no more than
    the modifiers under the outermost one add. -/
theorem statement_agrees [Build] (g : ModifierGate Float) (qubits : List Nat) :
    ∃ s, read? (g.statementText qubits) = some s ∧
      s.gate = g.innermost.name ∧ s.operands = operandText qubits ∧
      (s.argument = g.innermost.parameter? ↔ ∀ n base, g = ctrl n base →
        base.isNamed = true ∨ base.innermost.parameter? = none) ∧
      (let own := g.innermost.lowered
       (own.2 + g.addedControls < wordSize →
          g.lowered? = .ok (own.1, own.2 + g.addedControls) ∧
            (own.2 + g.addedControls = own.2 + s.controls ↔
              ∀ n base, g = ctrl n base → base.addedControls = 0)) ∧
       (g.Counted → wordSize ≤ own.2 + g.addedControls →
          (Build.checks = true → g.lowered? = .error .overflow) ∧
          (Build.checks = false →
            g.lowered? = .ok (own.1, (own.2 + g.addedControls) % wordSize) ∧
            ((own.2 + g.addedControls) % wordSize = own.2 + s.controls ↔
              own.2 + s.controls < wordSize ∧
                ∀ n base, g = ctrl n base → wordSize ∣ base.addedControls)))) := by
  refine ⟨g.written qubits, read?_statementText g qubits, ?_⟩
  have hlowered := g.lowered_eq
  obtain ⟨under, hadded, hunder⟩ := g.exists_addedControls qubits
  obtain ⟨hname, hoperands, hargument⟩ := g.written_eq qubits
  refine ⟨hname, hoperands, hargument, fun hword => ⟨?_, ?_⟩,
    fun hcounted hover => ⟨fun hchecks => ?_, fun hwraps => ⟨?_, ?_⟩⟩⟩
  · have hcounted : g.Counted := counted_of_lt (by omega)
    rw [lowered?_eq hcounted, hlowered, Word.reduce_of_lt hword]
    rfl
  · rw [← hunder (· = 0) rfl]
    omega
  · rw [lowered?_eq hcounted, hlowered, Word.reduce_eq_error_iff.mpr ⟨⟨hover, hchecks⟩, rfl⟩]
    rfl
  · rw [lowered?_eq hcounted, hlowered, Word.reduce_of_wraps hwraps]
    rfl
  · rw [hadded, wrapped_eq_iff, ← hunder (wordSize ∣ ·) (Nat.dvd_zero _)]

/-- Of two controls that are added one after the other, one is written; the angle under them is
    not. -/
theorem nested_disagrees :
    (read? ((ctrl 1 (ctrl 1 x) : ModifierGate Float).statementText [0, 1]) =
        some ⟨1, "x", none, "q[0], q[1]"⟩ ∧
      (ctrl 1 (ctrl 1 x) : ModifierGate Float).lowered? =
        .ok ((x : ModifierGate Float).lowered.1, 2)) ∧
      read? ((ctrl 1 (ctrl 1 (rx 0.5))).statementText [0, 1, 2]) =
        some ⟨1, "rx", none, "q[0], q[1], q[2]"⟩ ∧
      (ctrl 1 (ctrl 1 (rx (0.5 : Float)))).innermost.angle? = some 0.5 := by
  have hpair : operandText [0, 1] = "q[0], q[1]" := by decide
  have htriple : operandText [0, 1, 2] = "q[0], q[1], q[2]" := by decide
  refine ⟨⟨?_, rfl⟩, ?_, rfl⟩
  · rw [read?_statementText, ← hpair]
    rfl
  · rw [read?_statementText, ← htriple]
    rfl

end ModifierGate

end CircuitBroker
