/-
  CircuitBroker/Backend.lean
  ==========================
  **The backends a circuit can be sent to.**

  A backend has one name and some aliases.  A person may write either in any case and
  with blanks around it (`Backend.parse?`); a document must use the exact spelling
  (`Backend.ofDocumentName?`).
-/

namespace CircuitBroker

/-- The backends, in the order in which they are listed. -/
inductive Backend where
  | qiskit | cirq | ionq | braket | qsharp
  deriving DecidableEq, Inhabited

namespace Backend

def all : List Backend := [qiskit, cirq, ionq, braket, qsharp]

def name : Backend → String
  | qiskit => "qiskit"
  | cirq => "cirq"
  | ionq => "ionq"
  | braket => "braket"
  | qsharp => "qsharp"

def title : Backend → String
  | qiskit => "Qiskit"
  | cirq => "Cirq"
  | ionq => "IonQ"
  | braket => "Braket"
  | qsharp => "QSharp"

def aliases : Backend → List String
  | qiskit => ["ibm"]
  | cirq => ["google"]
  | ionq => []
  | braket => ["amazon", "aws"]
  | qsharp => ["microsoft"]

/-- The backend a document means: a name or an alias, spelled exactly. -/
def ofDocumentName? (s : String) : Option Backend :=
  all.find? fun b => b.name == s || b.aliases.contains s

def isBlank (c : Char) : Bool :=
  let n := c.toNat
  n = 0x20 || (0x09 ≤ n && n ≤ 0x0D) || n = 0x85 || n = 0xA0 || n = 0x1680 ||
    (0x2000 ≤ n && n ≤ 0x200A) || n = 0x2028 || n = 0x2029 || n = 0x202F || n = 0x205F ||
    n = 0x3000

def trim (s : String) : String :=
  String.ofList ((s.toList.dropWhile isBlank).reverse.dropWhile isBlank).reverse

def normalize (s : String) : String := String.ofList ((trim s).toList.map Char.toLower)

/-- The backend a person means.  `.error` carries the name as it was compared. -/
def parse? (s : String) : Except String Backend :=
  let key := normalize s
  match ofDocumentName? key with
  | some b => .ok b
  | none => if key == "q#" then .ok qsharp else .error key

end Backend

end CircuitBroker
