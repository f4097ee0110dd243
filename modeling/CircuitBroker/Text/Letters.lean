/-
  CircuitBroker/Text/Letters.lean
  ===============================
  **Comparing names without regard to case.**

  A name is brought to one case before it is compared with an ASCII word.  For upper case
  it is enough to follow the letters that lead to ASCII: beside the ASCII letters these are
  the dotless i and the long s.
-/
import CircuitBroker.Text.Lowercase

namespace CircuitBroker.Letters

def lower (s : String) : String := String.ofList (Lowercase.lowerChars false s.toList)

/-- Upper case, as far as it leads to ASCII letters. -/
def upper (s : String) : String :=
  s.map fun c =>
    if c.toNat = 0x131 then 'I' else if c.toNat = 0x17F then 'S' else c.toUpper

end CircuitBroker.Letters
