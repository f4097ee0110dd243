/-
  CircuitBroker/Text/Numeral.lean
  ===============================
  **Naturals in a base.**

  The letters of either case are the digits after nine.  A numeral has at least one digit;
  `read?` also takes a plus sign before it and wants the number to be below a bound.
-/

namespace CircuitBroker.Numeral

def digit? (base : Nat) (c : Char) : Option Nat :=
  let value : Nat :=
    if '0' ≤ c ∧ c ≤ '9' then c.toNat - 48
    else if 'a' ≤ c ∧ c ≤ 'f' then c.toNat - 87
    else if 'A' ≤ c ∧ c ≤ 'F' then c.toNat - 55
    else base
  if value < base then some value else none

/-- The number some digits stand for, at least one of them. -/
def digits? (base : Nat) : List Char → Option Nat
  | [] => none
  | cs => cs.foldlM (fun n c => (digit? base c).map (n * base + ·)) 0

def afterPlus : List Char → List Char
  | '+' :: cs => cs
  | cs => cs

/-- A number below `bound`: digits, perhaps after a plus sign. -/
def read? (base bound : Nat) (s : String) : Option Nat := do
  let n ← digits? base (afterPlus s.toList)
  if n < bound then some n else none

end CircuitBroker.Numeral
