/-
  CircuitBroker/Text/Duration.lean
  ================================
  **Spans of time.**

  A span is a number of nanoseconds.  Its text uses the largest unit that leaves a
  whole part, and as many places as are not zero: `5s`, `1.5s`, `1ms`, `250µs`.
-/
import CircuitBroker.Text.Decimal

namespace CircuitBroker

abbrev Duration := Nat

namespace Duration

def ofSeconds (s : Nat) : Duration := s * 1000000000

def ofMillis (ms : Nat) : Duration := ms * 1000000

def toMillis (d : Duration) : Nat := d / 1000000

/-- `n` units and `rest` parts of which a unit has `10 ^ places`, without trailing zeros. -/
def decimal (n rest places : Nat) : String :=
  if rest = 0 then toString n
  else
    let ds := Decimal.digits rest
    let ds := String.ofList (List.replicate (places - ds.length) '0') ++ ds
    let kept := (ds.toList.reverse.dropWhile (· = '0')).reverse
    toString n ++ "." ++ String.ofList kept

/-- The span in its largest unit. -/
def text (d : Duration) : String :=
  if 1000000000 ≤ d then decimal (d / 1000000000) (d % 1000000000) 9 ++ "s"
  else if 1000000 ≤ d then decimal (d / 1000000) (d % 1000000) 6 ++ "ms"
  else if 1000 ≤ d then decimal (d / 1000) (d % 1000) 3 ++ "µs"
  else toString d ++ "ns"

end Duration

end CircuitBroker
