/-
  CircuitBroker/Yaml/Place.lean
  =============================
  **Places in a text.**

  A place knows what follows it, its line and column, and how many bytes come before it.
  Every step passes one character (`rest_advance`), so whoever steps at least once comes
  nearer to the end.

  A text has one kind of line break from `unifyBreaks` on, beside the two separators of
  Unicode, which are kept apart.
-/

namespace CircuitBroker.Yaml

/-! ### Characters -/

/-- A line break, the line separator or the paragraph separator. -/
def isBreak (c : Char) : Bool := c = '\n' || c = '\u2028' || c = '\u2029'

def isBlank (c : Char) : Bool := c = ' ' || c = '\t'

def isSpace (c : Char) : Bool := isBlank c || isBreak c

/-- A character of a name: an ASCII letter or digit, a line or an underline. -/
def isNameChar (c : Char) : Bool := c.isAlphanum || c = '_' || c = '-'

def isByteOrderMark (c : Char) : Bool := c = '\ufeff'

def isFlowMark (c : Char) : Bool := c = ',' || c = '[' || c = ']' || c = '\x7b' || c = '\x7d'

def isAllowed (c : Char) : Bool :=
  let n := c.toNat
  n = 9 || n = 10 || (32 ≤ n && n ≤ 126) || (160 ≤ n && n < 0xFFFE) || 65536 ≤ n

def unifyBreaks : List Char → List Char
  | '\r' :: '\n' :: cs => '\n' :: unifyBreaks cs
  | c :: cs => (if c = '\r' || c.toNat = 0x85 then '\n' else c) :: unifyBreaks cs
  | [] => []

def spaceNext (cs : List Char) : Bool := (cs.head?.map isSpace).getD true

def breakNext (cs : List Char) : Bool := (cs.head?.map isBreak).getD true

/-- Spaces between two words.  One line break stands for a blank, several for all but the
    first; a separator stands for itself. -/
def joinSpaces (spaces : List Char) : List Char :=
  if spaces.any isBreak then
    match spaces.filter isBreak with
    | ['\n'] => [' ']
    | '\n' :: further => further
    | breaks => breaks
  else spaces

/-! ### Places -/

structure Place where
  rest : List Char
  offset : Nat
  line : Nat
  column : Nat

namespace Place

def start (cs : List Char) : Place := ⟨cs, 0, 0, 0⟩

def next (p : Place) : Place :=
  match p.rest with
  | [] => p
  | c :: cs =>
    if isBreak c then ⟨cs, p.offset + c.utf8Size, p.line + 1, 0⟩
    else ⟨cs, p.offset + c.utf8Size, p.line, p.column + 1⟩

def advance : Nat → Place → Place
  | 0, p => p
  | n + 1, p => advance n p.next

theorem rest_next (p : Place) : p.next.rest = p.rest.drop 1 := by
  unfold next
  split
  · rename_i h; rw [h]; rfl
  · rename_i h; rw [h]; split <;> rfl

theorem rest_advance (n : Nat) (p : Place) : (p.advance n).rest = p.rest.drop n := by
  induction n generalizing p with
  | zero => rfl
  | succ n ih =>
    simp only [advance, ih, rest_next, List.drop_drop]
    congr 1
    omega

/-- A step from a place that is not the end leaves less. -/
theorem length_rest_advance_lt {n : Nat} {p : Place} (hn : 0 < n) (hp : p.rest ≠ []) :
    (p.advance n).rest.length < p.rest.length := by
  have := List.length_pos_iff.2 hp
  rw [rest_advance, List.length_drop]
  omega

theorem length_rest_next_lt {p : Place} {c : Char} {cs : List Char} (h : p.rest = c :: cs) :
    p.next.rest.length < p.rest.length :=
  length_rest_advance_lt Nat.one_pos (by simp [h])

/-- The characters from a place on that pass a test, and the place after them. -/
def takeWhile (p : Place) (test : Char → Bool) : List Char × Place :=
  let taken := p.rest.takeWhile test
  (taken, p.advance taken.length)

def dropWhile (p : Place) (test : Char → Bool) : Place := (p.takeWhile test).2

/-- Whether three of a character stand here at the start of a line, and then a space. -/
def atMark (p : Place) (c : Char) : Bool :=
  p.column = 0 && p.rest.take 3 == [c, c, c] && spaceNext (p.rest.drop 3)

def atDocumentMark (p : Place) : Bool := p.atMark '-' || p.atMark '.'

end Place

end CircuitBroker.Yaml
