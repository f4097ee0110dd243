/-
  CircuitBroker/CommandLine/Words.lean
  ====================================
  **The words of a command line.**

  A word is an option or plain.  The value of an option stands after `=` or is the next
  word; short names can be written together.  Words are read from left to right: a question
  for help or a mistake ends the reading, and after `--` every word is plain.
-/
import CircuitBroker.CommandLine.Rule

namespace CircuitBroker

/-! ### One word -/

inductive Word where
  /-- An option and its value, which may be a word of its own. -/
  | option (rule : OptionRule) (value : String) (apart : Bool)
  | plain (text : String)
  | help
  | version

namespace Word

/-- A word that stands for an option, and not for a value. -/
def isOption (s : String) : Bool :=
  match s.toList with
  | '-' :: _ :: _ => true
  | _ => false

def withNext (rule : OptionRule) : List String → Option (Word × List String)
  | value :: rest => if isOption value then none else some (.option rule value true, rest)
  | [] => none

/-- The option of a long name, perhaps with its value after `=`. -/
def long? (rules : List OptionRule) (versioned : Bool) (word : List Char) (rest : List String) :
    Option (Word × List String) :=
  let name := String.ofList (word.takeWhile (· ≠ '='))
  match rules.find? (·.long == name), word.dropWhile (· ≠ '=') with
  | some rule, _ :: value =>
    if rule.value = .nothing then none
    else some (.option rule (String.ofList value) false, rest)
  | some rule, [] =>
    if rule.value = .nothing then some (.option rule "" false, rest) else withNext rule rest
  | none, [] =>
    if name = "help" then some (.help, rest)
    else if name = "version" && versioned then some (.version, rest)
    else none
  | none, _ => none

/-- The option of a short name.  What follows the name is its value or, if it takes none,
    more short names, of which a dash is none. -/
def short? (rules : List OptionRule) (versioned : Bool) (name : Char) (after : List Char)
    (rest : List String) : Option (Word × List String) :=
  match rules.find? (·.short == some name) with
  | some rule =>
    match after with
    | [] => if rule.value = .nothing then some (.option rule "" false, rest) else withNext rule rest
    | c :: cs =>
      if rule.value = .nothing then
        if c = '-' then none
        else some (.option rule "" false, String.ofList ('-' :: after) :: rest)
      else some (.option rule (String.ofList (if c = '=' then cs else after)) false, rest)
  | none =>
    if name = 'h' then some (.help, rest)
    else if name = 'V' && versioned then some (.version, rest)
    else none

def next? (rules : List OptionRule) (versioned : Bool) (first : String) (rest : List String) :
    Option (Word × List String) :=
  match first.toList with
  | '-' :: '-' :: word => long? rules versioned word rest
  | '-' :: name :: after => short? rules versioned name after rest
  | _ => some (.plain first, rest)

/-- A bound on the words that can be read: every character may be one. -/
def bound (words : List String) : Nat := words.foldl (fun n w => n + w.length + 1) 1

end Word

/-! ### All words -/

inductive Reading (α : Type) where
  | done (value : α)
  | help
  | version
  | mistake

structure WordList where
  options : List (String × String)
  plain : List String

namespace WordList

def empty : WordList := ⟨[], []⟩

def value? (l : WordList) (name : String) : Option String :=
  (l.options.find? (·.1 == name)).map (·.2)

def values (l : WordList) (name : String) : List String :=
  (l.options.filter (·.1 == name)).map (·.2)

def has (l : WordList) (name : String) : Bool := (l.value? name).isSome

/-- One more option, unless it does not take the value, or is there and may not be given
    again. -/
def add? (l : WordList) (rule : OptionRule) (value : String) : Option WordList :=
  if !rule.value.accepts value || (l.has rule.long && !rule.repeats) then none
  else some { l with options := l.options ++ [(rule.long, value)] }

/-- The words of a command that takes so many plain words. -/
def read (rules : List OptionRule) (plainWords : Nat) :
    Nat → WordList → List String → Reading WordList
  | 0, _, _ => .mistake
  | _, l, [] => .done l
  | fuel + 1, l, first :: rest =>
    if first = "--" then
      if (l.plain ++ rest).length ≤ plainWords then .done { l with plain := l.plain ++ rest }
      else .mistake
    else
      match Word.next? rules false first rest with
      | none => .mistake
      | some (.help, _) => .help
      | some (.version, _) => .version
      | some (.option rule value _, rest) =>
        match l.add? rule value with
        | some l => read rules plainWords fuel l rest
        | none => .mistake
      | some (.plain text, rest) =>
        if l.plain.length < plainWords then
          read rules plainWords fuel { l with plain := l.plain ++ [text] } rest
        else .mistake

end WordList

end CircuitBroker
