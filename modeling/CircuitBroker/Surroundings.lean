/-
  CircuitBroker/Surroundings.lean
  ===============================
  **What a program finds around it.**

  Variables have texts or none, and a file can be read or there is a reason why not.  Both
  are looked up, never changed.
-/

namespace CircuitBroker

inductive FileFault where
  | notFound
  | denied
  | notDirectory
  | isDirectory
  | nameTooLong
  | notText
  deriving DecidableEq, Inhabited

namespace FileFault

def message : FileFault → String
  | notFound => "No such file or directory (os error 2)"
  | denied => "Permission denied (os error 13)"
  | notDirectory => "Not a directory (os error 20)"
  | isDirectory => "Is a directory (os error 21)"
  | nameTooLong => "File name too long (os error 36)"
  | notText => "stream did not contain valid UTF-8"

end FileFault

abbrev FileView := Except FileFault String

namespace FileView

def present : FileView → Bool
  | .error .notFound | .error .notDirectory | .error .nameTooLong => false
  | _ => true

def isFile (v : FileView) : Bool :=
  v.present && match v with
    | .error .isDirectory => false
    | _ => true

end FileView

structure Surroundings where
  variableOf : String → Option String
  file : String → FileView

namespace Surroundings

/-- Where a home is, by the names on the way there from the root. -/
def home : List String := ["home"]

def placed (files : List (String × String)) : List (List String × String) :=
  files.map fun (name, text) => (home ++ (name.splitOn "/").filter fun p => p ≠ "" ∧ p ≠ ".", text)

/-- What is at a place: a file, a directory on the way to a file or to the home, or nothing. -/
def viewAt (files : List (List String × String)) (place : List String) : FileView :=
  match files.find? (·.1 == place) with
  | some (_, text) => .ok text
  | none =>
    if place.isPrefixOf home || files.any (place.isPrefixOf ·.1) then .error .isDirectory
    else .error .notFound

/-- What is at the end of a way from a place.  Each step starts in a directory; a name has at
    most 255 bytes. -/
def follow (files : List (List String × String)) : List String → List String → FileView
  | place, [] => viewAt files place
  | place, step :: steps =>
    match viewAt files place with
    | .error .isDirectory =>
      if step = "" ∨ step = "." then follow files place steps
      else if step = ".." then follow files place.dropLast steps
      else if 255 < step.utf8ByteSize then .error .nameTooLong
      else follow files (place ++ [step]) steps
    | .ok _ => .error .notDirectory
    | fault => fault

/-- What a path leads to among the files of a home, in which the program starts.  A path has
    less than 4096 bytes. -/
def lookUp (files : List (String × String)) (path : String) : FileView :=
  if path.isEmpty then .error .notFound
  else if 4096 ≤ path.utf8ByteSize then .error .nameTooLong
  else follow (placed files) (if path.startsWith "/" then [] else home) (path.splitOn "/")

def ofHome (bindings files : List (String × String)) : Surroundings where
  variableOf name :=
    if name = "HOME" then some ("/" ++ "/".intercalate home)
    else (bindings.find? (·.1 = name)).map (·.2)
  file := lookUp files

def join (path part : String) : String :=
  if path.endsWith "/" then path ++ part else path ++ "/" ++ part

def settingsPath? (w : Surroundings) : Option String :=
  let absolute := (w.variableOf "XDG_CONFIG_HOME").filter (·.startsWith "/")
  let home := (w.variableOf "HOME").filter (!·.isEmpty)
  (absolute <|> home.map (join · ".config")).map (join · "qcat/config.yaml")

end Surroundings

end CircuitBroker
