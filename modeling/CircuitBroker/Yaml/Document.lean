/-
  CircuitBroker/Yaml/Document.lean
  ================================
  **Documents from their tokens.**

  Each kind of collection has its own rule for where a value may be missing.  A text holds
  at most one document; a text without any stands for nothing.

  An anchor gets the number of different names before it.  A name that is given again takes
  the number that the next new name will take, too.
-/
import CircuitBroker.Yaml

namespace CircuitBroker.Yaml

/-! ### Tags -/

/-- What the handles of tags are short for. -/
abbrev Handles := List (String × String)

def defaultHandles : Handles := [("!", "!"), ("!!", "tag:yaml.org,2002:")]

def fullTag? (handles : Handles) (handle ending : String) : Option String :=
  if handle.isEmpty then some ending else (handles.lookup handle).map (· ++ ending)

structure Properties where
  anchor : Option String
  tag : Option (String × String)

/-- An anchor and a tag, in any order, and the tokens after them. -/
def Properties.read : List Token → Properties × List Token
  | .anchor name :: .tag handle ending :: ts => (⟨some name, some (handle, ending)⟩, ts)
  | .tag handle ending :: .anchor name :: ts => (⟨some name, some (handle, ending)⟩, ts)
  | .anchor name :: ts => (⟨some name, none⟩, ts)
  | .tag handle ending :: ts => (⟨none, some (handle, ending)⟩, ts)
  | ts => (⟨none, none⟩, ts)

/-! ### Values -/

structure Remainder where
  tokens : List Token
  /-- The names of anchors, each with its number. -/
  names : List (String × Nat)
  /-- How many anchors there have been. -/
  count : Nat
  anchored : List (Anchor × Yaml)

namespace Remainder

def goOn (r : Remainder) (tokens : List Token) : Remainder := { r with tokens }

def name (r : Remainder) : Option String → Option Anchor × Remainder
  | none => (none, r)
  | some name =>
    let others := r.names.filter (·.1 ≠ name)
    (some ⟨r.names.length, r.count⟩,
      { r with names := (name, r.names.length) :: others, count := r.count + 1 })

def keep (r : Remainder) (anchor : Option Anchor) (y : Yaml) : Yaml × Remainder :=
  match anchor with
  | some a => (y, { r with anchored := (a, y) :: r.anchored })
  | none => (y, r)

end Remainder

/-- A scalar with its tag; a tag without a name says nothing about a scalar that is there. -/
def scalarOf (style : ScalarStyle) (tag : Option String) (text : String) : Yaml :=
  .scalar ⟨style, tag.filter (· ≠ "!"), text⟩

mutual

/-- The value that comes next.  With `blocks` it can be a block, with `dashes` a list whose
    dashes stand at the column of the map it is in. -/
def node? (handles : Handles) : Nat → Bool → Bool → Remainder → Option (Yaml × Remainder)
  | 0, _, _, _ => none
  | fuel + 1, blocks, dashes, r =>
    match r.tokens with
    | .alias name :: ts => (r.names.lookup name).map fun number => (.alias number, r.goOn ts)
    | _ => do
      let (properties, ts) := Properties.read r.tokens
      let tag ← match properties.tag with
        | some (handle, ending) => (fullTag? handles handle ending).map some
        | none => some none
      let (anchor, r) := r.name properties.anchor
      let (y, r) ← match ts with
        | .scalar style text :: ts => some (scalarOf style tag text, r.goOn ts)
        | .listStart :: ts => listItems? handles fuel true [] (r.goOn ts)
        | .mapStart :: ts => mapFields? handles fuel true [] (r.goOn ts)
        | _ =>
          match ts, blocks, dashes with
          | .dash :: _, _, true => dashedItems? handles fuel [] (r.goOn ts)
          | .blockList :: ts, true, _ => blockItems? handles fuel [] (r.goOn ts)
          | .blockMap :: ts, true, _ => blockFields? handles fuel [] (r.goOn ts)
          | _, _, _ =>
            if properties.anchor.isSome || properties.tag.isSome then
              some (.scalar ⟨.plain, tag, ""⟩, r.goOn ts)
            else none
      return r.keep anchor y

/-- The value that comes next in a block, or nothing before a token that cannot start it. -/
def blockValue? (handles : Handles) : Nat → Bool → Remainder → Option (Yaml × Remainder)
  | 0, _, _ => none
  | fuel + 1, inMap, r =>
    match r.tokens with
    | .key :: _ | .colon :: _ | .blockEnd :: _ => some (empty, r)
    | .dash :: _ => if inMap then node? handles fuel true true r else some (empty, r)
    | _ => node? handles fuel true inMap r

def blockItems? (handles : Handles) : Nat → List Yaml → Remainder → Option (Yaml × Remainder)
  | 0, _, _ => none
  | fuel + 1, done, r =>
    match r.tokens with
    | .blockEnd :: ts => some (.list done.reverse, r.goOn ts)
    | .dash :: ts => do
      let (item, r) ← match ts with
        | .dash :: _ | .blockEnd :: _ => some (empty, r.goOn ts)
        | _ => node? handles fuel true false (r.goOn ts)
      blockItems? handles fuel (item :: done) r
    | _ => none

def dashedItems? (handles : Handles) : Nat → List Yaml → Remainder → Option (Yaml × Remainder)
  | 0, _, _ => none
  | fuel + 1, done, r =>
    match r.tokens with
    | .dash :: ts => do
      let (item, r) ← blockValue? handles fuel false (r.goOn ts)
      dashedItems? handles fuel (item :: done) r
    | _ => some (.list done.reverse, r)

def blockFields? (handles : Handles) :
    Nat → List (Yaml × Yaml) → Remainder → Option (Yaml × Remainder)
  | 0, _, _ => none
  | fuel + 1, done, r =>
    match r.tokens with
    | .blockEnd :: ts => some (.map done.reverse, r.goOn ts)
    | .key :: ts => do
      let (key, r) ← blockValue? handles fuel true (r.goOn ts)
      let (value, r) ← match r.tokens with
        | .colon :: ts => blockValue? handles fuel true (r.goOn ts)
        | _ => some (empty, r)
      blockFields? handles fuel ((key, value) :: done) r
    | _ => none

/-- The value that comes next in brackets, after its colon if there is one; it may be missing
    before a comma or a closing bracket. -/
def bracketValue? (handles : Handles) : Nat → Remainder → Option (Yaml × Remainder)
  | 0, _ => none
  | fuel + 1, r =>
    match r.tokens with
    | .colon :: ts =>
      match ts with
      | .comma :: _ | .listEnd :: _ | .mapEnd :: _ => some (empty, r.goOn ts)
      | _ => node? handles fuel false false (r.goOn ts)
    | _ => some (empty, r)

/-- The items of a list in brackets.  An item with a key is a map of one field; where its key
    is missing, what stands in its place is passed. -/
def listItems? (handles : Handles) :
    Nat → Bool → List Yaml → Remainder → Option (Yaml × Remainder)
  | 0, _, _, _ => none
  | fuel + 1, first, done, r => do
    let ts ← match first, r.tokens with
      | true, ts => some ts
      | false, .comma :: ts => some ts
      | false, .listEnd :: ts => some (.listEnd :: ts)
      | false, _ => none
    match ts with
    | .listEnd :: ts => some (.list done.reverse, r.goOn ts)
    | .key :: ts =>
      let (key, r) ← match ts with
        | .colon :: ts | .comma :: ts | .listEnd :: ts => some (empty, r.goOn ts)
        | _ => node? handles fuel false false (r.goOn ts)
      let (value, r) ← bracketValue? handles fuel r
      listItems? handles fuel false (.map [(key, value)] :: done) r
    | _ =>
      let (item, r) ← node? handles fuel false false (r.goOn ts)
      listItems? handles fuel false (item :: done) r

/-- The fields of a map in brackets.  A field without the mark of a key has no value. -/
def mapFields? (handles : Handles) :
    Nat → Bool → List (Yaml × Yaml) → Remainder → Option (Yaml × Remainder)
  | 0, _, _, _ => none
  | fuel + 1, first, done, r => do
    let ts ← match first, r.tokens with
      | true, ts => some ts
      | false, .comma :: ts => some ts
      | false, .mapEnd :: ts => some (.mapEnd :: ts)
      | false, _ => none
    match ts with
    | .mapEnd :: ts => some (.map done.reverse, r.goOn ts)
    | .key :: ts =>
      let (key, r) ← match ts with
        | .colon :: _ | .comma :: _ | .mapEnd :: _ => some (empty, r.goOn ts)
        | _ => node? handles fuel false false (r.goOn ts)
      let (value, r) ← bracketValue? handles fuel r
      mapFields? handles fuel false ((key, value) :: done) r
    | _ =>
      let (key, r) ← node? handles fuel false false (r.goOn ts)
      mapFields? handles fuel false ((key, empty) :: done) r

end

/-! ### Documents -/

/-- What the directives before a document say of handles, and the tokens after them.  The
    version is said once at most, and so is each handle. -/
def directives? : Bool → Handles → List Token → Option (Handles × List Token)
  | versioned, handles, .directive (.version major minor) :: ts =>
    if versioned || major ≠ 1 || !(minor = 1 || minor = 2) then none
    else directives? true handles ts
  | versioned, handles, .directive (.handle name expansion) :: ts =>
    if (handles.lookup name).isSome then none
    else directives? versioned ((name, expansion) :: handles) ts
  | _, handles, ts => some (handles ++ defaultHandles, ts)

def documentFrom? (ts : List Token) : Option (Yaml × Remainder) :=
  let read (handles : Handles) (ts : List Token) : Option (Yaml × Remainder) :=
    node? handles (4 * ts.length + 4) true false ⟨ts, [], 0, []⟩
  match ts with
  | .directive _ :: _ | .documentStart :: _ => do
    let (handles, ts) ← directives? false [] ts
    match ts with
    | .documentStart :: ts =>
      match ts with
      | [] | .directive _ :: _ | .documentStart :: _ | .documentEnd :: _ =>
        some (empty, ⟨ts, [], 0, []⟩)
      | _ => read handles ts
    | _ => none
  | _ => read defaultHandles ts

def isOver : List Token → Bool
  | [] => true
  | .documentEnd :: ts => isOver ts
  | _ => false

def parse? (text : String) : Option Document := do
  let ts ← tokens? text
  if ts.isEmpty then return ⟨empty, []⟩
  else
    let (value, r) ← documentFrom? ts
    if isOver r.tokens then return ⟨value, r.anchored⟩ else none

end CircuitBroker.Yaml
