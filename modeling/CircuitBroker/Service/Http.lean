/-
  CircuitBroker/Service/Http.lean
  ===============================
  **Requests and replies.**

  A service is reached by requests, each of which a transport answers with a reply or with
  the reason why there is none.  `requestTarget` is the form in which an address travels:
  without what a reader of addresses drops, and with the characters that have no place
  there written by their bytes.
-/
import CircuitBroker.Json.Parser
import CircuitBroker.Json.Printer

namespace CircuitBroker

structure HttpRequest where
  method : String
  path : String
  headers : List (String × String)
  body : String
  deriving DecidableEq, Inhabited

structure HttpReply where
  status : Nat
  body : String
  deriving DecidableEq, Inhabited

/-- A way to have requests answered; `.error` says why one was not. -/
abbrev Transport (σ : Type) := HttpRequest → σ → Except String HttpReply × σ

def Transport.offline {σ : Type} : Transport σ := fun request world =>
  (.error ("error sending request for url (" ++ request.path ++ ")"), world)

namespace HttpReply

def isSuccess (r : HttpReply) : Bool := 200 ≤ r.status && r.status < 300

/-- Whether replies of this status have a body. -/
def hasBody (r : HttpReply) : Bool := r.status ≠ 204 && r.status ≠ 304

def json? (r : HttpReply) : Option Json := if r.hasBody then Json.parse? r.body else none

def reasons : List (Nat × String) :=
  [(100, "Continue"), (101, "Switching Protocols"), (102, "Processing"), (200, "OK"),
   (201, "Created"), (202, "Accepted"), (203, "Non Authoritative Information"),
   (204, "No Content"), (205, "Reset Content"), (206, "Partial Content"),
   (207, "Multi-Status"), (208, "Already Reported"), (226, "IM Used"),
   (300, "Multiple Choices"), (301, "Moved Permanently"), (302, "Found"), (303, "See Other"),
   (304, "Not Modified"), (305, "Use Proxy"), (307, "Temporary Redirect"),
   (308, "Permanent Redirect"), (400, "Bad Request"), (401, "Unauthorized"),
   (402, "Payment Required"), (403, "Forbidden"), (404, "Not Found"),
   (405, "Method Not Allowed"), (406, "Not Acceptable"),
   (407, "Proxy Authentication Required"), (408, "Request Timeout"), (409, "Conflict"),
   (410, "Gone"), (411, "Length Required"), (412, "Precondition Failed"),
   (413, "Payload Too Large"), (414, "URI Too Long"), (415, "Unsupported Media Type"),
   (416, "Range Not Satisfiable"), (417, "Expectation Failed"), (418, "I'm a teapot"),
   (421, "Misdirected Request"), (422, "Unprocessable Entity"), (423, "Locked"),
   (424, "Failed Dependency"), (425, "Too Early"), (426, "Upgrade Required"),
   (428, "Precondition Required"), (429, "Too Many Requests"),
   (431, "Request Header Fields Too Large"), (451, "Unavailable For Legal Reasons"),
   (500, "Internal Server Error"), (501, "Not Implemented"), (502, "Bad Gateway"),
   (503, "Service Unavailable"), (504, "Gateway Timeout"),
   (505, "HTTP Version Not Supported"), (506, "Variant Also Negotiates"),
   (507, "Insufficient Storage"), (508, "Loop Detected"), (510, "Not Extended"),
   (511, "Network Authentication Required")]

def statusText (status : Nat) : String :=
  let reason := match reasons.find? (·.1 = status) with
    | some (_, phrase) => phrase
    | none => "<unknown status code>"
  toString status ++ " " ++ reason

end HttpReply

namespace Http

/-- Whether a text may be the value of a header: no control characters but the tab. -/
def isHeaderText (s : String) : Bool :=
  s.toList.all fun c => c = '\t' || (32 ≤ c.toNat && c.toNat ≠ 127)

/-! ### Addresses -/

def percentByte (b : UInt8) : String :=
  String.ofList
    ['%', Nat.digitChar (b.toNat / 16) |>.toUpper, Nat.digitChar (b.toNat % 16) |>.toUpper]

def percentChar (c : Char) : String :=
  String.join (c.toString.toUTF8.toList.map percentByte)

/-- A text in which only the characters of a class stand for themselves. -/
def percentEncode (plain : Char → Bool) (s : String) : String :=
  String.join (s.toList.map fun c => if plain c then c.toString else percentChar c)

def visibleExcept (excluded : String) (c : Char) : Bool :=
  32 < c.toNat && c.toNat < 127 && !excluded.toList.contains c

/-- Letters, digits and the four marks that every address may hold. -/
def isUnreserved (c : Char) : Bool := c.isAlphanum || "-._~".toList.contains c

/-- A segment that stands for the directory it is in. -/
def isDot (segment : String) : Bool :=
  segment == "." || segment == "%2e" || segment == "%2E"

def isDoubleDot (segment : String) : Bool :=
  ["..", ".%2e", "%2e.", "%2e%2e"].contains (segment.map Char.toLower)

/-- The segments of a path once those for directories are resolved; `done` holds the ones
    before, last first.  A path that ends in a directory ends in an empty segment. -/
def resolveSegments (done : List String) : List String → List String
  | [] => done.reverse
  | s :: rest =>
    let directory (done : List String) : List String :=
      if rest.isEmpty then "" :: done else done
    if isDoubleDot s then resolveSegments (directory done.tail) rest
    else if isDot s then resolveSegments (directory done) rest
    else resolveSegments (s :: done) rest

def cut (stop : Char → Bool) (s : List Char) : List Char × Option (List Char) :=
  match s.dropWhile (!stop ·) with
  | [] => (s, none)
  | _ :: rest => (s.takeWhile (!stop ·), some rest)

/-- The path and the query with which an address below a host is asked for. -/
def requestTarget (address : String) : String :=
  let cs := address.toList.filter fun c => c ≠ '\t' && c ≠ '\n' && c ≠ '\r'
  let cs := (cs.reverse.dropWhile (·.toNat ≤ 32)).reverse
  let (cs, _) := cut (· = '#') cs
  let (path, query) := cut (· = '?') cs
  let segments := (String.ofList path).split (fun c => c = '/' || c = '\\')
  let segments := segments.toList.map fun s => s.toString
  let segments := match segments with
    | "" :: rest => rest
    | all => all
  let segments := resolveSegments [] segments
  let path := "/" ++ "/".intercalate (segments.map (percentEncode (visibleExcept "\"#<>?`\x7b\x7d")))
  match query with
  | some q => path ++ "?" ++ percentEncode (visibleExcept "\"#<>'") (String.ofList q)
  | none => path

end Http

end CircuitBroker
