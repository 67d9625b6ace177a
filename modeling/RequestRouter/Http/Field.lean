/-!
Methods, header names and header values.
-/
namespace RequestRouter.Http

def isTokenChar (c : Char) : Bool :=
  c.isAlphanum || ['!', '#', '$', '%', '&', '\'', '*', '+', '-', '.', '^', '_', '`', '|', '~'].contains c

def isToken (s : String) : Bool := !s.isEmpty && s.toList.all isTokenChar

structure Method where
  name : String
  deriving DecidableEq, Repr

def Method.ofString? (s : String) : Option Method := if isToken s then some ⟨s⟩ else none

def Method.get : Method := ⟨"GET"⟩

def Method.connect : Method := ⟨"CONNECT"⟩

def lowerAscii (s : String) : String := String.ofList (s.toList.map Char.toLower)

def upperAscii (s : String) : String := String.ofList (s.toList.map Char.toUpper)

/-- A header name in its normal form, which is lower case. -/
structure HeaderName where
  name : String
  deriving DecidableEq, Repr

def maxNameLength : Nat := 65535

def HeaderName.ofString? (s : String) : Option HeaderName :=
  if isToken s ∧ s.length ≤ maxNameLength then some ⟨lowerAscii s⟩ else none

/-- A header value has no control character but the tab. -/
def isHeaderValue (s : String) : Bool :=
  s.toList.all fun c => (32 ≤ c.toNat && c.toNat != 127) || c == '\t'

def isReadable (s : String) : Bool :=
  s.toList.all fun c => (32 ≤ c.toNat && c.toNat < 127) || c == '\t'

abbrev Headers := List (HeaderName × String)

namespace Headers

def getAll (hs : Headers) (name : HeaderName) : List String :=
  hs.filterMap fun h => if h.1 = name then some h.2 else none

def get? (hs : Headers) (name : HeaderName) : Option String := (hs.getAll name).head?

def put (hs : Headers) (name : HeaderName) (value : String) : Headers :=
  hs.filter (·.1 ≠ name) ++ [(name, value)]

def text? (hs : Headers) (name : HeaderName) : Option String := (hs.get? name).filter isReadable

end Headers

end RequestRouter.Http
