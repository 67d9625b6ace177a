import RequestRouter.Text.Coding
/-!
Paths. The canonical form of a path starts with `/`, has no empty segment except a last one, and no `.` or `..`
segment. On the wire every segment is percent-encoded and the slashes stay.
-/
namespace RequestRouter.Path

open RequestRouter.Text

/-- One step of reading a path left to right, with the segments kept so far in reverse: empty segments and
`.` are dropped, `..` takes back the last one kept. -/
def step (kept : List (List Char)) (segment : List Char) : List (List Char) :=
  if segment = [] ∨ segment = ['.'] then kept
  else if segment = ['.', '.'] then kept.tail
  else segment :: kept

def segments (path : List Char) : List (List Char) := ((path.splitOn '/').foldl step []).reverse

def ofSegments (segs : List (List Char)) : List Char := segs.flatMap ('/' :: ·)

/-- The canonical form of a path; a final slash stays, and the root keeps its slash. -/
def cleanChars (path : List Char) : List Char :=
  let body := ofSegments (segments path)
  if body = [] ∨ path.getLast? = some '/' then body ++ ['/'] else body

def clean (path : String) : String := String.ofList (cleanChars path.toList)

/-- Canonical paths: the root, or nonempty segments other than `.` and `..`, each after a slash, with or
without a final slash. -/
def Canonical (path : List Char) : Prop :=
  path = ['/'] ∨ ∃ segs : List (List Char), segs ≠ [] ∧
    (∀ s ∈ segs, s ≠ [] ∧ s ≠ ['.'] ∧ s ≠ ['.', '.'] ∧ '/' ∉ s) ∧
    (path = ofSegments segs ∨ path = ofSegments segs ++ ['/'])

def encodeChars (path : List Char) : List Char :=
  ['/'].intercalate ((path.splitOn '/').map Percent.encode)

def encode (path : String) : String := String.ofList (encodeChars path.toList)

/-- A path whose octets do not decode to UTF-8 stands for itself. -/
def decodeChars (raw : List Char) : List Char := (Percent.decode? raw).getD raw

def decode (raw : String) : String := String.ofList (decodeChars raw.toList)

end RequestRouter.Path
