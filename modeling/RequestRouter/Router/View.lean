import RequestRouter.Http.Message
import RequestRouter.Path
import RequestRouter.Pattern.Template
/-!
The parts of a request that templates are matched against.
-/
namespace RequestRouter

open RequestRouter.Http RequestRouter.Text

def cutLast (c : Char) (s : List Char) : Option (List Char × List Char) :=
  match s with
  | [] => none
  | x :: xs =>
    match cutLast c xs with
    | some (before, after) => some (x :: before, after)
    | none => if x = c then some ([], xs) else none

/-- The host without its port. A host in brackets ends with its closing bracket; elsewhere a port is digits
after the last colon. -/
def stripPort (host : List Char) : List Char :=
  if host.head? = some '[' then
    if host.contains ']' then host.takeWhile (· != ']') ++ [']'] else host
  else
    match cutLast ':' host with
    | some (name, port) => if port.all Char.isDigit then name else host
    | none => host

/-- The host of a request in lower case: the authority of its target, else its host header, each without
user information. -/
def Request.host (r : Request) : List Char :=
  let raw := (r.uri.authority.getD ((r.headers.text? ⟨"host"⟩).getD "")).toList
  (((cutLast '@' raw).map (·.2)).getD raw).map Char.toLower

/-- The parts of a request, read once. -/
structure View where
  request : Request
  host : String
  hostWithoutPort : String
  rawPath : String
  decodedPath : String
  /-- The decoded parameters in order. -/
  query : List (String × String)

def View.of (r : Request) : View where
  request := r
  host := String.ofList r.host
  hostWithoutPort := String.ofList (stripPort r.host)
  rawPath := r.uri.path
  decodedPath := Path.decode r.uri.path
  query := (r.uri.query.elim [] fun q => Form.parse q.toList).map fun p =>
    (String.ofList p.1, String.ofList p.2)

def View.hostFor (v : View) (t : Template) : String := if t.ignoresPort then v.hostWithoutPort else v.host

def View.path (v : View) (encoded : Bool) : String := if encoded then v.rawPath else v.decodedPath

def View.queryValue? (v : View) (key : String) : Option String := v.query.lookup key

end RequestRouter
