import RequestRouter.Data.Node
import RequestRouter.Handler
import RequestRouter.Text.Classes
/-!
Dispatching one request that is written down as texts, with a report of what became of it.
-/
namespace RequestRouter

open RequestRouter.Http

inductive DispatchError where
  | headerWithoutColon (header : String)
  | invalidRequest (method url : String)
  deriving DecidableEq, Repr

def DispatchError.message : DispatchError → String
  | headerWithoutColon h => "header `" ++ h ++ "` is not `name:value`"
  | invalidRequest method url => "invalid request " ++ method ++ " " ++ url

structure Report where
  status : Nat
  /-- The text of the handler, if one answered with success. -/
  handler : Option String
  route : Option String
  /-- Sorted by name. -/
  vars : List (String × String)
  location : Option String
  allow : Option String
  deriving DecidableEq, Repr

namespace Report

/-- The name and the value of a header written with a colon, without white space around them. -/
def splitHeader (header : String) : Except DispatchError (String × String) :=
  match Text.Form.cut ':' header.toList with
  | (_, none) => .error (.headerWithoutColon header)
  | (name, some value) => .ok (String.ofList (Text.trim name), String.ofList (Text.trim value))

def isSuccess (status : Nat) : Bool := 200 ≤ status && status < 300

def ofExchange (ex : Exchange) : Report where
  status := ex.response.status
  handler := if isSuccess ex.response.status && ex.request.route.isSome then some ex.response.body else none
  route := ex.request.route.bind (·.name)
  vars := Data.sortPairs (ex.request.vars.getD [])
  location := ex.response.headers.text? ⟨"location"⟩
  allow := ex.response.headers.text? ⟨"allow"⟩

end Report

/-- Serves the request that the texts spell; the method may be in lower case. -/
def Service.dispatch (service : Service) (r : Router Handler) (method : String) (headers : List String) (tls : Bool)
    (url : String) (w : Wraps Handler) : Except DispatchError (Report × Wraps Handler) := do
  let headers ← headers.mapM Report.splitHeader
  match Request.ofTexts? (upperAscii method) url headers (some tls) with
  | none => throw (.invalidRequest method url)
  | some req =>
    let (ex, w) := service.serve r ⟨req, .empty⟩ w
    return (.ofExchange ex, w)

end RequestRouter
