import RequestRouter.Http.Uri
import RequestRouter.Router.Vars
/-!
Requests and responses, and what routing attaches to a request.
-/
namespace RequestRouter

open RequestRouter.Http

abbrev RouteId := Nat

structure RouteInfo where
  id : RouteId
  name : Option String
  host : Option String
  path : Option String
  methods : List Method
  deriving DecidableEq, Repr

structure Request where
  method : Method
  uri : Uri
  headers : Headers
  /-- Whether the connection is encrypted, if the server says. -/
  tls : Option Bool
  /-- The variables of the route that took the request, or ones set by hand. -/
  vars : Option Vars
  /-- The route that took the request. -/
  route : Option RouteInfo
  /-- The methods that would have been accepted, when a request fails on its method. -/
  allowed : Option (List Method)
  deriving DecidableEq, Repr

def Request.new (method : Method) (uri : Uri) (headers : Headers) (tls : Option Bool) : Request :=
  ⟨method, uri, headers, tls, none, none, none⟩

def Request.scheme (r : Request) : String :=
  r.uri.scheme.getD (if r.tls.getD false then "https" else "http")

def Request.redirected (r : Request) (uri : Uri) : Request :=
  { r with uri := { r.uri with path := uri.path, query := uri.query } }

structure Response where
  status : Nat
  headers : Headers
  body : String
  deriving DecidableEq, Repr

/-- A request and the response that is being written for it. -/
structure Exchange where
  request : Request
  response : Response

/-- Reads a request from the texts of its parts; `none` if one of them is not valid. -/
def Request.ofTexts? (method uri : String) (headers : List (String × String)) (tls : Option Bool) :
    Option Request := do
  let method ← Method.ofString? method
  let uri ← Uri.ofString? uri
  let headers ← headers.mapM fun h => do
    let name ← HeaderName.ofString? h.1
    if isHeaderValue h.2 then return (name, h.2) else none
  return .new method uri headers tls

end RequestRouter
