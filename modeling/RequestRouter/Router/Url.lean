import RequestRouter.Router.Tree
/-!
Building URLs: the templates of a route filled in with the values of their variables.
-/
namespace RequestRouter

open RequestRouter.Http

structure BuiltUrl where
  scheme : Option String
  host : Option String
  /-- The path as it is sent. -/
  path : String
  query : Option String
  deriving DecidableEq, Repr

namespace BuiltUrl

/-- The text of a URL; the scheme stands only before a host. -/
def toText (u : BuiltUrl) : String :=
  u.host.elim "" (fun host => u.scheme.getD "http" ++ "://" ++ host) ++ u.path ++ u.query.elim "" ("?" ++ ·)

def toUri (u : BuiltUrl) : Except RouteError Uri :=
  match Uri.ofString? u.toText with
  | some uri => .ok uri
  | none => .error (.invalidUrl u.toText)

end BuiltUrl

namespace Route

variable {H : Type}

/-- The variables that a URL is built from: the given ones after the transforms of the route. -/
def prepare (r : Route H) (pairs : List (String × String)) : Except RouteError Vars :=
  match r.error with
  | some e => .error e
  | none => .ok (r.transform (.ofPairs pairs))

/-- The path of a URL: percent-encoded, unless the route matches paths as they are sent. -/
def expandPath (r : Route H) (t : Template) (vars : Vars) : Except RouteError String :=
  (t.expand vars.get?).map fun path => if r.scope.useEncodedPath then path else Path.encode path

def urlScheme (r : Route H) : String := r.buildScheme.getD "http"

def expandQueries (vars : Vars) : List Template → Except RouteError (List String)
  | [] => .ok []
  | t :: ts => do
    let q ← t.expand vars.get?
    let qs ← expandQueries vars ts
    return q :: qs

/-- The whole URL; nothing is built if a variable is missing or not valid. -/
def url (r : Route H) (pairs : List (String × String)) : Except RouteError BuiltUrl := do
  let vars ← r.prepare pairs
  let host ← match r.host with
    | none => pure none
    | some t => (t.expand vars.get?).map some
  let path ← match r.path with
    | none => pure ""
    | some t => r.expandPath t vars
  let queries ← expandQueries vars r.queries
  return ⟨host.map fun _ => r.urlScheme, host, path,
    if queries.isEmpty then none else some ("&".intercalate queries)⟩

def urlHost (r : Route H) (pairs : List (String × String)) : Except RouteError BuiltUrl := do
  let vars ← r.prepare pairs
  match r.host with
  | none => throw .missingHost
  | some t => return ⟨some r.urlScheme, some (← t.expand vars.get?), "", none⟩

def urlPath (r : Route H) (pairs : List (String × String)) : Except RouteError BuiltUrl := do
  let vars ← r.prepare pairs
  match r.path with
  | none => throw .missingPath
  | some t => return ⟨none, none, ← r.expandPath t vars, none⟩

end Route

end RequestRouter
