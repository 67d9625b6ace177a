import RequestRouter.Table.Basic
/-!
Installing tables: every rule becomes a route, and a rule with nested rules a mount. The first rule that
cannot be installed ends the installation; the routes before it stay, and so does its own route as far as it
was configured.
-/
namespace RequestRouter

/-- Why a rule is not installed; the label says which one. -/
inductive InstallError where
  | pathAndPrefix (label : String)
  | handlerAndRoutes (label : String)
  | unknownHandler (label key : String)
  | route (label : String) (e : RouteError)
  deriving DecidableEq, Repr

def InstallError.message : InstallError → String
  | pathAndPrefix label => "Route " ++ label ++ " sets both path and prefix"
  | handlerAndRoutes label => "Route " ++ label ++ " sets both a handler and nested routes"
  | unknownHandler label key => "Route " ++ label ++ " refers to unknown handler `" ++ key ++ "`"
  | route label e => "Route " ++ label ++ ": " ++ e.message

variable {H : Type}

namespace RouteSpec

/-- The calls that configure the route of a rule, all but its handler. -/
def calls (s : RouteSpec) : List (Call H) :=
  (s.host.map .host).toList ++ (s.leading.map .leading).toList ++ (s.path.map .path).toList
    ++ (if s.methods.isEmpty then [] else [.methods s.methods])
    ++ (if s.schemes.isEmpty then [] else [.schemes s.schemes])
    ++ (if s.headers.isEmpty then [] else [.headers s.headers])
    ++ (if s.queries.isEmpty then [] else [.queries s.queries])
    ++ (if s.buildOnly then [.buildOnly] else [])
    ++ (s.name.map .name).toList

def conflict? (s : RouteSpec) (nested : Outline) : Option InstallError :=
  if s.path.isSome ∧ s.leading.isSome then some (.pathAndPrefix s.label)
  else if s.handler.isSome ∧ ¬ nested.isEmpty then some (.handlerAndRoutes s.label)
  else none

def configure (resolve : String → Option H) (s : RouteSpec) (r : Route H) (st : Setup) :
    Route H × Setup × Option InstallError :=
  let (r, st) := Call.applyAll s.calls r st
  let failed (r : Route H) : Option InstallError := r.error.map (.route s.label)
  match s.handler with
  | none => (r, st, failed r)
  | some key =>
    match resolve key with
    | none => (r, st, some (.unknownHandler s.label key))
    | some h =>
      let (r, st) := (Call.handler h).apply r st
      (r, st, failed r)

end RouteSpec

/-- Adds the routes of rules to a router. `installed` counts the routes so far, and the result is how many they are in
the end, or why not all of them are there. -/
def Outline.install (resolve : String → Option H) :
    Outline → Router H → Setup → Nat → Router H × Setup × Except InstallError Nat
  | nil, r, st, installed => (r, st, .ok installed)
  | cons spec nested rest, r, st, installed =>
    match spec.conflict? nested with
    | some e => (r, st, .error e)
    | none =>
      let (route, st) := r.newRoute st
      match spec.configure resolve route st with
      | (route, st, some e) => (r.add ⟨route, none⟩, st, .error e)
      | (route, st, none) =>
        if nested.isEmpty then rest.install resolve (r.add ⟨route, none⟩) st (installed + 1)
        else
          let (sub, st) := Entry.subrouter ⟨route, none⟩ st
          match nested.install resolve sub st (installed + 1) with
          | (sub, st, .error e) => (r.add ⟨route, some sub⟩, st, .error e)
          | (sub, st, .ok installed) => rest.install resolve (r.add ⟨route, some sub⟩) st installed

namespace RouteTable

/-- Adds the routes of a table to a router, and tells how many they are or why not all of them are there. -/
def install (t : RouteTable) (resolve : String → Option H) (r : Router H) (st : Setup) :
    Router H × Setup × Except InstallError Nat :=
  t.routes.install resolve r st 0

/-- The root router of a table, with the switches of the environment if the table has none. -/
def router (t : RouteTable) (env : String → Option String) (resolve : String → Option H) :
    Router H × Setup × Except InstallError Nat :=
  let (r, st) := Router.ofConfig (t.config.getD (.ofLookup env))
  t.install resolve r st

end RouteTable

end RequestRouter
