import RequestRouter.Router.Dispatch
/-!
Routers, routes and matches as diagnostics show them.
-/
namespace RequestRouter

open RequestRouter.Text

variable {H : Type}

def shownId (id : RouteId) : String := shownTuple "RouteId" [toString id]

def Entry.shown (e : Entry H) : String :=
  shownRecord "Route" [
    ("id", shownId e.route.id),
    ("name", shownOption (e.route.name.map quoted)),
    ("host", shownOption (e.route.host.map (quoted ·.source))),
    ("path", shownOption (e.route.path.map (quoted ·.source))),
    ("queries", shownList (e.route.queries.map (quoted ·.source))),
    ("matchers", shownList (e.route.matchers.map Matcher.shown)),
    ("build_only", shownBool e.route.buildOnly),
    ("has_handler", shownBool e.route.handler.isSome),
    ("has_subrouter", shownBool e.sub.isSome),
    ("err", shownOption (e.route.error.map RouteError.shown))]

def Router.shown (r : Router H) : String :=
  shownRecord "Router" [
    ("routes", shownList (r.routes.entries.map Entry.shown)),
    ("strict_slash", shownBool r.settings.scope.strictSlash),
    ("skip_clean", shownBool r.settings.scope.skipClean),
    ("use_encoded_path", shownBool r.settings.scope.useEncodedPath),
    ("middlewares", toString r.settings.middlewares.length)]

def shownVars (vars : Vars) : String :=
  "\x7b" ++ commaList (vars.map fun v => quoted v.1 ++ ": " ++ quoted v.2) ++ "\x7d"

def RouteMatch.shown : RouteMatch H → String
  | matched route handler vars => shownRecord "RouteMatch" [
      ("route", shownOption (some (shownId route.id))),
      ("has_handler", shownBool handler.isSome),
      ("vars", shownVars vars),
      ("error", shownOption none)]
  | failed error fallback => shownRecord "RouteMatch" [
      ("route", shownOption none),
      ("has_handler", shownBool fallback.isSome),
      ("vars", shownVars []),
      ("error", shownOption (some error.shown))]

end RequestRouter
