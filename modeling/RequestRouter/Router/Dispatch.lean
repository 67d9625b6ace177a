import RequestRouter.Router.Wraps
/-!
Dispatch: the first route in order that accepts a request takes it. A route that would accept it but for
the method is remembered; without a match it turns "not found" into "method mismatch". A mount hands the
request to the router below it, whose failure counts only if that router has a handler for it.
-/
namespace RequestRouter

open RequestRouter.Http

/-- The outcome of a dispatch. -/
inductive RouteMatch (H : Type) where
  | matched (route : Route H) (handler : Option H) (vars : Vars)
  /-- No match, with the handler that the failing router has for it. -/
  | failed (error : MatchError) (fallback : Option H)

namespace Route

variable {H : Type}

/-- Whether no condition rejects the request, and then whether one reports a wrong method. -/
def judge (r : Route H) (req : Request) : Option Bool :=
  let verdicts := r.matchers.map (·.judge req)
  if verdicts.contains .rejects then none else some (verdicts.contains .methodMismatch)

/-- The variables of the templates, if all of them match. A mount matches its host at the end of longer
hosts too. -/
def capture (r : Route H) (view : View) (isMount : Bool) : Option Vars := do
  let fromHost ← match r.host with
    | none => some []
    | some t => if isMount then t.capturesSuffix (view.hostFor t) else t.captures (view.hostFor t)
  let fromPath ← match r.path with
    | none => some []
    | some t => t.captures (view.path r.scope.useEncodedPath)
  let fromQueries ← r.queries.mapM fun t => do t.captures (← view.queryValue? (t.queryKey.getD ""))
  return Vars.ofPairs (fromHost ++ fromPath ++ fromQueries.flatten)

/-- Whether the route accepts a request: whether a wrong method was reported, and the variables. A route with
an error accepts nothing. -/
def check (r : Route H) (view : View) (isMount : Bool) : Option (Bool × Vars) :=
  if r.error.isSome then none
  else do
    let mismatch ← r.judge view.request
    let vars ← r.capture view isMount
    return (mismatch, vars)

end Route

namespace Settings

variable {H : Type}

def fail (s : Settings H) (mismatch : Bool) : RouteMatch H :=
  if mismatch then .failed .methodMismatch s.methodNotAllowed else .failed .notFound s.notFound

def finish (s : Settings H) (route : Route H) (handler : Option H) (vars : Vars) (w : Wraps H) :
    RouteMatch H × Wraps H :=
  match handler with
  | none => (.matched route none vars, w)
  | some h =>
    let (h, w) := s.wrap route.id h w
    (.matched route (some h) vars, w)

end Settings

namespace Tree

variable {H : Type}

/-- Tries the routes in order; `mismatch` tells whether a route so far failed on its method only. -/
def resolve (s : Settings H) (view : View) : Tree H → Bool → Wraps H → RouteMatch H × Wraps H
  | nil, mismatch, w => (s.fail mismatch, w)
  | leaf r rest, mismatch, w =>
    if r.buildOnly then resolve s view rest mismatch w
    else
      match r.check view false with
      | none => resolve s view rest mismatch w
      | some (true, _) => resolve s view rest true w
      | some (false, vars) => s.finish r r.handler (r.transform vars) w
  | mount r below inner rest, mismatch, w =>
    if r.buildOnly then resolve s view rest mismatch w
    else
      match r.check view true with
      | none => resolve s view rest mismatch w
      | some (true, _) => resolve s view rest true w
      | some (false, _) =>
        match resolve below view inner false w with
        | (.matched route handler vars, w) => s.finish route handler vars w
        | (.failed e (some h), w) => (.failed e (some h), w)
        | (.failed .methodMismatch none, w) => resolve s view rest true w
        | (.failed .notFound none, w) => resolve s view rest mismatch w

def addMethods (out : List Method) (ms : List Method) : List Method :=
  ms.foldl (fun out m => if out.contains m then out else out ++ [m]) out

/-- The methods with which the routes would accept a request, after the ones in `out`, and whether a route
would accept it with any method. A mount with methods lets through only those. -/
def allowed (view : View) : Tree H → List Method → List Method × Bool
  | nil, out => (out, false)
  | leaf r rest, out =>
    if r.buildOnly ∨ (r.check view false).isNone then allowed view rest out
    else
      match r.methods? with
      | some ms => allowed view rest (addMethods out ms)
      | none => ((allowed view rest out).1, true)
  | mount r _ inner rest, out =>
    if r.buildOnly ∨ (r.check view true).isNone then allowed view rest out
    else
      let (nested, any) := allowed view inner []
      match r.methods? with
      | none =>
        let (out, anyRest) := allowed view rest (addMethods out nested)
        (out, any || anyRest)
      | some own =>
        allowed view rest (addMethods out (if any then own else own.filter nested.contains))

end Tree

namespace Router

variable {H : Type}

def dispatch (r : Router H) (req : Request) (w : Wraps H) : RouteMatch H × Wraps H :=
  r.routes.resolve r.settings (.of req) false w

/-- The methods with which the router would accept a request, each once, in the order of the routes. -/
def allowedMethods (r : Router H) (req : Request) : List Method := (r.routes.allowed (.of req) []).1

end Router

end RequestRouter
