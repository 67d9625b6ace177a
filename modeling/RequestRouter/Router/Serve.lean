import RequestRouter.Path
import RequestRouter.Router.Dispatch
/-!
What a router does with a request: it redirects to a cleaned path, or to a path with the slash that the
route wants, or it hands the request to a handler.
-/
namespace RequestRouter

open RequestRouter.Http

/-- What becomes of a request. -/
inductive Answer (H : Type) where
  | redirect (location : String)
  | call (handler : H)
  /-- No handler for a request that no route takes, or that a route without a handler takes. -/
  | notFound
  /-- No handler for a request that fails on its method. -/
  | methodNotAllowed

def withQuery (path : String) (req : Request) : String := path ++ req.uri.query.elim "" ("?" ++ ·)

namespace Router

variable {H : Type}

/-- The location of a request whose path is not clean. The targets of `CONNECT`, authorities, and `*` have no
path to clean. -/
def cleanRedirect (scope : Scope) (req : Request) : Option String :=
  let raw := req.uri.path
  if scope.skipClean ∨ raw.isEmpty ∨ raw = "*" ∨ req.method = .connect then none
  else if scope.useEncodedPath then
    if Path.clean raw = raw then none else some (withQuery (Path.clean raw) req)
  else
    let decoded := Path.decode raw
    if Path.clean decoded = decoded then none
    else some (withQuery (Path.encode (Path.clean decoded)) req)

/-- The location of a request whose path has a final slash where the template of its route has none, or has
none where the template has one. -/
def slashRedirect (route : Route H) (req : Request) : Option String := do
  let template ← route.path
  let path := req.uri.path
  let hasSlash := path.toList.getLast? == some '/'
  if !route.scope.strictSlash || template.kind != .path || template.hasTrailingSlash == hasSlash then none
  else
    let location := if hasSlash then String.ofList (Call.trimSlashes path.toList) else path ++ "/"
    if location.isEmpty then none else some (withQuery location req)

/-- What the router does with a request, and the request with what a handler may want to know. -/
def answer (r : Router H) (req : Request) (w : Wraps H) : Answer H × Request × Wraps H :=
  match cleanRedirect r.settings.scope req with
  | some location => (.redirect location, req, w)
  | none =>
    match r.dispatch req w with
    | (.matched route handler vars, w) =>
      match slashRedirect route req with
      | some location => (.redirect location, req, w)
      | none =>
        let req := { req with route := some route.info, vars := some vars }
        (handler.elim .notFound .call, req, w)
    | (.failed .methodMismatch fallback, w) =>
      let req := { req with allowed := some (r.allowedMethods req) }
      (fallback.elim .methodNotAllowed .call, req, w)
    | (.failed .notFound fallback, w) => (fallback.elim .notFound .call, req, w)

end Router

namespace Response

def empty : Response := ⟨200, [], ""⟩

def text (res : Response) (status : Nat) (body : String) : Response where
  status
  headers := res.headers.put ⟨"content-type"⟩ "text/plain; charset=utf-8"
  body

def notFound (res : Response) : Response := res.text 404 "404 page not found\n"

/-- The response to a request that fails on its method, with the methods that would do if they are known. -/
def methodNotAllowed (res : Response) (allowed : Option (List Method)) : Response :=
  match allowed with
  | none => res.text 405 "405 method not allowed\n"
  | some ms =>
    let allow := ", ".intercalate (ms.map (·.name))
    let res := if isHeaderValue allow then { res with headers := res.headers.put ⟨"allow"⟩ allow } else res
    res.text 405 "405 method not allowed\n"

/-- The response that sends a client elsewhere. A location that is no header value is left out. -/
def redirect (res : Response) (location : String) (status : Nat) : Response where
  status
  headers := if isHeaderValue location then res.headers.put ⟨"location"⟩ location else res.headers
  body := ""

end Response

def Answer.perform {H : Type} (run : H → Exchange → Exchange) (a : Answer H) (ex : Exchange) : Exchange :=
  match a with
  | redirect location => { ex with response := ex.response.redirect location 308 }
  | call h => run h ex
  | notFound => { ex with response := ex.response.notFound }
  | methodNotAllowed => { ex with response := ex.response.methodNotAllowed ex.request.allowed }

end RequestRouter
