import RequestRouter.Router.Serve
/-!
Handlers that write plain replies, the layers that middlewares put around them, and routers that serve as
handlers of other routers.
-/
namespace RequestRouter

open RequestRouter.Http

/-- A reply: its text is added to the body, then the value of a variable; the status and the variables of the
request are replaced if the reply says so. -/
structure Reply where
  body : String
  var : Option String
  status : Option Nat
  vars : Option Vars

def Reply.text (body : String) : Reply := ⟨body, none, none, none⟩

/-- A layer around a handler: it marks the body before and after. With a guard it refuses requests that lack
that header. -/
structure Layer where
  tag : String
  guard : Option HeaderName

inductive Handler where
  | reply (r : Reply)
  | layered (l : Layer) (inner : Handler)
  /-- The router with this number among the routers that serve as handlers. -/
  | router (index : Nat)

def Layer.middleware (l : Layer) : Middleware Handler := ⟨l.tag, .layered l⟩

namespace Exchange

def append (ex : Exchange) (text : String) : Exchange :=
  { ex with response := { ex.response with body := ex.response.body ++ text } }

def setStatus (ex : Exchange) (status : Nat) : Exchange :=
  { ex with response := { ex.response with status } }

end Exchange

def Reply.write (r : Reply) (ex : Exchange) : Exchange :=
  let ex := ex.append r.body
  let ex := r.var.elim ex fun name =>
    ex.append ((ex.request.vars.bind (·.get? name)).getD "<none>")
  let ex := r.status.elim ex ex.setStatus
  r.vars.elim ex fun vars => { ex with request := { ex.request with vars := some vars } }

def Layer.admits (l : Layer) (req : Request) : Bool :=
  l.guard.all fun name => !(req.headers.getAll name).isEmpty

/-- The routers that serve as handlers. A router refers only to routers with smaller numbers. -/
abbrev Service := List (Router Handler)

def Tree.layerCount {H : Type} : Tree H → Nat
  | nil => 0
  | leaf _ rest => rest.layerCount
  | mount _ s inner rest => s.middlewares.length + inner.layerCount + rest.layerCount

def Router.layerCount {H : Type} (r : Router H) : Nat := r.settings.middlewares.length + r.routes.layerCount

namespace Service

/-- Runs a handler; `fuel` bounds the number of layers and routers on the way. -/
def run (service : Service) : Nat → Handler → Exchange → Wraps Handler → Exchange × Wraps Handler
  | 0, _, ex, w => (ex, w)
  | _ + 1, .reply r, ex, w => (r.write ex, w)
  | fuel + 1, .layered l inner, ex, w =>
    let ex := ex.append (l.tag ++ ">")
    if l.admits ex.request then
      let (ex, w) := run service fuel inner ex w
      (ex.append ("<" ++ l.tag), w)
    else (ex.setStatus 401, w)
  | fuel + 1, .router index, ex, w =>
    match service[index]? with
    | none => (ex, w)
    | some r =>
      match r.answer ex.request w with
      | (.call h, req, w) => run service fuel h { ex with request := req } w
      | (a, req, w) => (a.perform (fun _ ex => ex) { ex with request := req }, w)

/-- Layers and routers that a request can go through: each router once, with no more layers than there are
middlewares. -/
def depth (service : Service) (r : Router Handler) : Nat :=
  (service.length + 1) * (r :: service).foldr (fun r n => r.layerCount + n) 2

def serve (service : Service) (r : Router Handler) (ex : Exchange) (w : Wraps Handler) :
    Exchange × Wraps Handler :=
  match r.answer ex.request w with
  | (.call h, req, w) => run service (service.depth r) h { ex with request := req } w
  | (a, req, w) => (a.perform (fun _ ex => ex) { ex with request := req }, w)

end Service

end RequestRouter
