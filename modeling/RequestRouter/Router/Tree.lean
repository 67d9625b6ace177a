import RequestRouter.Router.Route
/-!
Trees of routers. A router has routes in the order in which they were created; a route with a router of
its own is a mount.
-/
namespace RequestRouter

/-- Wraps a handler with another one. The label says which wrapping was done. -/
structure Middleware (H : Type) where
  label : String
  wrap : H → H

/-- What a router has beside its routes. -/
structure Settings (H : Type) where
  /-- The identity of the router. -/
  key : Nat
  scope : Scope
  /-- The first one is the outermost. -/
  middlewares : List (Middleware H)
  notFound : Option H
  methodNotAllowed : Option H

/-- A sequence of routes, with the router of each mount. -/
inductive Tree (H : Type) where
  | nil
  | leaf (route : Route H) (rest : Tree H)
  | mount (route : Route H) (settings : Settings H) (inner rest : Tree H)

structure Router (H : Type) where
  settings : Settings H
  routes : Tree H

/-- A route of a router, with the router below it if it is a mount. -/
structure Entry (H : Type) where
  route : Route H
  sub : Option (Router H)

namespace Tree

variable {H : Type}

def push (entry : Entry H) : Tree H → Tree H
  | nil =>
    match entry.sub with
    | none => leaf entry.route nil
    | some sub => mount entry.route sub.settings sub.routes nil
  | leaf r rest => leaf r (push entry rest)
  | mount r s inner rest => mount r s inner (push entry rest)

def entries : Tree H → List (Entry H)
  | nil => []
  | leaf r rest => ⟨r, none⟩ :: entries rest
  | mount r s inner rest => ⟨r, some ⟨s, inner⟩⟩ :: entries rest

def size : Tree H → Nat
  | nil => 0
  | leaf _ rest => rest.size + 1
  | mount _ _ _ rest => rest.size + 1

def flatten : Tree H → List (Route H)
  | nil => []
  | leaf r rest => r :: flatten rest
  | mount r _ inner rest => r :: (flatten inner ++ flatten rest)

def find? (id : RouteId) : Tree H → Option (Entry H)
  | nil => none
  | leaf r rest => if r.id = id then some ⟨r, none⟩ else find? id rest
  | mount r s inner rest =>
    if r.id = id then some ⟨r, some ⟨s, inner⟩⟩ else (find? id inner).or (find? id rest)

def firstError : Tree H → Option RouteError
  | nil => none
  | leaf r rest => r.error.or rest.firstError
  | mount r _ inner rest => (r.error.or inner.firstError).or rest.firstError

end Tree

namespace Settings

variable {H : Type}

def new (key : Nat) (scope : Scope) : Settings H := ⟨key, scope, [], none, none⟩

end Settings

namespace Router

variable {H : Type}

def new (scope : Scope) (st : Setup) : Router H × Setup :=
  (⟨.new st.nextRouter scope, .nil⟩, { st with nextRouter := st.nextRouter + 1 })

/-- A new route with the scope of the router. It is not part of the router before it is added. -/
def newRoute (r : Router H) (st : Setup) : Route H × Setup :=
  (.new r.settings.scope st.nextRoute, { st with nextRoute := st.nextRoute + 1 })

def add (r : Router H) (entry : Entry H) : Router H := { r with routes := r.routes.push entry }

def named? (r : Router H) (st : Setup) (name : String) : Option (Entry H) :=
  (st.names.lookup name).bind fun id => r.routes.find? id

def firstError (r : Router H) : Option RouteError := r.routes.firstError

def setScope (r : Router H) (change : Scope → Scope) : Router H :=
  { r with settings := { r.settings with scope := change r.settings.scope } }

end Router

namespace Entry

variable {H : Type}

def subrouter (e : Entry H) (st : Setup) : Router H × Setup :=
  match e.sub with
  | some sub => (sub, st)
  | none => Router.new e.route.innerScope st

end Entry

end RequestRouter
