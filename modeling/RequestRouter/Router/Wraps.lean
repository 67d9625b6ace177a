import RequestRouter.Router.Tree
/-!
Wrapped handlers. A router wraps the handler of a route once and uses the wrapped handler again until a
middleware is added.
-/
namespace RequestRouter

/-- The wrapped handlers by router and route, and the labels of all wrappings that were done, the latest
first. -/
structure Wraps (H : Type) where
  handlers : List ((Nat × RouteId) × H)
  log : List String

namespace Wraps

variable {H : Type}

def new : Wraps H := ⟨[], []⟩

def forget (w : Wraps H) (key : Nat) : Wraps H := { w with handlers := w.handlers.filter (·.1.1 ≠ key) }

def count (w : Wraps H) (label : String) : Nat := w.log.count label

end Wraps

/-- Adds a middleware, the innermost one so far. The router forgets the handlers that it wrapped before. -/
def Router.useMiddleware {H : Type} (r : Router H) (m : Middleware H) (w : Wraps H) : Router H × Wraps H :=
  ({ r with settings := { r.settings with middlewares := r.settings.middlewares ++ [m] } },
    w.forget r.settings.key)

namespace Settings

variable {H : Type}

def wrapAll (s : Settings H) (h : H) : H := s.middlewares.foldr (fun m next => m.wrap next) h

def wrap (s : Settings H) (id : RouteId) (h : H) (w : Wraps H) : H × Wraps H :=
  if s.middlewares.isEmpty then (h, w)
  else
    match w.handlers.lookup (s.key, id) with
    | some wrapped => (wrapped, w)
    | none => (s.wrapAll h,
      ⟨((s.key, id), s.wrapAll h) :: w.handlers, s.middlewares.map (·.label) ++ w.log⟩)

end Settings

end RequestRouter
