import RequestRouter.Router.Tree
/-!
Walking a tree: every route is visited, a mount before the routes below it, unless the visitor skips them
or ends the walk.
-/
namespace RequestRouter

/-- What a visitor wants after a route. -/
inductive Walk (ε : Type) where
  | continue
  /-- Do not go below this route. -/
  | skip
  | stop (e : ε)

/-- What a visitor sees: a route, its router, and the mounts above it, the outermost first. -/
structure Visit (H : Type) where
  route : Route H
  owner : Router H
  ancestors : List (Route H)

namespace Tree

variable {H σ ε : Type}

/-- Walks the rest of the routes of `owner`. The visitor keeps a state of its own; the walk returns the last
state and what ended the walk. -/
def walk (visit : σ → Visit H → σ × Walk ε) (owner : Router H) (ancestors : List (Route H)) :
    Tree H → σ → σ × Option ε
  | nil, s => (s, none)
  | leaf r rest, s =>
    match visit s ⟨r, owner, ancestors⟩ with
    | (s, .stop e) => (s, some e)
    | (s, _) => walk visit owner ancestors rest s
  | mount r below inner rest, s =>
    match visit s ⟨r, owner, ancestors⟩ with
    | (s, .stop e) => (s, some e)
    | (s, .skip) => walk visit owner ancestors rest s
    | (s, .continue) =>
      match walk visit ⟨below, inner⟩ (ancestors ++ [r]) inner s with
      | (s, some e) => (s, some e)
      | (s, none) => walk visit owner ancestors rest s

end Tree

def Router.walk {H σ ε : Type} (r : Router H) (visit : σ → Visit H → σ × Walk ε) (s : σ) : σ × Option ε :=
  r.routes.walk visit r [] s

end RequestRouter
