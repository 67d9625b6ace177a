import RequestRouter.Proofs.Dispatch.FlatScan
import RequestRouter.Proofs.Dispatch.Methods
import RequestRouter.Proofs.Pattern.FinalSlash
import RequestRouter.Proofs.Router.Mounts
import RequestRouter.Proofs.Router.Redirects
/-!
Loops of redirects. A loop needs a path that comes to a route with a final slash and comes with that slash to
a route without one. Where the routes agree on which of them takes a path, with and without a final slash,
there is no such path.
-/
namespace RequestRouter

open Relation RequestRouter.Http

variable {H : Type}

section Views

variable {req : Request} {path : String}

theorem View.path_slashed (req : Request) (encoded : Bool) :
    (View.of req.slashed).path encoded = (View.of req).path encoded ++ "/" := by
  cases encoded
  · exact Path.decode_append_slash req.uri.path
  · rfl

end Views

/-- The templates and conditions of a place that wants a final slash, or none, settle which paths come to it.
No condition is the caller's own, the mounts above have prefixes, and every match of a path template depends
only on the text that it matches. Where no final slash is wanted no match ends in one. -/
structure Site.Steady (s : Site H) (slash : Bool) : Prop where
  standard : ∀ x ∈ s.route :: s.above, ∀ m ∈ x.matchers, m.Standard
  own : ∀ t ∈ s.route.path, t.Local ∧ (slash = false → t.Firm)
  above : ∀ x ∈ s.above, ∀ t ∈ x.path, t.kind = .leading ∧ t.Local ∧ (slash = false → t.Firm)

namespace Site

variable {s : Site H} {req : Request}

end Site

namespace Router

/-- The routes that want a final slash and the ones that want none agree on which of them takes a path. All
are steady, and a route that wants none and looks at the path as it was sent has no counterpart that looks at the
decoded path, where another character may be the slash at the end. -/
structure Agrees (r : Router H) : Prop where
  steady : ∀ s ∈ r.sites, ∀ slash, s.route.Wants slash → s.Steady slash
  forms : ∀ a ∈ r.sites, ∀ b ∈ r.sites, a.route.Wants true → b.route.Wants false →
    b.route.scope.useEncodedPath = true → a.route.scope.useEncodedPath = true

end Router

end RequestRouter
