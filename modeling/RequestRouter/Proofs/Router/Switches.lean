import RequestRouter.Handler
import RequestRouter.Proofs.Router.Sessions
/-!
Switches that are set when routes are there already. A route and a router take their switches when they are created,
so that a scan never looks at those of a router. What does look at them is the clean-path redirect of the router that
serves: it goes by the switches that this router has at the moment.
-/
namespace RequestRouter

open RequestRouter.Http

variable {H : Type}

def Setting.IsSwitch : Setting H → Prop
  | strictSlash _ | skipClean _ | useEncodedPath _ => True
  | notFound _ | methodNotAllowed _ => False

/-- The settings of a router before and after switches have been set on it. -/
def Settings.Switched (s s' : Settings H) : Prop :=
  ∃ xs : List (Setting H), (∀ x ∈ xs, x.IsSwitch) ∧ xs.foldl Setting.apply s = s'

/-- The same routes before and after switches have been set on the routers below the mounts. -/
inductive Tree.Switched : Tree H → Tree H → Prop where
  | nil : Switched nil nil
  | leaf (r : Route H) {rest rest' : Tree H} (hrest : Switched rest rest') : Switched (leaf r rest) (leaf r rest')
  | mount (r : Route H) {s s' : Settings H} {inner inner' rest rest' : Tree H} (hs : s.Switched s')
    (hinner : Switched inner inner') (hrest : Switched rest rest') :
    Switched (mount r s inner rest) (mount r s' inner' rest')

/-- A router before and after switches have been set on it and on any of the routers below it. No route has been
created, and nothing else has been changed. -/
structure Router.Switched (r r' : Router H) : Prop where
  settings : r.settings.Switched r'.settings
  routes : r.routes.Switched r'.routes

namespace Settings.Switched

variable {s s' s'' : Settings H}

theorem eq (h : s.Switched s') : s' = { s with scope := { s.scope with
    strictSlash := s'.scope.strictSlash
    skipClean := s'.scope.skipClean
    useEncodedPath := s'.scope.useEncodedPath } } := by
  obtain ⟨xs, hxs, rfl⟩ := h
  induction xs generalizing s with
  | nil => rfl
  | cons x xs ih =>
    rw [List.forall_mem_cons] at hxs
    refine (ih (s := x.apply s) hxs.2).trans ?_
    cases x with
    | strictSlash | skipClean | useEncodedPath => rfl
    | notFound | methodNotAllowed => exact hxs.1.elim

theorem refl (s : Settings H) : s.Switched s := ⟨[], List.forall_mem_nil _, rfl⟩

theorem trans (h : s.Switched s') (h' : s'.Switched s'') : s.Switched s'' := by
  obtain ⟨xs, hxs, rfl⟩ := h
  obtain ⟨ys, hys, rfl⟩ := h'
  exact ⟨xs ++ ys, List.forall_mem_append.mpr ⟨hxs, hys⟩, List.foldl_append⟩

theorem symm (h : s.Switched s') : s'.Switched s := by
  refine ⟨[.strictSlash s.scope.strictSlash, .skipClean s.scope.skipClean,
    .useEncodedPath s.scope.useEncodedPath], by simp [Setting.IsSwitch], ?_⟩
  rw [h.eq]
  rfl

end Settings.Switched

namespace Tree.Switched

variable {t t' t'' : Tree H}

theorem refl (t : Tree H) : t.Switched t := by
  induction t with
  | nil => exact .nil
  | leaf r rest ih => exact .leaf r ih
  | mount r s inner rest ihInner ihRest => exact .mount r (.refl s) ihInner ihRest

theorem trans (h : t.Switched t') (h' : t'.Switched t'') : t.Switched t'' := by
  induction h generalizing t'' with
  | nil => exact h'
  | leaf r _ ih =>
    cases h' with
    | leaf _ hrest => exact .leaf r (ih hrest)
  | mount r hs _ _ ihInner ihRest =>
    cases h' with
    | mount _ hs' hinner hrest => exact .mount r (hs.trans hs') (ihInner hinner) (ihRest hrest)

theorem symm (h : t.Switched t') : t'.Switched t := by
  induction h with
  | nil => exact .nil
  | leaf r _ ih => exact .leaf r ih
  | mount r hs _ _ ihInner ihRest => exact .mount r hs.symm ihInner ihRest

theorem push (h : t.Switched t') (route : Route H) {sub sub' : Router H} (hsub : sub.Switched sub') :
    (t.push ⟨route, some sub⟩).Switched (t'.push ⟨route, some sub'⟩) := by
  induction h with
  | nil => exact .mount route hsub.settings hsub.routes .nil
  | leaf r _ ih => exact .leaf r ih
  | mount r hs hinner _ _ ih => exact .mount r hs hinner ih

/-- A scan does not look at the scope of its router, nor at the switches of the routers below. -/
theorem resolve_eq (h : t.Switched t') (s : Settings H) (scope : Scope) (view : View) (mismatch : Bool)
    (w : Wraps H) : resolve { s with scope } view t' mismatch w = resolve s view t mismatch w := by
  induction h generalizing s scope mismatch w with
  | nil => rfl
  | leaf r _ ih =>
    simp only [resolve, ih]
    rfl
  | mount r hs _ _ ihInner ihRest =>
    rw [hs.eq]
    simp only [resolve, ihInner, ihRest]
    rfl

theorem allowed_eq (h : t.Switched t') (view : View) (out : List Method) :
    allowed view t' out = allowed view t out := by
  induction h generalizing out with
  | nil => rfl
  | leaf r _ ih => simp only [allowed, ih]
  | mount r _ _ _ ihInner ihRest => simp only [allowed, ihInner, ihRest]

theorem layerCount_eq (h : t.Switched t') : t'.layerCount = t.layerCount := by
  induction h with
  | nil => rfl
  | leaf r _ ih => exact ih
  | mount r hs _ _ ihInner ihRest =>
    rw [hs.eq]
    simp only [layerCount, ihInner, ihRest]

end Tree.Switched

namespace Router.Switched

variable {r r' : Router H}

theorem refl (r : Router H) : r.Switched r := ⟨.refl _, .refl _⟩

theorem trans {r'' : Router H} (h : r.Switched r') (h' : r'.Switched r'') : r.Switched r'' :=
  ⟨h.settings.trans h'.settings, h.routes.trans h'.routes⟩

theorem symm (h : r.Switched r') : r'.Switched r := ⟨h.settings.symm, h.routes.symm⟩

theorem one (r : Router H) {x : Setting H} (hx : x.IsSwitch) :
    r.Switched { r with settings := x.apply r.settings } :=
  ⟨⟨[x], List.forall_mem_singleton.mpr hx, rfl⟩, .refl _⟩

theorem add (h : r.Switched r') (route : Route H) {sub sub' : Router H} (hsub : sub.Switched sub') :
    (r.add ⟨route, some sub⟩).Switched (r'.add ⟨route, some sub'⟩) :=
  ⟨h.settings, h.routes.push route hsub⟩

theorem dispatch_eq (h : r.Switched r') (req : Request) (w : Wraps H) : r'.dispatch req w = r.dispatch req w := by
  rw [dispatch, h.settings.eq]
  exact h.routes.resolve_eq r.settings _ (.of req) false w

theorem allowedMethods_eq (h : r.Switched r') (req : Request) : r'.allowedMethods req = r.allowedMethods req :=
  congrArg Prod.fst (h.routes.allowed_eq (.of req) [])

theorem layerCount_eq (h : r.Switched r') : r'.layerCount = r.layerCount := by
  rw [Router.layerCount, h.settings.eq, h.routes.layerCount_eq]
  rfl

theorem answer_eq (h : r.Switched r') {req : Request}
    (hclean : cleanRedirect r'.settings.scope req = cleanRedirect r.settings.scope req) (w : Wraps H) :
    r'.answer req w = r.answer req w := by
  simp only [answer, hclean, h.dispatch_eq, h.allowedMethods_eq]

end Router.Switched

def Move.OnlySwitches : Move H → Prop
  | .set x => x.IsSwitch
  | .close | .leave | .dispatch .. | .forgetPatterns | .elsewhere .. => True
  | .middleware _ | .route | .call _ | .enter => False

namespace Session

/-- Whenever a switch is set on the router that is worked on, the tree comes to differ in that switch only. -/
theorem set_switched (s : Session H) {x : Setting H} (hx : x.IsSwitch) : s.root.Switched (s.move (.set x)).root := by
  have hfold : ∀ (outer : List (Router H × Route H)) {r r' : Router H}, r.Switched r' →
      (outer.foldl (fun r f => f.1.add ⟨f.2, some r⟩) r).Switched
        (outer.foldl (fun r f => f.1.add ⟨f.2, some r⟩) r') := by
    intro outer
    induction outer with
    | nil => exact id
    | cons f outer ih => exact fun h => ih ((Router.Switched.refl f.1).add f.2 h)
  exact hfold s.outer (.one s.current hx)

theorem move_switched (s : Session H) {m : Move H} (hm : m.OnlySwitches) : s.root.Switched (s.move m).root := by
  cases m with
  | set x => exact s.set_switched hm
  | close | forgetPatterns | elsewhere => exact .refl _
  | leave =>
    obtain ⟨outer, router, opened, setup, wraps⟩ := s
    cases outer <;> exact .refl _
  | dispatch way req =>
    rw [move]
    split <;> exact .refl _
  | middleware | route | call | enter => exact hm.elim

/-- The work may go on with setting switches on router after router, from the innermost outwards. -/
theorem moves_switched (s : Session H) {ms : List (Move H)} (hms : ∀ m ∈ ms, m.OnlySwitches) :
    s.root.Switched (s.moves ms).root := by
  induction ms generalizing s with
  | nil => exact .refl _
  | cons m ms ih =>
    rw [List.forall_mem_cons] at hms
    exact (s.move_switched hms.1).trans (ih (s.move m) hms.2)

end Session

namespace Service

variable {service : Service} {r r' : Router Handler} {ex : Exchange}

theorem serve_eq_of_switched (h : r.Switched r')
    (hclean : Router.cleanRedirect r'.settings.scope ex.request = Router.cleanRedirect r.settings.scope ex.request)
    (w : Wraps Handler) : service.serve r' ex w = service.serve r ex w := by
  have hdepth : service.depth r' = service.depth r := by
    rw [depth, depth, List.foldr_cons, List.foldr_cons, h.layerCount_eq]
  simp only [serve, h.answer_eq hclean, hdepth]

/-- Switches that are set on routers of a tree, wherever they are, reach none of the routes that are there. Every
request is matched as before, and the same methods would do. The response is as before unless the clean-path redirect
of the router that serves comes to something else; for that one the router has its switches of the moment, but no
other switch of the tree counts, and neither does its own one for the final slash. -/
theorem serve_later_switches (h : r.Switched r') (req : Request) (res : Response) (w : Wraps Handler) :
    r'.dispatch req w = r.dispatch req w ∧ r'.allowedMethods req = r.allowedMethods req ∧
    (Router.cleanRedirect r'.settings.scope req = Router.cleanRedirect r.settings.scope req →
      service.serve r' ⟨req, res⟩ w = service.serve r ⟨req, res⟩ w) ∧
    service.serve r' ⟨req, res⟩ w =
      service.serve
        (r.setScope fun scope => { scope with
          skipClean := r'.settings.scope.skipClean
          useEncodedPath := r'.settings.scope.useEncodedPath })
        ⟨req, res⟩ w := by
  refine ⟨h.dispatch_eq req w, h.allowedMethods_eq req, fun hclean => serve_eq_of_switched h hclean w, ?_⟩
  have hroot : r.Switched (r.setScope fun scope => { scope with
      skipClean := r'.settings.scope.skipClean
      useEncodedPath := r'.settings.scope.useEncodedPath }) :=
    (Router.Switched.one r (x := .skipClean r'.settings.scope.skipClean) trivial).trans
      (.one _ (x := .useEncodedPath r'.settings.scope.useEncodedPath) trivial)
  exact serve_eq_of_switched (hroot.symm.trans h) rfl w

/-- Every switch is turned on a router and on the router below its mount, except that the root does not come to match
paths as they are sent. -/
theorem serve_later_switches_two_levels :
    let made (scope : Scope) (calls : List (Call Handler)) : Route Handler :=
      (Call.applyAll calls (.new scope 0) (.new .new)).1
    let mount := made .root [.leading "/api"]
    let page := made mount.innerScope [.path "/{name}/", .handler (.reply ⟨"page ", some "name", none, none⟩)]
    let tree (root sub : Scope) : Router Handler :=
      ⟨.new 0 root, .mount mount (.new 1 sub) (.leaf page .nil) .nil⟩
    let r := tree .root mount.innerScope
    let r' := tree { Scope.root with strictSlash := true }
      { mount.innerScope with strictSlash := true, skipClean := true, useEncodedPath := true }
    let req : Request := .new .get ⟨none, none, "/api/a%20b/", none⟩ [] none
    r.Switched r' ∧ (serve [] r' ⟨req, .empty⟩ .new).1.response = ⟨200, [], "page a b"⟩ ∧
      serve [] r' ⟨req, .empty⟩ .new = serve [] r ⟨req, .empty⟩ .new := by
  intro made mount page tree r r' req
  have hroot : r.settings.Switched r'.settings := ⟨[.strictSlash true], by simp [Setting.IsSwitch], rfl⟩
  have hsub : (Settings.new 1 mount.innerScope : Settings Handler).Switched (.new 1
      { mount.innerScope with strictSlash := true, skipClean := true, useEncodedPath := true }) :=
    ⟨[.strictSlash true, .skipClean true, .useEncodedPath true], by simp [Setting.IsSwitch], rfl⟩
  have h : r.Switched r' := ⟨hroot, .mount mount hsub (.refl _) .nil⟩
  exact ⟨h, by decide +kernel, (@serve_later_switches [] r r' h req .empty .new).2.2.1 rfl⟩

/-- A path that is not clean is redirected no more once the router that serves has been told to skip cleaning, or to
look at paths as they are sent, although the route was there before. -/
theorem serve_later_switches_cleaning :
    let page : Route Handler := (Call.applyAll [.path "/a/b", .handler (.reply (.text "page"))] (.new .root 0)
      (.new .new)).1
    let r : Router Handler := ⟨.new 0 .root, .leaf page .nil⟩
    let skips : Router Handler := r.setScope fun scope => { scope with skipClean := true }
    let encoded : Router Handler := r.setScope fun scope => { scope with useEncodedPath := true }
    let served (r : Router Handler) (path : String) : Response :=
      (serve [] r ⟨.new .get ⟨none, none, path, none⟩ [] none, .empty⟩ .new).1.response
    r.Switched skips ∧ served r "/a//b" ≠ served skips "/a//b" ∧
      r.Switched encoded ∧ served r "/a/%2E/b" ≠ served encoded "/a/%2E/b" := by
  intro page r skips encoded served
  exact ⟨.one r (x := .skipClean true) trivial, by decide +kernel,
    .one r (x := .useEncodedPath true) trivial, by decide +kernel⟩

end Service

end RequestRouter
