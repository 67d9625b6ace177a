import RequestRouter.Router.Dispatch
import RequestRouter.Router.Walk
/-!
The routes of a tree at their places. A tree of routers is laid out as one list in the order of a walk, each
route with the mounts above it, and a scan goes through that list without knowing of the tree.
-/
namespace RequestRouter

/-- A route at its place: whether it is a mount, and the mounts above it, the outermost first. -/
structure Site (H : Type) where
  route : Route H
  isMount : Bool
  above : List (Route H)

namespace Tree

variable {H : Type}

/-- The places of a tree below the mounts `above`, a mount before the routes below it. -/
def sites (above : List (Route H)) : Tree H → List (Site H)
  | nil => []
  | leaf r rest => ⟨r, false, above⟩ :: sites above rest
  | mount r _ inner rest => ⟨r, true, above⟩ :: (sites (above ++ [r]) inner ++ sites above rest)

/-- No router below the root has a handler for failures. -/
def NoFallback : Tree H → Prop
  | nil => True
  | leaf _ rest => rest.NoFallback
  | mount _ s inner rest =>
    s.notFound = none ∧ s.methodNotAllowed = none ∧ inner.NoFallback ∧ rest.NoFallback

theorem sites_route (t : Tree H) (above : List (Route H)) :
    (t.sites above).map (·.route) = t.flatten := by
  induction t generalizing above with
  | nil => rfl
  | leaf r rest ih => simp [sites, flatten, ih]
  | mount r s inner rest ihInner ihRest => simp [sites, flatten, ihInner, ihRest]

/-- A walk that never skips visits the places in their order, each with the mounts above it. -/
theorem walk_sites (t : Tree H) (owner : Router H) (above : List (Route H))
    (seen : List (Route H × List (Route H))) :
    t.walk (ε := Empty) (fun seen v => (seen ++ [(v.route, v.ancestors)], .continue)) owner above seen =
      (seen ++ (t.sites above).map fun s => (s.route, s.above), none) := by
  induction t generalizing owner above seen with
  | nil => simp [walk, sites]
  | leaf r rest ih => simp [walk, sites, ih]
  | mount r s inner rest ihInner ihRest => simp [walk, sites, ihInner, ihRest]

theorem above_of_mem_sites {t : Tree H} {above : List (Route H)} {site : Site H}
    (h : site ∈ t.sites above) : ∃ more, site.above = above ++ more := by
  induction t generalizing above with
  | nil => simp [sites] at h
  | leaf r rest ih =>
    rcases List.mem_cons.mp h with rfl | h
    · exact ⟨[], by simp⟩
    · exact ih h
  | mount r s inner rest ihInner ihRest =>
    simp only [sites, List.mem_cons, List.mem_append] at h
    rcases h with rfl | h | h
    · exact ⟨[], by simp⟩
    · obtain ⟨more, hm⟩ := ihInner h
      exact ⟨r :: more, by simp [hm]⟩
    · exact ihRest h

end Tree

namespace Route

variable {H : Type}

/-- Whether the route takes part in dispatch and its own check accepts the request. -/
def admits (r : Route H) (view : View) (isMount : Bool) : Bool :=
  !r.buildOnly && (r.check view isMount).map (·.1) == some false

/-- Whether the route takes part in dispatch and its own check fails on the method only. -/
def missesMethod (r : Route H) (view : View) (isMount : Bool) : Bool :=
  !r.buildOnly && (r.check view isMount).map (·.1) == some true

theorem admits_iff (r : Route H) (view : View) (isMount : Bool) :
    r.admits view isMount = true ↔
      r.buildOnly = false ∧ ∃ vars, r.check view isMount = some (false, vars) := by
  simp [admits]

theorem missesMethod_iff (r : Route H) (view : View) (isMount : Bool) :
    r.missesMethod view isMount = true ↔
      r.buildOnly = false ∧ ∃ vars, r.check view isMount = some (true, vars) := by
  simp [missesMethod]

theorem missesMethod_of_admits {r : Route H} {view : View} {isMount : Bool}
    (h : r.admits view isMount = true) : r.missesMethod view isMount = false := by
  obtain ⟨hb, vars, hc⟩ := (admits_iff r view isMount).mp h
  simp [missesMethod, hc]

end Route

namespace Site

variable {H : Type}

def reached (s : Site H) (view : View) : Bool := s.above.all (·.admits view true)

/-- Whether the place takes the request if no place before it does. -/
def takes (s : Site H) (view : View) : Bool :=
  s.reached view && !s.isMount && s.route.admits view false

/-- Whether the request comes to the place and fails there on its method only. -/
def missesMethod (s : Site H) (view : View) : Bool :=
  s.reached view && s.route.missesMethod view s.isMount

/-- Scans places in order; `mismatch` tells whether a place before failed on the method only. -/
def scan (view : View) (mismatch : Bool) : List (Site H) → Except MatchError (Route H)
  | [] => .error (if mismatch then .methodMismatch else .notFound)
  | s :: rest =>
    if s.takes view then .ok s.route else scan view (mismatch || s.missesMethod view) rest

end Site

/-- The route or the failure of a dispatch. -/
def RouteMatch.outcome {H : Type} : RouteMatch H → Except MatchError (Route H)
  | matched route _ _ => .ok route
  | failed e _ => .error e

namespace RouteMatch

variable {H : Type}

@[simp] theorem outcome_matched (route : Route H) (handler : Option H) (vars : Vars) :
    (matched route handler vars).outcome = .ok route := rfl

@[simp] theorem outcome_failed (e : MatchError) (fallback : Option H) :
    (failed e fallback).outcome = .error e := rfl

end RouteMatch

namespace Settings

variable {H : Type}

@[simp] theorem outcome_fail (s : Settings H) (mismatch : Bool) :
    (s.fail mismatch).outcome = .error (if mismatch then .methodMismatch else .notFound) := by
  cases mismatch <;> rfl

@[simp] theorem outcome_finish (s : Settings H) (route : Route H) (handler : Option H) (vars : Vars)
    (w : Wraps H) : (s.finish route handler vars w).1.outcome = .ok route := by
  cases handler <;> rfl

theorem finish_matched (s : Settings H) (r : Route H) (handler : Option H) (vars : Vars) (w : Wraps H) :
    ∃ wrapped, (s.finish r handler vars w).1 = .matched r wrapped vars := by
  cases handler with
  | none => exact ⟨none, rfl⟩
  | some h => exact ⟨some (s.wrap r.id h w).1, rfl⟩

theorem of_finish {s : Settings H} {r route : Route H} {handler handler' : Option H} {vars vars' : Vars} {w : Wraps H}
    (h : (s.finish r handler' vars' w).1 = .matched route handler vars) : r = route ∧ vars' = vars := by
  obtain ⟨wrapped, hfinish⟩ := s.finish_matched r handler' vars' w
  obtain ⟨hroute, -, hvars⟩ := RouteMatch.matched.inj (hfinish.symm.trans h)
  exact ⟨hroute, hvars⟩

end Settings

namespace Tree

variable {H : Type} {view : View} {mismatch : Bool} {w : Wraps H}

theorem resolve_leaf_of_admits {s : Settings H} {r : Route H} {rest : Tree H}
    (h : r.admits view false = true) :
    (resolve s view (leaf r rest) mismatch w).1.outcome = .ok r := by
  obtain ⟨hb, vars, hc⟩ := (r.admits_iff view false).mp h
  simp [resolve, hb, hc]

/-- A route that does not accept a request is passed over; only a wrong method is remembered. -/
theorem resolve_leaf_of_not_admits {s : Settings H} {r : Route H} {rest : Tree H}
    (h : r.admits view false = false) :
    resolve s view (leaf r rest) mismatch w =
      resolve s view rest (mismatch || r.missesMethod view false) w := by
  by_cases hb : r.buildOnly
  · simp [resolve, Route.missesMethod, hb]
  · cases hc : r.check view false with
    | none => simp [resolve, Route.missesMethod, hb, hc]
    | some c =>
      obtain ⟨_ | _, vars⟩ := c
      · simp [Route.admits, hb, hc] at h
      · simp [resolve, Route.missesMethod, hb, hc]

theorem resolve_mount_of_not_admits {s below : Settings H} {r : Route H} {inner rest : Tree H}
    (h : r.admits view true = false) :
    resolve s view (mount r below inner rest) mismatch w =
      resolve s view rest (mismatch || r.missesMethod view true) w := by
  by_cases hb : r.buildOnly
  · simp [resolve, Route.missesMethod, hb]
  · cases hc : r.check view true with
    | none => simp [resolve, Route.missesMethod, hb, hc]
    | some c =>
      obtain ⟨_ | _, vars⟩ := c
      · simp [Route.admits, hb, hc] at h
      · simp [resolve, Route.missesMethod, hb, hc]

/-- A mount that accepts a request returns what the router below it finds or answers itself; a failure that
nobody answers lets the scan go on and leaves only a wrong method behind. -/
theorem resolve_mount_of_admits {s below : Settings H} {r : Route H} {inner rest : Tree H}
    (h : r.admits view true = true) :
    resolve s view (mount r below inner rest) mismatch w =
      match resolve below view inner false w with
      | (.matched route handler vars, w) => s.finish route handler vars w
      | (.failed e (some f), w) => (.failed e (some f), w)
      | (.failed e none, w) => resolve s view rest (mismatch || decide (e = .methodMismatch)) w := by
  obtain ⟨hb, vars, hc⟩ := (r.admits_iff view true).mp h
  rcases hres : resolve below view inner false w with ⟨_ | ⟨_ | _, _ | _⟩, _⟩ <;>
    simp [resolve, hb, hc, hres]

theorem fallback_eq_none {t : Tree H} (ht : t.NoFallback) {s : Settings H} (hn : s.notFound = none)
    (hm : s.methodNotAllowed = none) {e : MatchError} {fallback : Option H} {w' : Wraps H}
    (h : resolve s view t mismatch w = (.failed e fallback, w')) : fallback = none := by
  induction t generalizing s mismatch w w' e fallback with
  | nil => cases mismatch <;> simp_all [resolve, Settings.fail]
  | leaf r rest ih =>
    by_cases hadm : r.admits view false
    · have ho : (resolve s view (leaf r rest) mismatch w).1.outcome = .ok r :=
        resolve_leaf_of_admits hadm
      simp [h] at ho
    · rw [resolve_leaf_of_not_admits (by simpa using hadm)] at h
      exact ih ht hn hm h
  | mount r below inner rest ihInner ihRest =>
    obtain ⟨hbn, hbm, hi, hr⟩ := ht
    by_cases hadm : r.admits view true
    · rw [resolve_mount_of_admits hadm] at h
      rcases hres : resolve below view inner false w with ⟨⟨route, handler, vars⟩ | ⟨e', _ | f⟩, w₁⟩
      · have ho := s.outcome_finish route handler vars w₁
        simp_all
      · rw [hres] at h
        exact ihRest hr hn hm h
      · exact absurd (ihInner hi hbn hbm hres) (by simp)
    · rw [resolve_mount_of_not_admits (by simpa using hadm)] at h
      exact ihRest hr hn hm h

/-- A scan finds one of the routes, with what the check of that route has captured, after its transforms. -/
theorem of_resolve_eq_matched {t : Tree H} {s : Settings H} {route : Route H} {handler : Option H} {vars : Vars}
    (h : (resolve s view t mismatch w).1 = .matched route handler vars) :
    route ∈ t.flatten ∧ ∃ captured, route.check view false = some (false, captured) ∧
      vars = route.transform captured := by
  induction t generalizing s mismatch w handler with
  | nil => cases mismatch <;> cases h
  | leaf r rest ih =>
    by_cases hadm : r.admits view false = true
    · obtain ⟨hb, captured, hcheck⟩ := (r.admits_iff view false).mp hadm
      simp only [resolve, hb, hcheck] at h
      obtain ⟨rfl, rfl⟩ := Settings.of_finish h
      exact ⟨List.mem_cons_self, captured, hcheck, rfl⟩
    · rw [resolve_leaf_of_not_admits (by simpa using hadm)] at h
      exact (ih h).imp_left (List.mem_cons_of_mem _)
  | mount r below inner rest ihInner ihRest =>
    by_cases hadm : r.admits view true = true
    · rw [resolve_mount_of_admits hadm] at h
      rcases hres : resolve below view inner false w with ⟨⟨found, handler', vars'⟩ | ⟨e, _ | g⟩, w'⟩
      · rw [hres] at h
        obtain ⟨rfl, rfl⟩ := Settings.of_finish h
        have hinner := ihInner (congrArg Prod.fst hres)
        exact hinner.imp_left fun hmem => List.mem_cons_of_mem _ (List.mem_append_left _ hmem)
      · rw [hres] at h
        exact (ihRest h).imp_left fun hmem => List.mem_cons_of_mem _ (List.mem_append_right _ hmem)
      · rw [hres] at h
        cases h
    · rw [resolve_mount_of_not_admits (by simpa using hadm)] at h
      exact (ihRest h).imp_left fun hmem => List.mem_cons_of_mem _ (List.mem_append_right _ hmem)

end Tree

theorem Router.mem_flatten_of_dispatch {H : Type} {r : Router H} {req : Request} {w : Wraps H} {route : Route H}
    (h : (r.dispatch req w).1.outcome = .ok route) : route ∈ r.routes.flatten := by
  rcases hfound : (r.dispatch req w).1 with ⟨found, handler, vars⟩ | ⟨e, fallback⟩
  · rw [hfound] at h
    cases h
    exact (Tree.of_resolve_eq_matched hfound).1
  · rw [hfound] at h
    cases h

end RequestRouter
