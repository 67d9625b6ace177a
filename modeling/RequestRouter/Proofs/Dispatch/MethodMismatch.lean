import RequestRouter.Proofs.Dispatch.AllowList
/-!
What a method mismatch tells. A method that would do always turns a failure into a method mismatch; the other
way round a mount with methods of its own answers before the routes below it are asked.
-/
namespace RequestRouter

open RequestRouter.Http

variable {H : Type} {view : View}

namespace Route

/-- A regular route that would accept a request with another method accepts it or fails on the method only. -/
theorem Regular.admits_or_missesMethod {r : Route H} (h : r.Regular) {m : Method} {isMount : Bool}
    (ha : r.admits (view.withMethod m) isMount = true) :
    r.admits view isMount = true ∨ r.missesMethod view isMount = true := by
  obtain ⟨hopen, -⟩ := (h.admits_withMethod view m isMount).mp ha
  rw [not_or, Bool.not_eq_true, Bool.not_eq_true, Option.isNone_eq_false_iff] at hopen
  obtain ⟨hb, hc⟩ := hopen
  obtain ⟨⟨mismatch, vars⟩, hc⟩ := Option.isSome_iff_exists.mp hc
  cases mismatch
  · exact .inl ((r.admits_iff view isMount).mpr ⟨hb, vars, hc⟩)
  · exact .inr ((r.missesMethod_iff view isMount).mpr ⟨hb, vars, hc⟩)

/-- A route whose check has no failure but the method accepts the request with the methods that it reports. -/
theorem Regular.admits_withMethod_of_check {r : Route H} (h : r.Regular) {m : Method} {isMount : Bool}
    (hb : r.buildOnly = false) (hc : (r.check view isMount).isSome = true) (hm : r.reports m) :
    r.admits (view.withMethod m) isMount = true := by
  refine (h.admits_withMethod view m isMount).mpr ⟨?_, hm⟩
  simp [hb, Option.isSome_iff_ne_none.mp hc]

theorem Regular.missesMethod_eq_false {r : Route H} (h : r.Regular) (hm : r.methods? = none)
    (isMount : Bool) : r.missesMethod view isMount = false := by
  by_contra hmiss
  rw [Bool.not_eq_false] at hmiss
  obtain ⟨hb, vars, hc⟩ := (r.missesMethod_iff view isMount).mp hmiss
  have hreports : r.reports view.request.method := by simp [reports, hm]
  have hadm : r.admits (view.withMethod view.request.method) isMount = true :=
    h.admits_withMethod_of_check hb (by simp [hc]) hreports
  have hsame : view.withMethod view.request.method = view := rfl
  rw [hsame] at hadm
  simp [missesMethod_of_admits hadm] at hmiss

end Route

namespace Tree

theorem mount_of_mem_above {t : Tree H} {above : List (Route H)} {s : Site H} (hs : s ∈ t.sites above)
    {r : Route H} (hr : r ∈ s.above) :
    r ∈ above ∨ ∃ m ∈ t.sites above, m.isMount = true ∧ m.route = r := by
  induction t generalizing above with
  | nil => simp [sites] at hs
  | leaf x rest ih =>
    rcases List.mem_cons.mp hs with rfl | hs
    · exact .inl hr
    · rcases ih hs with hmem | ⟨m, hm, h⟩
      · exact .inl hmem
      · exact .inr ⟨m, by simp [sites, hm], h⟩
  | mount x settings inner rest ihInner ihRest =>
    simp only [sites, List.mem_cons, List.mem_append] at hs
    rcases hs with rfl | hs | hs
    · exact .inl hr
    · rcases ihInner hs with hmem | ⟨m, hm, h⟩
      · rcases List.mem_append.mp hmem with hmem | hmem
        · exact .inl hmem
        · exact .inr ⟨⟨x, true, above⟩, by simp [sites], rfl, (List.mem_singleton.mp hmem).symm⟩
      · exact .inr ⟨m, by simp [sites, hm], h⟩
    · rcases ihRest hs with hmem | ⟨m, hm, h⟩
      · exact .inl hmem
      · exact .inr ⟨m, by simp [sites, hm], h⟩

/-- If a tree would take a request with another method, then with the one it has some place takes it or fails
on the method only. -/
theorem exists_takes_or_missesMethod {t : Tree H} (ht : ∀ r ∈ t.flatten, r.Regular) {m : Method}
    (h : t.accepts (view.withMethod m)) {above : List (Route H)}
    (ha : above.all (·.admits view true) = true) :
    ∃ s ∈ t.sites above, s.takes view = true ∨ s.missesMethod view = true := by
  induction t generalizing above with
  | nil => exact h.elim
  | leaf r rest ih =>
    rcases h with h | h
    · refine ⟨⟨r, false, above⟩, by simp [sites], ?_⟩
      simpa [Site.takes, Site.missesMethod, Site.reached, ha] using
        (ht r (by simp [flatten])).admits_or_missesMethod h
    · obtain ⟨s, hs, hor⟩ := ih (fun x hx => ht x (by simp [flatten, hx])) h ha
      exact ⟨s, by simp [sites, hs], hor⟩
  | mount r settings inner rest ihInner ihRest =>
    rcases h with ⟨hadm, h⟩ | h
    · rcases (ht r (by simp [flatten])).admits_or_missesMethod hadm with hadm | hmiss
      · have hall : (above ++ [r]).all (·.admits view true) = true := by simp [ha, hadm]
        obtain ⟨s, hs, hor⟩ := ihInner (fun x hx => ht x (by simp [flatten, hx])) h hall
        exact ⟨s, by simp [sites, hs], hor⟩
      · refine ⟨⟨r, true, above⟩, by simp [sites], .inr ?_⟩
        simp [Site.missesMethod, Site.reached, ha, hmiss]
    · obtain ⟨s, hs, hor⟩ := ihRest (fun x hx => ht x (by simp [flatten, hx])) h ha
      exact ⟨s, by simp [sites, hs], hor⟩

end Tree

namespace Site

/-- The methods that the route and all mounts above it report have none in common. -/
def Barred (s : Site H) : Prop := ∀ m, ∃ r ∈ s.route :: s.above, ¬ r.reports m

/-- A route that a request comes to, and that fails on its method only, takes it with a method that it and
the mounts above it report. -/
theorem takes_withMethod {s : Site H} (hroute : s.route.Regular) (habove : ∀ r ∈ s.above, r.Regular)
    (hleaf : s.isMount = false) (h : s.missesMethod view = true) (hbar : ¬ s.Barred) :
    ∃ m, s.takes (view.withMethod m) = true := by
  simp only [Barred, not_forall, not_exists, not_and, not_not, List.mem_cons, forall_eq_or_imp] at hbar
  obtain ⟨m, hm, hms⟩ := hbar
  simp only [missesMethod, hleaf, Bool.and_eq_true, reached, List.all_eq_true] at h
  obtain ⟨hreached, hmiss⟩ := h
  refine ⟨m, ?_⟩
  simp only [takes, reached, hleaf, Bool.not_false, Bool.and_true, Bool.and_eq_true, List.all_eq_true]
  constructor
  · intro r hr
    obtain ⟨hb, vars, hc⟩ := (r.admits_iff view true).mp (hreached r hr)
    exact (habove r hr).admits_withMethod_of_check hb (by simp [hc]) (hms r hr)
  · obtain ⟨hb, vars, hc⟩ := (s.route.missesMethod_iff view false).mp hmiss
    exact hroute.admits_withMethod_of_check hb (by simp [hc]) hm

end Site

namespace Router

/-- Whether the router finds a route for the request with some method. -/
def ServesSomeMethod (r : Router H) (req : Request) (w : Wraps H) : Prop :=
  ∃ m route, (r.dispatch { req with method := m } w).1.outcome = .ok route

theorem servesSomeMethod_iff {r : Router H} (h : r.routes.NoFallback) (req : Request) (w : Wraps H) :
    r.ServesSomeMethod req w ↔ ∃ m, r.routes.accepts ((View.of req).withMethod m) :=
  exists_congr fun m => by rw [exists_outcome_ok_iff h, View.of_method]

/-- A request without a match would have one with the methods that are listed as allowed and no others. -/
theorem servesSomeMethod_iff_allowed {r : Router H} (h : r.routes.Regular) {req : Request} {w : Wraps H}
    {e : MatchError} (hfail : (r.dispatch req w).1.outcome = .error e) :
    r.ServesSomeMethod req w ↔ r.allowedMethods req ≠ [] := by
  have hallowed (m : Method) := Tree.mem_allowed_or_any h.route (.of req) m []
  have hno : ¬ r.routes.accepts ((View.of req).withMethod req.method) := by
    intro hacc
    obtain ⟨route, hok⟩ := (exists_outcome_ok_iff h.noFallback req w).mpr hacc
    simp [hfail] at hok
  have hany : (r.routes.allowed (.of req) []).2 = false := by
    by_contra hany
    rw [Bool.not_eq_false] at hany
    exact ((hallowed req.method).mp (.inr hany)).elim List.not_mem_nil hno
  simp only [hany, Bool.false_eq_true, or_false, List.not_mem_nil, false_or] at hallowed
  rw [servesSomeMethod_iff h.noFallback]
  constructor
  · rintro ⟨m, hacc⟩
    exact List.ne_nil_of_mem ((hallowed m).mpr hacc)
  · intro hne
    obtain ⟨m, hm⟩ := List.exists_mem_of_ne_nil _ hne
    exact ⟨m, (hallowed m).mp hm⟩

theorem exists_takes_iff_servesSomeMethod {r : Router H} (h : r.routes.NoFallback) (req : Request)
    (w : Wraps H) :
    (∃ m, ∃ s ∈ r.sites, s.takes ((View.of req).withMethod m) = true) ↔ r.ServesSomeMethod req w := by
  rw [servesSomeMethod_iff h]
  exact exists_congr fun m => Tree.exists_takes_iff r.routes _ List.all_nil

theorem mount_of_mem_above {r : Router H} {s : Site H} (hs : s ∈ r.sites) {x : Route H}
    (hx : x ∈ s.above) : ∃ m ∈ r.sites, m.isMount = true ∧ m.route = x :=
  (Tree.mount_of_mem_above hs hx).resolve_left List.not_mem_nil

theorem regular_of_mem_sites {r : Router H} (h : r.routes.Regular) {s : Site H} (hs : s ∈ r.sites) :
    s.route.Regular := by
  refine h.route s.route ?_
  rw [← r.routes.sites_route []]
  exact List.mem_map_of_mem hs

/-- A place that fails on its method only is a mount, or is barred, or takes the request with some method. -/
theorem servesSomeMethod_of_missesMethod {r : Router H} (h : r.routes.Regular) {req : Request} (w : Wraps H)
    {s : Site H} (hs : s ∈ r.sites) (hmiss : s.missesMethod (.of req) = true)
    (hbar : ¬ (s.isMount = true ∨ s.Barred)) : r.ServesSomeMethod req w := by
  rw [not_or, Bool.not_eq_true] at hbar
  have habove : ∀ x ∈ s.above, x.Regular := by
    intro x hx
    obtain ⟨m, hm, -, rfl⟩ := mount_of_mem_above hs hx
    exact regular_of_mem_sites h hm
  obtain ⟨m, ht⟩ := s.takes_withMethod (regular_of_mem_sites h hs) habove hbar.1 hmiss hbar.2
  exact (exists_takes_iff_servesSomeMethod h.noFallback req w).mp ⟨m, s, hs, ht⟩

/-- Where no mount has methods and no list of methods is empty, what fails on its method only is a route that
is not barred. -/
theorem not_barred_of_missesMethod {r : Router H} (h : r.routes.Regular) {req : Request}
    (hlists : ∀ s ∈ r.sites, if s.isMount then s.route.methods? = none else s.route.methods? ≠ some [])
    {s : Site H} (hs : s ∈ r.sites) (hmiss : s.missesMethod (.of req) = true) :
    ¬ (s.isMount = true ∨ s.Barred) := by
  intro hbar
  have hlist := hlists s hs
  cases hm : s.route.methods? with
  | none =>
    have hno : s.route.missesMethod (.of req) s.isMount = false :=
      (regular_of_mem_sites h hs).missesMethod_eq_false hm s.isMount
    simp [Site.missesMethod, hno] at hmiss
  | some ms =>
    cases hmount : s.isMount with
    | true => simp [hmount, hm] at hlist
    | false =>
      obtain ⟨m, ms, rfl⟩ := List.exists_cons_of_ne_nil (by simpa [hmount, hm] using hlist)
      obtain ⟨x, hx, hbarred⟩ := (hbar.resolve_left (by simp [hmount])) m
      rcases List.mem_cons.mp hx with rfl | hx
      · exact hbarred (by simp [Route.reports, hm])
      · obtain ⟨site, hsite, hsm, rfl⟩ := mount_of_mem_above hs hx
        have hnone := hlists site hsite
        exact hbarred (by simp_all [Route.reports])

/-- In a tree of regular routes whose inner routers do not answer failures, a failure is a method mismatch
exactly if the request would have a match with some method, or comes to a mount that takes only other methods,
or comes to a route for other methods which the mounts above it do not let through. It would have a match
with some method exactly if methods are listed as allowed. Where no mount has methods and no list of methods
is empty, a method mismatch means that some method would do. -/
theorem method_mismatch_iff (r : Router H) (h : r.routes.Regular) (req : Request) (w : Wraps H)
    (e : MatchError) (hfail : (r.dispatch req w).1.outcome = .error e) :
    (e = .methodMismatch ↔ r.ServesSomeMethod req w ∨
      ∃ s ∈ r.sites, s.missesMethod (.of req) = true ∧ (s.isMount = true ∨ s.Barred)) ∧
    (r.ServesSomeMethod req w ↔ r.allowedMethods req ≠ []) ∧
    ((∀ s ∈ r.sites, if s.isMount then s.route.methods? = none else s.route.methods? ≠ some []) →
      (e = .methodMismatch ↔ r.ServesSomeMethod req w)) := by
  obtain ⟨hnone, he⟩ := (Site.scan_eq_error_iff _ _ _ _).mp (dispatch_outcome h.noFallback req w ▸ hfail)
  have hiff : e = .methodMismatch ↔ r.ServesSomeMethod req w ∨
      ∃ s ∈ r.sites, s.missesMethod (.of req) = true ∧ (s.isMount = true ∨ s.Barred) := by
    have hmismatch : e = .methodMismatch ↔ ∃ s ∈ r.sites, s.missesMethod (.of req) = true := by
      rw [he]
      by_cases hs : ∃ s ∈ r.sites, s.missesMethod (.of req) = true <;> simp [hs]
    rw [hmismatch]
    constructor
    · rintro ⟨s, hs, hmiss⟩
      by_cases hbar : s.isMount = true ∨ s.Barred
      · exact .inr ⟨s, hs, hmiss, hbar⟩
      · exact .inl (servesSomeMethod_of_missesMethod h w hs hmiss hbar)
    · rintro (hsome | ⟨s, hs, hmiss, -⟩)
      · obtain ⟨m, hacc⟩ := (servesSomeMethod_iff h.noFallback req w).mp hsome
        obtain ⟨s, hs, ht | hmiss⟩ := Tree.exists_takes_or_missesMethod h.route hacc List.all_nil
        · simp [hnone s hs] at ht
        · exact ⟨s, hs, hmiss⟩
      · exact ⟨s, hs, hmiss⟩
  refine ⟨hiff, servesSomeMethod_iff_allowed h hfail, fun hlists => ?_⟩
  rw [hiff, or_iff_left]
  exact fun ⟨s, hs, hmiss, hbar⟩ => not_barred_of_missesMethod h hlists hs hmiss hbar

/-- Below a mount without methods a wrong method means that another one would do. -/
theorem method_mismatch_iff_open_mount :
    let post : Route Nat := { Route.new .root 1 with matchers := [.methods [⟨"POST"⟩]] }
    let r : Router Nat := ⟨.new 0 .root, .mount (.new .root 0) (.new 1 .root) (.leaf post .nil) .nil⟩
    let req : Request := .new .get ⟨none, none, "/", none⟩ [] none
    r.routes.Regular ∧ (r.dispatch req .new).1.outcome = .error .methodMismatch ∧
      r.ServesSomeMethod req .new ∧ r.allowedMethods req ≠ [] := by
  intro post r req
  have hroute : ∀ x ∈ r.routes.flatten, x.Regular := by
    intro x hx
    rcases (by simpa [r, Tree.flatten] using hx : x = .new .root 0 ∨ x = post) with rfl | rfl
    · exact ⟨by simp [Route.new], by decide⟩
    · have hstandard : Matcher.Standard (.methods [⟨"POST"⟩]) := trivial
      exact ⟨by simp [post, hstandard], by decide⟩
  have h : r.routes.Regular := ⟨hroute, rfl, rfl, trivial, trivial⟩
  have hfail : (r.dispatch req .new).1.outcome = .error .methodMismatch := rfl
  have hlists : ∀ s ∈ r.sites,
      if s.isMount then s.route.methods? = none else s.route.methods? ≠ some [] := by
    simp [r, sites, Tree.sites, post, Route.methods?_eq, Route.new, Matcher.methods?, Tree.addMethods]
  obtain ⟨-, hallowed, hopen⟩ := method_mismatch_iff r h req .new .methodMismatch hfail
  have hserves := (hopen hlists).mp rfl
  exact ⟨h, hfail, hserves, hallowed.mp hserves⟩

/-- A mount for another method answers before the route below it, which no method would help, is asked. -/
theorem method_mismatch_no_method :
    let mount : Route Nat := { Route.new .root 0 with matchers := [.methods [⟨"POST"⟩]] }
    let inner : Route Nat := { Route.new .root 1 with matchers := [.headers [(⟨"x-token"⟩, "")]] }
    let r : Router Nat := ⟨.new 0 .root, .mount mount (.new 1 .root) (.leaf inner .nil) .nil⟩
    let req : Request := .new .get ⟨none, none, "/", none⟩ [] none
    r.routes.Regular ∧ (r.dispatch req .new).1.outcome = .error .methodMismatch ∧
      r.allowedMethods req = [] ∧ ¬ r.ServesSomeMethod req .new := by
  intro mount inner r req
  have hroute : ∀ x ∈ r.routes.flatten, x.Regular := by
    intro x hx
    rcases (by simpa [r, Tree.flatten] using hx : x = mount ∨ x = inner) with rfl | rfl
    · have hstandard : Matcher.Standard (.methods [⟨"POST"⟩]) := trivial
      exact ⟨by simp [mount, hstandard], by decide⟩
    · have hstandard : Matcher.Standard (.headers [(⟨"x-token"⟩, "")]) := trivial
      exact ⟨by simp [inner, hstandard], by decide⟩
  have h : r.routes.Regular := ⟨hroute, rfl, rfl, trivial, trivial⟩
  have hfail : (r.dispatch req .new).1.outcome = .error .methodMismatch := rfl
  have hallowed : r.allowedMethods req = [] := rfl
  exact ⟨h, hfail, hallowed, fun hserves => (servesSomeMethod_iff_allowed h hfail).mp hserves hallowed⟩

end Router

end RequestRouter
