import RequestRouter.Proofs.Dispatch.Site
/-!
Dispatch as a flat scan. In a tree whose inner routers have no handlers for failures, dispatch from router
to router finds what a single scan over all places in walk order finds. In any tree a route that is found is
the one that the scan finds.
-/
namespace RequestRouter

variable {H : Type}

namespace Site

theorem scan_append (view : View) (mismatch : Bool) (xs ys : List (Site H)) :
    scan view mismatch (xs ++ ys) =
      match scan view mismatch xs with
      | .ok r => .ok r
      | .error e => scan view (decide (e = .methodMismatch)) ys := by
  induction xs generalizing mismatch with
  | nil => cases mismatch <;> rfl
  | cons s rest ih =>
    by_cases h : s.takes view
    · simp [scan, h]
    · simp [scan, h, ih]

/-- What was remembered before a scan only matters if the scan finds nothing. -/
theorem scan_mismatch (view : View) (mismatch : Bool) (xs : List (Site H)) :
    scan view mismatch xs =
      match scan view false xs with
      | .ok r => .ok r
      | .error e => .error (if mismatch then .methodMismatch else e) := by
  induction xs generalizing mismatch with
  | nil => cases mismatch <;> rfl
  | cons s rest ih =>
    by_cases h : s.takes view
    · simp [scan, h]
    · simp only [scan, h, Bool.false_eq_true, if_false, Bool.false_or]
      rw [ih (mismatch || s.missesMethod view), ih (s.missesMethod view)]
      cases scan view false rest <;> cases mismatch <;> cases s.missesMethod view <;> simp

theorem scan_unreached (view : View) (mismatch : Bool) (xs : List (Site H))
    (h : ∀ s ∈ xs, s.reached view = false) :
    scan view mismatch xs = .error (if mismatch then .methodMismatch else .notFound) := by
  induction xs generalizing mismatch with
  | nil => rfl
  | cons s rest ih =>
    have hs : s.reached view = false := h s (by simp)
    have hr := ih (mismatch || s.missesMethod view) fun t ht => h t (by simp [ht])
    simpa [scan, takes, missesMethod, hs] using hr

theorem scan_eq_ok_iff (view : View) (mismatch : Bool) (xs : List (Site H)) (route : Route H) :
    scan view mismatch xs = .ok route ↔
      ∃ before s after, xs = before ++ s :: after ∧ s.route = route ∧ s.takes view = true ∧
        ∀ b ∈ before, b.takes view = false := by
  induction xs generalizing mismatch with
  | nil => simp [scan]
  | cons s rest ih =>
    by_cases h : s.takes view
    · simp only [scan, h, if_true, Except.ok.injEq]
      constructor
      · intro hr
        exact ⟨[], s, rest, rfl, hr, h, by simp⟩
      · rintro ⟨before, t, after, he, hr, ht, hb⟩
        cases before with
        | nil =>
          obtain ⟨rfl, rfl⟩ := List.cons.inj he
          exact hr
        | cons b before =>
          obtain ⟨rfl, rfl⟩ := List.cons.inj he
          have := hb s (by simp)
          simp [h] at this
    · simp only [scan, h, Bool.false_eq_true, if_false, ih]
      constructor
      · rintro ⟨before, t, after, rfl, hr, ht, hb⟩
        refine ⟨s :: before, t, after, rfl, hr, ht, ?_⟩
        simpa [h] using hb
      · rintro ⟨before, t, after, he, hr, ht, hb⟩
        cases before with
        | nil =>
          obtain ⟨rfl, rfl⟩ := List.cons.inj he
          exact absurd ht h
        | cons b before =>
          obtain ⟨rfl, rfl⟩ := List.cons.inj he
          exact ⟨before, t, after, rfl, hr, ht, fun c hc => hb c (by simp [hc])⟩

theorem scan_eq_error_iff (view : View) (mismatch : Bool) (xs : List (Site H)) (e : MatchError) :
    scan view mismatch xs = .error e ↔
      (∀ s ∈ xs, s.takes view = false) ∧
        e = if mismatch ∨ ∃ s ∈ xs, s.missesMethod view = true then .methodMismatch else .notFound := by
  induction xs generalizing mismatch with
  | nil =>
    simp only [scan, List.not_mem_nil, false_and, exists_false, or_false, Except.error.injEq]
    exact ⟨fun h => ⟨by simp, h.symm⟩, fun h => h.2.symm⟩
  | cons s rest ih =>
    by_cases h : s.takes view
    · simp [scan, h]
    · simp only [scan, h, Bool.false_eq_true, if_false, ih, List.mem_cons, forall_eq_or_imp,
        exists_eq_or_imp, Bool.or_eq_true, or_assoc, true_and]

end Site

/-- The outcome of a dispatch fits the first place that takes the request, if there is one. A failure that a
router answers itself may hide places. -/
def RouteMatch.Fits : RouteMatch H → Option (Site H) → Prop
  | matched route _ _, first => ∃ s, first = some s ∧ s.route = route
  | failed _ none, first => first = none
  | failed _ (some _), _ => True

theorem RouteMatch.fits_of_outcome {m : RouteMatch H} {s : Site H} (h : m.outcome = .ok s.route) :
    m.Fits (some s) := by
  cases m with
  | matched route handler vars => exact ⟨s, rfl, (Except.ok.inj h).symm⟩
  | failed e fallback => cases h

namespace Tree

/-- A mount that does not admit the request hides all places below it. -/
theorem reached_of_not_admits {t : Tree H} {above : List (Route H)} {r : Route H} {view : View}
    (h : r.admits view true = false) {s : Site H} (hs : s ∈ t.sites (above ++ [r])) :
    s.reached view = false := by
  obtain ⟨more, hm⟩ := above_of_mem_sites hs
  simp [Site.reached, hm, h]

/-- Dispatch in a router below mounts that all admit the request is a scan of the places of the router. -/
theorem resolve_outcome {t : Tree H} (ht : t.NoFallback) (s : Settings H) (view : View)
    {above : List (Route H)} (ha : above.all (·.admits view true) = true) (mismatch : Bool)
    (w : Wraps H) :
    (t.resolve s view mismatch w).1.outcome = Site.scan view mismatch (t.sites above) := by
  induction t generalizing s above mismatch w with
  | nil => simp [resolve, sites, Site.scan]
  | leaf r rest ih =>
    have htakes : Site.takes ⟨r, false, above⟩ view = r.admits view false := by
      simp [Site.takes, Site.reached, ha]
    have hmisses : Site.missesMethod ⟨r, false, above⟩ view = r.missesMethod view false := by
      simp [Site.missesMethod, Site.reached, ha]
    rw [sites, Site.scan, htakes, hmisses]
    by_cases hadm : r.admits view false
    · rw [if_pos hadm, resolve_leaf_of_admits hadm]
    · rw [if_neg hadm, resolve_leaf_of_not_admits (by simpa using hadm)]
      exact ih ht s ha _ w
  | mount r below inner rest ihInner ihRest =>
    obtain ⟨hn, hm, hi, hr⟩ := ht
    have htakes : Site.takes ⟨r, true, above⟩ view = false := by simp [Site.takes]
    have hmisses : Site.missesMethod ⟨r, true, above⟩ view = r.missesMethod view true := by
      simp [Site.missesMethod, Site.reached, ha]
    rw [sites, Site.scan, htakes, hmisses, if_neg (by simp), Site.scan_append]
    by_cases hadm : r.admits view true
    · have hall : (above ++ [r]).all (·.admits view true) = true := by simp [ha, hadm]
      have hInner := ihInner hi below hall false w
      rw [resolve_mount_of_admits hadm, Site.scan_mismatch, ← hInner, Route.missesMethod_of_admits hadm,
        Bool.or_false]
      rcases hres : resolve below view inner false w with ⟨route | ⟨e, fallback⟩, w₁⟩
      · simp
      · obtain rfl := fallback_eq_none hi hn hm hres
        simp only [RouteMatch.outcome_failed, ihRest hr s ha]
        cases mismatch <;> cases e <;> rfl
    · have hout : ∀ site ∈ inner.sites (above ++ [r]), site.reached view = false :=
        fun site hs => reached_of_not_admits (by simpa using hadm) hs
      rw [resolve_mount_of_not_admits (by simpa using hadm), ihRest hr s ha,
        Site.scan_unreached view _ _ hout]
      cases mismatch || r.missesMethod view true <;> rfl

theorem resolve_fits (t : Tree H) (s : Settings H) (view : View) {above : List (Route H)}
    (ha : above.all (·.admits view true) = true) (mismatch : Bool) (w : Wraps H) :
    (t.resolve s view mismatch w).1.Fits ((t.sites above).find? (·.takes view)) := by
  induction t generalizing s above mismatch w with
  | nil =>
    rw [resolve, Settings.fail]
    cases mismatch
    · cases s.notFound <;> trivial
    · cases s.methodNotAllowed <;> trivial
  | leaf r rest ih =>
    have htakes : Site.takes ⟨r, false, above⟩ view = r.admits view false := by
      simp [Site.takes, Site.reached, ha]
    rw [sites, List.find?_cons, htakes]
    cases hadm : r.admits view false with
    | true => exact RouteMatch.fits_of_outcome (resolve_leaf_of_admits hadm)
    | false =>
      rw [resolve_leaf_of_not_admits hadm]
      exact ih s ha _ w
  | mount r below inner rest ihInner ihRest =>
    have htakes : Site.takes ⟨r, true, above⟩ view = false := by simp [Site.takes]
    rw [sites, List.find?_cons_of_neg (by simp [htakes]), List.find?_append]
    cases hadm : r.admits view true with
    | true =>
      have hall : (above ++ [r]).all (·.admits view true) = true := by simp [ha, hadm]
      have hInner := ihInner below hall false w
      rw [resolve_mount_of_admits hadm]
      rcases hres : resolve below view inner false w with ⟨⟨route, handler, vars⟩ | ⟨e, _ | f⟩, w₁⟩
      · rw [hres] at hInner
        obtain ⟨site, hfind, rfl⟩ := hInner
        rw [hfind]
        exact RouteMatch.fits_of_outcome (s.outcome_finish _ handler vars w₁)
      · rw [hres] at hInner
        have hnone : (inner.sites (above ++ [r])).find? (·.takes view) = none := hInner
        rw [hnone, Option.none_or]
        exact ihRest s ha _ w₁
      · trivial
    | false =>
      have hnone : (inner.sites (above ++ [r])).find? (·.takes view) = none := by
        refine List.find?_eq_none.mpr fun site hs => ?_
        simp [Site.takes, reached_of_not_admits hadm hs]
      rw [resolve_mount_of_not_admits hadm, hnone, Option.none_or]
      exact ihRest s ha _ w

end Tree

namespace Router

/-- The places of a router in walk order. -/
def sites (r : Router H) : List (Site H) := r.routes.sites []

theorem dispatch_outcome {r : Router H} (h : r.routes.NoFallback) (req : Request) (w : Wraps H) :
    (r.dispatch req w).1.outcome = Site.scan (.of req) false r.sites :=
  Tree.resolve_outcome h r.settings (.of req) List.all_nil false w

theorem find?_of_outcome {r : Router H} {req : Request} {w : Wraps H} {route : Route H}
    (h : (r.dispatch req w).1.outcome = .ok route) :
    ∃ s, r.sites.find? (·.takes (.of req)) = some s ∧ s.route = route := by
  have hfits := r.routes.resolve_fits r.settings (.of req) List.all_nil false w
  rw [← dispatch] at hfits
  cases hm : (r.dispatch req w).1 with
  | matched found handler vars =>
    rw [hm] at h hfits
    obtain ⟨s, hfind, rfl⟩ := hfits
    exact ⟨s, hfind, Except.ok.inj h⟩
  | failed e fallback =>
    rw [hm] at h
    cases h

/-- If no router below the root answers failures itself, dispatch succeeds with a route exactly if it is the
first one in walk order that takes the request; otherwise the failure is a method mismatch exactly if some
place, mount or not, fails on its method only. -/
theorem dispatch_first_site (r : Router H) (h : r.routes.NoFallback) (req : Request) (w : Wraps H) :
    (∀ route, (r.dispatch req w).1.outcome = .ok route ↔
      ∃ before s after, r.sites = before ++ s :: after ∧ s.route = route ∧
        s.takes (.of req) = true ∧ ∀ b ∈ before, b.takes (.of req) = false) ∧
    ((r.dispatch req w).1.outcome = .error .methodMismatch ↔
      (∀ s ∈ r.sites, s.takes (.of req) = false) ∧ ∃ s ∈ r.sites, s.missesMethod (.of req) = true) ∧
    ((r.dispatch req w).1.outcome = .error .notFound ↔
      (∀ s ∈ r.sites, s.takes (.of req) = false) ∧ ¬ ∃ s ∈ r.sites, s.missesMethod (.of req) = true) := by
  rw [dispatch_outcome h]
  refine ⟨Site.scan_eq_ok_iff _ _ _, ?_, ?_⟩
  · rw [Site.scan_eq_error_iff]
    refine and_congr_right fun _ => ?_
    split <;> simp_all
  · rw [Site.scan_eq_error_iff]
    refine and_congr_right fun _ => ?_
    split <;> simp_all

/-- A mount whose only route wants another method leaves the request to the route after it. -/
theorem dispatch_first_site_after_mount :
    let post : Route Nat := { Route.new .root 1 with matchers := [.methods [⟨"POST"⟩]] }
    let last : Route Nat := .new .root 2
    let r : Router Nat :=
      ⟨.new 0 .root, .mount (.new .root 0) (.new 1 .root) (.leaf post .nil) (.leaf last .nil)⟩
    r.routes.NoFallback ∧
      (r.dispatch (.new .get ⟨none, none, "/", none⟩ [] none) .new).1.outcome = .ok last := by
  intro post last r
  have h : r.routes.NoFallback := ⟨rfl, rfl, trivial, trivial⟩
  refine ⟨h, ((dispatch_first_site r h _ .new).1 last).mpr
    ⟨[⟨.new .root 0, true, []⟩, ⟨post, false, [.new .root 0]⟩], ⟨last, false, []⟩, [], rfl, rfl, rfl, ?_⟩⟩
  rintro b (_ | ⟨_, _ | ⟨_, h⟩⟩)
  · rfl
  · rfl
  · cases h

end Router

end RequestRouter
