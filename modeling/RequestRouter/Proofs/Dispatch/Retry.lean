import RequestRouter.Proofs.Dispatch.Fallbacks
import RequestRouter.Proofs.Dispatch.MethodMismatch
/-!
Retrying with a method that is listed as allowed. The list has the methods of all places that are open but for
the method, while a place takes a request only if every list of methods on the way to it has the method, and a
router below a mount may answer before the scan comes to that place.
-/
namespace RequestRouter

open RequestRouter.Http

variable {H : Type} {view : View} {m : Method}

namespace Route

/-- No condition of the route is one of the caller's own. -/
def Standard (r : Route H) : Prop := ∀ mt ∈ r.matchers, mt.Standard

def Open (r : Route H) (view : View) (isMount : Bool) : Prop :=
  ¬ (r.buildOnly = true ∨ (r.check view isMount).isNone = true)

/-- All lists of methods of the route have the same methods. -/
def OneMethodSet (r : Route H) : Prop :=
  ∀ ms ∈ r.matchers.filterMap Matcher.methods?, ∀ ms' ∈ r.matchers.filterMap Matcher.methods?, ms ⊆ ms'

variable {r : Route H} {isMount : Bool}

theorem open_iff : r.Open view isMount ↔ r.admits view isMount = true ∨ r.missesMethod view isMount = true := by
  rw [admits_iff, missesMethod_iff, Open, not_or, Bool.not_eq_true, Bool.not_eq_true,
    Option.isNone_eq_false_iff, ← and_or_left, Option.isSome_iff_exists]
  refine and_congr_right fun _ => ⟨?_, ?_⟩
  · rintro ⟨⟨_ | _, vars⟩, hc⟩
    · exact .inl ⟨vars, hc⟩
    · exact .inr ⟨vars, hc⟩
  · rintro (⟨vars, hc⟩ | ⟨vars, hc⟩) <;> exact ⟨_, hc⟩

theorem open_withMethod (h : r.Standard) : r.Open (view.withMethod m) isMount ↔ r.Open view isMount := by
  have hjudge : (r.judge (view.withMethod m).request).isSome = true ↔ (r.judge view.request).isSome = true := by
    rw [judge_isSome_iff, judge_isSome_iff]
    exact forall₂_congr fun mt hmt => not_congr (Matcher.judge_method_eq_rejects (h mt hmt) view.request m)
  have hcapture : r.capture (view.withMethod m) isMount = r.capture view isMount := rfl
  rw [Open, Open, not_or, not_or, Bool.not_eq_true (Option.isNone _), Bool.not_eq_true (Option.isNone _),
    Option.isNone_eq_false_iff, Option.isNone_eq_false_iff, check_isSome_iff, check_isSome_iff, hjudge, hcapture]

theorem AllowsMethod.reports (h : r.AllowsMethod m) : r.reports m := by
  intro ms hms
  rw [methods?_eq] at hms
  cases hlists : r.matchers.filterMap Matcher.methods? with
  | nil => simp [hlists] at hms
  | cons list lists =>
    rw [hlists] at hms
    obtain rfl := Option.some.inj hms
    rw [Tree.mem_addMethods, List.flatten_cons]
    exact .inr (List.mem_append_left _ (h list (by simp [hlists])))

theorem OneMethodSet.allowsMethod (h : r.OneMethodSet) (hm : r.reports m) : r.AllowsMethod m := by
  intro ms hms
  have hsome : r.methods? = some (Tree.addMethods [] (r.matchers.filterMap Matcher.methods?).flatten) := by
    rw [methods?_eq]
    cases hlists : r.matchers.filterMap Matcher.methods? with
    | nil => simp [hlists] at hms
    | cons list lists => rfl
  have hmem := hm _ hsome
  rw [Tree.mem_addMethods] at hmem
  obtain ⟨ms', hms', hmem⟩ := List.mem_flatten.mp (hmem.resolve_left List.not_mem_nil)
  exact h ms' hms' ms hms hmem

end Route

namespace Site

/-- But for the method, the route at this place and the mounts above it accept the request. -/
def Open (s : Site H) (view : View) : Prop := s.route.Open view s.isMount ∧ ∀ x ∈ s.above, x.Open view true

/-- The place is open, and its route and the mounts above it report the method: the place has it listed. -/
def Offers (s : Site H) (view : View) (m : Method) : Prop :=
  s.isMount = false ∧ s.Open view ∧ ∀ x ∈ s.route :: s.above, x.reports m

/-- The route or a mount above it has a list of methods without `m`. -/
def Excludes (s : Site H) (m : Method) : Prop := ∃ x ∈ s.route :: s.above, ¬ x.AllowsMethod m

variable {s : Site H}

theorem open_withMethod (hroute : s.route.Standard) (habove : ∀ x ∈ s.above, x.Standard) :
    s.Open (view.withMethod m) ↔ s.Open view :=
  and_congr (Route.open_withMethod hroute) (forall₂_congr fun x hx => Route.open_withMethod (habove x hx))

/-- A place takes the request with a method that it offers and does not exclude. -/
theorem takes_withMethod_iff (hroute : s.route.Standard) (habove : ∀ x ∈ s.above, x.Standard) :
    s.takes (view.withMethod m) = true ↔ s.Offers view m ∧ ¬ s.Excludes m := by
  have hleaf : (!s.isMount) = true ↔ s.isMount = false := by simp
  simp only [takes, reached, Excludes, Bool.and_eq_true, List.all_eq_true, hleaf, not_exists, not_and, not_not,
    List.forall_mem_cons]
  rw [Route.admits_withMethod hroute, forall₂_congr fun x hx => Route.admits_withMethod (habove x hx) view m true]
  constructor
  · rintro ⟨⟨hup, hmount⟩, hopen, hlist⟩
    refine ⟨⟨hmount, ⟨hmount ▸ hopen, fun x hx => (hup x hx).1⟩, ?_⟩, hlist, fun x hx => (hup x hx).2⟩
    exact List.forall_mem_cons.mpr ⟨hlist.reports, fun x hx => (hup x hx).2.reports⟩
  · rintro ⟨⟨hmount, ⟨hopen, hup⟩, -⟩, hlist, hlists⟩
    exact ⟨⟨fun x hx => ⟨hup x hx, hlists x hx⟩, hmount⟩, hmount ▸ hopen, hlist⟩

end Site

theorem RouteMatch.isFinal_of_outcome {result : RouteMatch H} {route : Route H} (h : result.outcome = .ok route) :
    result.isFinal = true := by
  cases result with
  | matched => rfl
  | failed => cases h

namespace Tree

/-- No router below the root has a handler of its own for a wrong method. -/
def MethodsUnanswered : Tree H → Prop
  | nil => True
  | leaf _ rest => rest.MethodsUnanswered
  | mount _ s inner rest => s.methodNotAllowed = none ∧ inner.MethodsUnanswered ∧ rest.MethodsUnanswered

variable {t : Tree H} {settings : Settings H} {mismatch : Bool} {w : Wraps H}

theorem MethodsUnanswered.fallback_eq (ht : t.MethodsUnanswered) {fallback : Option H}
    (h : (resolve settings view t mismatch w).1 = .failed .methodMismatch fallback) :
    fallback = settings.methodNotAllowed := by
  induction t generalizing settings mismatch w fallback with
  | nil =>
    cases mismatch
    · cases h
    · exact (RouteMatch.failed.inj h).2.symm
  | leaf r rest ih =>
    by_cases hadm : r.admits view false = true
    · have ho : (resolve settings view (leaf r rest) mismatch w).1.outcome = .ok r := resolve_leaf_of_admits hadm
      rw [h] at ho
      cases ho
    · rw [resolve_leaf_of_not_admits (by simpa using hadm)] at h
      exact ih ht h
  | mount r below inner rest ihInner ihRest =>
    obtain ⟨hbelow, hinner, hrest⟩ := ht
    by_cases hadm : r.admits view true = true
    · rw [resolve_mount_of_admits hadm] at h
      rcases hres : resolve below view inner false w with ⟨⟨route, handler, vars⟩ | ⟨e, _ | g⟩, w₁⟩
      · have ho := settings.outcome_finish route handler vars w₁
        rw [hres] at h
        rw [h] at ho
        cases ho
      · rw [hres] at h
        exact ihRest hrest h
      · rw [hres] at h
        obtain ⟨rfl, rfl⟩ := RouteMatch.failed.inj h
        have hown := ihInner hinner (by rw [hres])
        rw [hbelow] at hown
        cases hown
    · rw [resolve_mount_of_not_admits (by simpa using hadm)] at h
      exact ihRest hrest h

/-- The methods listed for the routes of a tree, after the ones in `out`, or the mark that a route takes any
method, cover exactly the methods that the places of the tree offer. -/
theorem mem_allowed_or_any_iff_offers (t : Tree H) (view : View) (m : Method) (out : List Method)
    {above : List (Route H)} (ha : ∀ x ∈ above, x.Open view true ∧ x.reports m) :
    (m ∈ (t.allowed view out).1 ∨ (t.allowed view out).2 = true) ↔
      m ∈ out ∨ ∃ s ∈ t.sites above, s.Offers view m := by
  induction t generalizing out above with
  | nil => simp [allowed, sites]
  | leaf r rest ih =>
    have hoffers : Site.Offers ⟨r, false, above⟩ view m ↔ r.Open view false ∧ r.reports m := by
      simp only [Site.Offers, Site.Open, List.forall_mem_cons, true_and]
      exact ⟨fun h => ⟨h.1.1, h.2.1⟩, fun h => ⟨⟨h.1, fun x hx => (ha x hx).1⟩, h.2, fun x hx => (ha x hx).2⟩⟩
    simp only [sites, List.mem_cons, or_and_right, exists_or, exists_eq_left, hoffers]
    rw [allowed]
    by_cases hc : r.buildOnly = true ∨ (r.check view false).isNone = true
    · rw [if_pos hc, ih out ha]
      have hclosed : ¬ r.Open view false := not_not_intro hc
      simp only [hclosed, false_and, false_or]
    · rw [if_neg hc]
      have hopen : r.Open view false := hc
      cases hm : r.methods? with
      | none => simp [Route.reports, hm, hopen]
      | some ms => simp [Route.reports, hm, hopen, ih _ ha, mem_addMethods, or_assoc]
  | mount r s inner rest ihInner ihRest =>
    have hmount : ¬ Site.Offers ⟨r, true, above⟩ view m := fun h => Bool.noConfusion h.1
    simp only [sites, List.mem_cons, List.mem_append, or_and_right, exists_or, exists_eq_left, hmount, false_or]
    -- Places below a mount offer only what the mount lets through.
    have hbelow : (∃ x ∈ inner.sites (above ++ [r]), x.Offers view m) → r.Open view true ∧ r.reports m := by
      rintro ⟨x, hx, -, ⟨-, hopen⟩, hreports⟩
      obtain ⟨more, hmore⟩ := above_of_mem_sites hx
      have hr : r ∈ x.above := by simp [hmore]
      exact ⟨hopen r hr, hreports r (List.mem_cons_of_mem _ hr)⟩
    rw [allowed]
    by_cases hc : r.buildOnly = true ∨ (r.check view true).isNone = true
    · rw [if_pos hc, ihRest out ha]
      have hno : ¬ ∃ x ∈ inner.sites (above ++ [r]), x.Offers view m := fun h => (hbelow h).1 hc
      simp only [hno, false_or]
    · rw [if_neg hc]
      have habove (hrep : r.reports m) : ∀ x ∈ above ++ [r], x.Open view true ∧ x.reports m := by
        intro x hx
        rcases List.mem_append.mp hx with hx | hx
        · exact ha x hx
        · rw [List.mem_singleton.mp hx]
          exact ⟨hc, hrep⟩
      have hinner (hrep : r.reports m) := ihInner [] (habove hrep)
      rcases hn : allowed view inner [] with ⟨nested, any⟩
      simp only [hn, List.not_mem_nil, false_or] at hinner
      cases hm : r.methods? with
      | none =>
        have hrest := ihRest (addMethods out nested) ha
        rw [mem_addMethods] at hrest
        have hrep : r.reports m := by simp [Route.reports, hm]
        rw [← hinner hrep]
        simp only [Bool.or_eq_true]
        rw [or_left_comm, hrest]
        simp only [or_assoc, or_comm, or_left_comm]
      | some own =>
        have hrep : r.reports m ↔ m ∈ own := by simp [Route.reports, hm]
        simp only [ihRest _ ha, mem_addMethods, or_assoc]
        by_cases hown : m ∈ own
        · rw [← hinner (hrep.mpr hown)]
          cases any <;> simp [hown]
        · have hno : ¬ ∃ x ∈ inner.sites (above ++ [r]), x.Offers view m :=
            fun h => hown (hrep.mp (hbelow h).2)
          cases any <;> simp [hown, hno]

theorem isFinal_of_ends {e : Entry H} (h : e.ends view = true) (es : List (Entry H)) (mismatch : Bool)
    (w : Wraps H) : (resolve settings view (ofEntries (e :: es)) mismatch w).1.isFinal = true := by
  obtain ⟨r, _ | sub⟩ := e
  · exact RouteMatch.isFinal_of_outcome (resolve_leaf_of_admits h)
  · obtain ⟨hadm, hfinal⟩ : r.admits view true = true ∧ _ := by
      simpa only [Entry.ends, Bool.and_eq_true] using h
    rw [ofEntries, resolve_mount_of_admits hadm]
    rcases hres : resolve sub.settings view sub.routes false w with ⟨⟨route, handler, vars⟩ | ⟨e, _ | g⟩, w₁⟩
    · exact RouteMatch.isFinal_of_outcome (settings.outcome_finish route handler vars w₁)
    · rw [resolve_failed (by rw [hres]) .new] at hfinal
      cases hfinal
    · rfl

/-- If the scan ends with no route, the router fails with what the routes have left behind. -/
theorem resolve_eq_fail (h : ∀ e ∈ t.entries, e.ends view = false) (settings : Settings H) (w : Wraps H) :
    (resolve settings view t false w).1 = settings.fail (t.entries.any (·.misses view)) := by
  have hres := resolve_append_of_not_ends (s := settings) h [] false w
  rw [List.append_nil, ofEntries_entries, Bool.false_or, ofEntries, resolve] at hres
  rw [hres]

theorem isFinal_of_exists_ends (h : ∃ e ∈ t.entries, e.ends view = true) (settings : Settings H) (w : Wraps H) :
    (resolve settings view t false w).1.isFinal = true := by
  have hsome : (t.entries.find? (·.ends view)).isSome = true := List.find?_isSome.mpr h
  obtain ⟨x, hfind⟩ := Option.isSome_iff_exists.mp hsome
  obtain ⟨hends, before, after, hentries, hb⟩ := List.find?_eq_some_iff_append.mp hfind
  have hpending : ∀ b ∈ before, b.ends view = false := by simpa using hb
  have hres := resolve_append_of_not_ends (s := settings) hpending (x :: after) false w
  rw [← hentries, ofEntries_entries] at hres
  rw [hres]
  exact isFinal_of_ends hends after _ w

/-- If a place of a tree takes a request, the scan ends with one of the routes of the router. -/
theorem exists_ends_of_takes {above : List (Route H)} {s : Site H} (hs : s ∈ t.sites above)
    (h : s.takes view = true) : ∃ e ∈ t.entries, e.ends view = true := by
  induction t generalizing above with
  | nil => cases hs
  | leaf r rest ih =>
    rcases List.mem_cons.mp hs with rfl | hs
    · simp only [Site.takes, Bool.and_eq_true] at h
      exact ⟨⟨r, none⟩, List.mem_cons_self, h.2⟩
    · obtain ⟨e, he, hends⟩ := ih hs
      exact ⟨e, List.mem_cons_of_mem _ he, hends⟩
  | mount r below inner rest ihInner ihRest =>
    simp only [sites, List.mem_cons, List.mem_append] at hs
    rcases hs with rfl | hs | hs
    · simp [Site.takes] at h
    · have hadm : r.admits view true = true := by
        obtain ⟨more, hmore⟩ := above_of_mem_sites hs
        simp only [Site.takes, Site.reached, Bool.and_eq_true, List.all_eq_true] at h
        exact h.1.1 r (by simp [hmore])
      have hfinal := isFinal_of_exists_ends (ihInner hs) below .new
      exact ⟨⟨r, some ⟨below, inner⟩⟩, List.mem_cons_self, by simp [Entry.ends, hadm, hfinal]⟩
    · obtain ⟨e, he, hends⟩ := ihRest hs
      exact ⟨e, List.mem_cons_of_mem _ he, hends⟩

theorem any_misses (hno : ∀ e ∈ t.entries, e.ends view = false)
    (h : ∃ e ∈ t.entries, e.ends view = true ∨ e.misses view = true) :
    t.entries.any (·.misses view) = true := by
  obtain ⟨e, he, hor⟩ := h
  exact List.any_eq_true.mpr ⟨e, he, hor.resolve_left (by simp [hno e he])⟩

/-- If a place of a tree is open, the scan ends with one of the routes of the router or one of them leaves a wrong
method behind. -/
theorem exists_ends_or_misses {above : List (Route H)} {s : Site H} (hs : s ∈ t.sites above)
    (hleaf : s.isMount = false) (h : s.Open view) :
    ∃ e ∈ t.entries, e.ends view = true ∨ e.misses view = true := by
  induction t generalizing above with
  | nil => cases hs
  | leaf r rest ih =>
    rcases List.mem_cons.mp hs with rfl | hs
    · exact ⟨⟨r, none⟩, List.mem_cons_self, Route.open_iff.mp h.1⟩
    · obtain ⟨e, he, hor⟩ := ih hs
      exact ⟨e, List.mem_cons_of_mem _ he, hor⟩
  | mount r below inner rest ihInner ihRest =>
    simp only [sites, List.mem_cons, List.mem_append] at hs
    rcases hs with rfl | hs | hs
    · cases hleaf
    · refine ⟨⟨r, some ⟨below, inner⟩⟩, List.mem_cons_self, ?_⟩
      obtain ⟨more, hmore⟩ := above_of_mem_sites hs
      rcases Route.open_iff.mp (h.2 r (by simp [hmore])) with hadm | hmiss
      · obtain ⟨e, he, hor⟩ := ihInner hs
        by_cases hends : ∃ e ∈ inner.entries, e.ends view = true
        · have hfinal := isFinal_of_exists_ends hends below .new
          exact .inl (by simp [Entry.ends, hadm, hfinal])
        · have hno : ∀ e ∈ inner.entries, e.ends view = false := by simpa using hends
          have hfail := resolve_eq_fail hno below .new
          rw [any_misses hno ⟨e, he, hor⟩] at hfail
          exact .inr (by simp [Entry.misses, hadm, hfail])
      · exact .inr (by simp [Entry.misses, hmiss])
    · obtain ⟨e, he, hor⟩ := ihRest hs
      exact ⟨e, List.mem_cons_of_mem _ he, hor⟩

end Tree

namespace Router

variable {r : Router H} {req : Request} {w : Wraps H}

theorem exists_offers_of_mem_allowedMethods (h : m ∈ r.allowedMethods req) :
    ∃ s ∈ r.sites, s.Offers (.of req) m := by
  have hnone : ∀ x ∈ ([] : List (Route H)), x.Open (.of req) true ∧ x.reports m :=
    fun _ hx => absurd hx List.not_mem_nil
  have hiff := r.routes.mem_allowed_or_any_iff_offers (.of req) m [] hnone
  exact (hiff.mp (.inl h)).resolve_left List.not_mem_nil

theorem not_receives_of_methodsUnanswered (h : r.routes.MethodsUnanswered) (g : H) :
    ¬ r.Receives req w .methodMismatch g := by
  rintro ⟨below, ⟨before, mount, after, hat⟩, hbelow⟩
  -- The handlers of the router itself do not matter for what it receives.
  let bare : Router H := ⟨{ r.settings with methodNotAllowed := none }, r.routes⟩
  have hhands : bare.Hands (.of req) below := ⟨before, mount, after, hat.entries, hat.admits, hat.pending⟩
  have hres := hhands.dispatch_failed hbelow w
  have hnone : some g = none := h.fallback_eq (congrArg Prod.fst hres)
  cases hnone

/-- If some place is open, a failure is a wrong method, or it is answered below a mount. -/
theorem outcome_of_open {s : Site H} (hs : s ∈ r.sites) (hleaf : s.isMount = false) (hopen : s.Open (.of req))
    {e : MatchError} (h : (r.dispatch req w).1.outcome = .error e) :
    e = .methodMismatch ∨ ∃ g, r.Receives req w e g := by
  rcases hres : (r.dispatch req w).1 with _ | ⟨e', fallback⟩
  · rw [hres] at h
    cases h
  · obtain rfl : e' = e := by simpa [hres] using h
    rcases r.dispatch_failed_cases hres with ⟨-, hno⟩ | ⟨below, g, hhands, hbelow, -⟩
    · have hmisses := Tree.any_misses hno (Tree.exists_ends_or_misses hs hleaf hopen)
      rw [dispatch, Tree.resolve_eq_fail hno, hmisses] at hres
      exact .inl (RouteMatch.failed.inj hres).1.symm
    · exact .inr ⟨g, below, hhands, hbelow⟩

/-- A wrong method that is not answered below a mount means that no place takes the request and that no other
failure is answered there. -/
theorem not_takes_of_methodMismatch (h : (r.dispatch req w).1.outcome = .error .methodMismatch)
    (hno : ∀ g, ¬ r.Receives req w .methodMismatch g) :
    (∀ g, ¬ r.Receives req w .notFound g) ∧ ∀ s ∈ r.sites, s.takes (.of req) = false := by
  rcases hres : (r.dispatch req w).1 with _ | ⟨e, fallback⟩
  · rw [hres] at h
    cases h
  · obtain rfl : e = .methodMismatch := by simpa [hres] using h
    rcases r.dispatch_failed_cases hres with ⟨-, hpending⟩ | ⟨below, g, hhands, hbelow, -⟩
    · refine ⟨fun g ⟨below, hhands, hbelow⟩ => hhands.not_pending hbelow hpending, fun s hs => ?_⟩
      by_contra htakes
      obtain ⟨x, hx, hends⟩ := Tree.exists_ends_of_takes hs (by simpa using htakes)
      rw [hpending x hx] at hends
      cases hends
    · exact absurd ⟨below, hhands, hbelow⟩ (hno g)

theorem mem_flatten_of_mem_sites {s : Site H} (hs : s ∈ r.sites) :
    s.route ∈ r.routes.flatten ∧ ∀ x ∈ s.above, x ∈ r.routes.flatten := by
  have hroute : ∀ s ∈ r.sites, s.route ∈ r.routes.flatten := by
    intro s hs
    rw [← r.routes.sites_route []]
    exact List.mem_map_of_mem hs
  refine ⟨hroute s hs, fun x hx => ?_⟩
  obtain ⟨m, hm, -, rfl⟩ := mount_of_mem_above hs hx
  exact hroute m hm

theorem standard_of_mem_sites (h : ∀ x ∈ r.routes.flatten, x.Standard) {s : Site H} (hs : s ∈ r.sites) :
    s.route.Standard ∧ ∀ x ∈ s.above, x.Standard :=
  ⟨h _ (mem_flatten_of_mem_sites hs).1, fun x hx => h x ((mem_flatten_of_mem_sites hs).2 x hx)⟩

theorem methodMismatch_iff_of_offers (hstd : ∀ x ∈ r.routes.flatten, x.Standard) {site : Site H}
    (hmem : site ∈ r.sites) (hoffers : site.Offers (.of req) m) :
    (r.dispatch { req with method := m } w).1.outcome = .error .methodMismatch ↔
      (∃ g, r.Receives { req with method := m } w .methodMismatch g) ∨
        (∀ g, ¬ r.Receives { req with method := m } w .notFound g) ∧
          ∀ s ∈ r.sites, s.Offers (.of req) m → s.Excludes m := by
  have htakes (s : Site H) (hs : s ∈ r.sites) :
      s.takes (.of { req with method := m }) = true ↔ s.Offers (.of req) m ∧ ¬ s.Excludes m := by
    obtain ⟨hroute, habove⟩ := standard_of_mem_sites hstd hs
    rw [View.of_method, Site.takes_withMethod_iff hroute habove]
  have hopen : site.Open (.of { req with method := m }) := by
    obtain ⟨hroute, habove⟩ := standard_of_mem_sites hstd hmem
    rw [View.of_method, Site.open_withMethod hroute habove]
    exact hoffers.2.1
  constructor
  · intro h
    by_cases hreceives : ∃ g, r.Receives { req with method := m } w .methodMismatch g
    · exact .inl hreceives
    · obtain ⟨hunanswered, hno⟩ := not_takes_of_methodMismatch h (not_exists.mp hreceives)
      refine .inr ⟨hunanswered, fun s hs hoffered => ?_⟩
      by_contra hexcludes
      have ht := (htakes s hs).mpr ⟨hoffered, hexcludes⟩
      rw [hno s hs] at ht
      cases ht
  · rintro (⟨g, below, hhands, hbelow⟩ | ⟨hunanswered, hexcludes⟩)
    · rw [hhands.dispatch_failed hbelow]
      rfl
    · cases hout : (r.dispatch { req with method := m } w).1.outcome with
      | ok route =>
        obtain ⟨s, hfind, -⟩ := find?_of_outcome hout
        have hs := List.mem_of_find?_eq_some hfind
        have ht := List.find?_some hfind
        obtain ⟨hoffered, hnot⟩ := (htakes s hs).mp ht
        exact absurd (hexcludes s hs hoffered) hnot
      | error e =>
        rcases outcome_of_open hmem hoffers.1 hopen hout with rfl | ⟨g, hg⟩
        · rfl
        · cases e with
          | notFound => exact absurd hg (hunanswered g)
          | methodMismatch => rfl

/-- A place whose lists do not differ offers no method that it excludes. -/
theorem not_excludes_of_offers (hsets : ∀ x ∈ r.routes.flatten, x.OneMethodSet) {s : Site H} (hs : s ∈ r.sites)
    (h : s.Offers (.of req) m) : ¬ s.Excludes m := by
  obtain ⟨hroute, habove⟩ := mem_flatten_of_mem_sites hs
  rintro ⟨x, hx, hnot⟩
  have hset : x.OneMethodSet := by
    rcases List.mem_cons.mp hx with rfl | hup
    · exact hsets _ hroute
    · exact hsets x (habove x hup)
  exact hnot (hset.allowsMethod (h.2.2 x hx))

/-- A request for a method that is listed as allowed. Without conditions of the caller's own it fails on its
method exactly if a router below a mount answers it as such a failure, or if no failure is answered below a mount
and every place that has the method listed excludes it with a further list. If no route has lists that differ, a
router below a mount must have answered, and without handlers there for a wrong method the request does not fail
on its method. -/
theorem retry_allowed (r : Router H) (hstd : ∀ x ∈ r.routes.flatten, x.Standard) (req : Request) (m : Method)
    (hm : m ∈ r.allowedMethods req) (w : Wraps H) :
    ((r.dispatch { req with method := m } w).1.outcome = .error .methodMismatch ↔
      (∃ g, r.Receives { req with method := m } w .methodMismatch g) ∨
        (∀ g, ¬ r.Receives { req with method := m } w .notFound g) ∧
          ∀ s ∈ r.sites, s.Offers (.of req) m → s.Excludes m) ∧
    ((∀ x ∈ r.routes.flatten, x.OneMethodSet) →
      ((r.dispatch { req with method := m } w).1.outcome = .error .methodMismatch ↔
        ∃ g, r.Receives { req with method := m } w .methodMismatch g) ∧
      (r.routes.MethodsUnanswered →
        (r.dispatch { req with method := m } w).1.outcome ≠ .error .methodMismatch)) := by
  obtain ⟨site, hmem, hoffers⟩ := exists_offers_of_mem_allowedMethods hm
  have hiff := methodMismatch_iff_of_offers (w := w) hstd hmem hoffers
  refine ⟨hiff, fun hsets => ?_⟩
  have hnot := not_excludes_of_offers hsets hmem hoffers
  have hreceives : (r.dispatch { req with method := m } w).1.outcome = .error .methodMismatch ↔
      ∃ g, r.Receives { req with method := m } w .methodMismatch g := by
    rw [hiff, or_iff_left]
    exact fun ⟨_, hexcludes⟩ => hnot (hexcludes site hmem hoffers)
  refine ⟨hreceives, fun hunanswered hout => ?_⟩
  obtain ⟨g, hg⟩ := hreceives.mp hout
  exact not_receives_of_methodsUnanswered hunanswered g hg

/-- A route with two lists of the same methods, below a mount whose router answers what is not found, and a route
after it for another method. -/
theorem retry_allowed_below_mount :
    let inner : Route Nat :=
      { Route.new .root 1 with matchers := [.methods [⟨"GET"⟩, ⟨"PUT"⟩], .methods [⟨"PUT"⟩, ⟨"GET"⟩]] }
    let last : Route Nat := { Route.new .root 2 with matchers := [.methods [⟨"POST"⟩]] }
    let r : Router Nat := ⟨.new 0 .root,
      .mount (.new .root 0) { Settings.new 1 .root with notFound := some 7 } (.leaf inner .nil) (.leaf last .nil)⟩
    let req : Request := .new ⟨"DELETE"⟩ ⟨none, none, "/", none⟩ [] none
    (r.dispatch req .new).1.outcome = .error .methodMismatch ∧
      r.allowedMethods req = [⟨"GET"⟩, ⟨"PUT"⟩, ⟨"POST"⟩] ∧
      ∀ m ∈ r.allowedMethods req, (r.dispatch { req with method := m } .new).1.outcome ≠ .error .methodMismatch := by
  intro inner last r req
  have hlist (ms : List Method) : Matcher.Standard (.methods ms) := trivial
  have hroutes : ∀ x ∈ r.routes.flatten, x = .new .root 0 ∨ x = inner ∨ x = last := by
    simp [r, Tree.flatten]
  have hstd : ∀ x ∈ r.routes.flatten, x.Standard := by
    intro x hx
    rcases hroutes x hx with rfl | rfl | rfl <;> simp [Route.Standard, Route.new, inner, last, hlist]
  have hsets : ∀ x ∈ r.routes.flatten, x.OneMethodSet := by
    intro x hx
    rcases hroutes x hx with rfl | rfl | rfl <;>
      simp [Route.OneMethodSet, Route.new, inner, last, Matcher.methods?]
  have hunanswered : r.routes.MethodsUnanswered := ⟨rfl, trivial, trivial⟩
  exact ⟨rfl, rfl, fun m hm => ((retry_allowed r hstd req m hm .new).2 hsets).2 hunanswered⟩

/-- Ways in which a method that is listed as allowed gives a wrong method again: the lists of a route have no
method in common, or a router below a mount answers before the route for the method is tried. -/
theorem retry_allowed_mismatch :
    let both : Route Nat := { Route.new .root 0 with matchers := [.methods [⟨"GET"⟩], .methods [⟨"POST"⟩]] }
    let get : Route Nat := { Route.new .root 1 with matchers := [.methods [⟨"GET"⟩]] }
    let post : Route Nat := { Route.new .root 2 with matchers := [.methods [⟨"POST"⟩]] }
    let differing : Router Nat := ⟨.new 0 .root, .leaf both .nil⟩
    let answering : Router Nat := ⟨.new 0 .root,
      .mount (.new .root 0) { Settings.new 1 .root with methodNotAllowed := some 7 } (.leaf get .nil)
        (.leaf post .nil)⟩
    let req : Request := .new ⟨"DELETE"⟩ ⟨none, none, "/", none⟩ [] none
    ((differing.dispatch req .new).1.outcome = .error .methodMismatch ∧
      ⟨"GET"⟩ ∈ differing.allowedMethods req ∧
      (differing.dispatch { req with method := ⟨"GET"⟩ } .new).1.outcome = .error .methodMismatch) ∧
    (answering.dispatch req .new).1.outcome = .error .methodMismatch ∧
      ⟨"POST"⟩ ∈ answering.allowedMethods req ∧
      (answering.dispatch { req with method := ⟨"POST"⟩ } .new).1.outcome = .error .methodMismatch := by
  intro both get post differing answering req
  have hdiffering : differing.allowedMethods req = [⟨"GET"⟩, ⟨"POST"⟩] := rfl
  have hanswering : answering.allowedMethods req = [⟨"GET"⟩, ⟨"POST"⟩] := rfl
  exact ⟨⟨rfl, by simp [hdiffering], rfl⟩, rfl, by simp [hanswering], rfl⟩

end Router

end RequestRouter
