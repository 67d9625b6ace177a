import RequestRouter.Proofs.Dispatch.FlatScan
import RequestRouter.Proofs.Table.Regular
/-!
The list of allowed methods is exact: a request would be accepted with the methods of the list and, unless
some route takes any method, with no others.
-/
namespace RequestRouter

open RequestRouter.Http

variable {H : Type}

namespace Tree

/-- Whether some place of a tree takes a request, given that the mounts above do. -/
def accepts (view : View) : Tree H → Prop
  | nil => False
  | leaf r rest => r.admits view false = true ∨ rest.accepts view
  | mount r _ inner rest => (r.admits view true = true ∧ inner.accepts view) ∨ rest.accepts view

theorem exists_takes_iff (t : Tree H) (view : View) {above : List (Route H)}
    (ha : above.all (·.admits view true) = true) :
    (∃ s ∈ t.sites above, s.takes view = true) ↔ t.accepts view := by
  induction t generalizing above with
  | nil => simp [sites, accepts]
  | leaf r rest ih =>
    have htakes : Site.takes ⟨r, false, above⟩ view = r.admits view false := by
      simp [Site.takes, Site.reached, ha]
    simp only [sites, accepts, List.mem_cons, or_and_right, exists_or, exists_eq_left, htakes, ih ha]
  | mount r s inner rest ihInner ihRest =>
    have hmount : Site.takes ⟨r, true, above⟩ view = false := by simp [Site.takes]
    simp only [sites, accepts, List.mem_cons, List.mem_append, or_and_right, exists_or, exists_eq_left,
      hmount, Bool.false_eq_true, false_or, ihRest ha]
    refine or_congr_left ?_
    by_cases hadm : r.admits view true
    · rw [ihInner (by simp [ha, hadm])]
      exact (and_iff_right hadm).symm
    · refine ⟨?_, fun h => absurd h.1 hadm⟩
      rintro ⟨s, hs, ht⟩
      have hr := reached_of_not_admits (by simpa using hadm) hs
      simp [Site.takes, hr] at ht

/-- The methods listed for the routes of a tree, after the ones in `out`, or the mark that a route takes any
method, cover exactly the methods with which the tree accepts the request. -/
theorem mem_allowed_or_any {t : Tree H} (ht : ∀ r ∈ t.flatten, r.Regular) (view : View) (m : Method)
    (out : List Method) :
    (m ∈ (t.allowed view out).1 ∨ (t.allowed view out).2 = true) ↔
      m ∈ out ∨ t.accepts (view.withMethod m) := by
  induction t generalizing out with
  | nil => simp [allowed, accepts]
  | leaf r rest ih =>
    have ihr := ih fun x hx => ht x (by simp [flatten, hx])
    have hadm := (ht r (by simp [flatten])).admits_withMethod view m false
    rw [accepts, hadm, allowed]
    by_cases hc : r.buildOnly = true ∨ (r.check view false).isNone = true
    · rw [if_pos hc, ihr]
      simp only [hc, not_true_eq_false, false_and, false_or]
    · rw [if_neg hc]
      simp only [hc, not_false_eq_true, true_and]
      cases hm : r.methods? with
      | none => simp [Route.reports, hm]
      | some ms => simp [Route.reports, hm, ihr, mem_addMethods, or_assoc]
  | mount r s inner rest ihInner ihRest =>
    have ihr := ihRest fun x hx => ht x (by simp [flatten, hx])
    have ihi := ihInner (fun x hx => ht x (by simp [flatten, hx])) []
    have hadm := (ht r (by simp [flatten])).admits_withMethod view m true
    rw [accepts, hadm, allowed]
    by_cases hc : r.buildOnly = true ∨ (r.check view true).isNone = true
    · rw [if_pos hc, ihr]
      simp only [hc, not_true_eq_false, false_and, false_or]
    · rw [if_neg hc]
      simp only [hc, not_false_eq_true, true_and]
      rcases hn : allowed view inner [] with ⟨nested, any⟩
      simp only [hn, List.not_mem_nil, false_or] at ihi
      cases hm : r.methods? with
      | none =>
        have hrest := ihr (addMethods out nested)
        rw [mem_addMethods] at hrest
        have hrep : r.reports m := by simp [Route.reports, hm]
        simp only [Bool.or_eq_true, hrep, true_and]
        rw [or_left_comm, hrest, ← ihi]
        simp only [or_assoc, or_comm, or_left_comm]
      | some own =>
        have hrep : r.reports m ↔ m ∈ own := by simp [Route.reports, hm]
        simp only [ihr, mem_addMethods, hrep, or_assoc, ← ihi]
        cases any <;> simp

theorem nodup_allowed (t : Tree H) (view : View) {out : List Method} (h : out.Nodup) :
    (t.allowed view out).1.Nodup := by
  induction t generalizing out with
  | nil => exact h
  | leaf r rest ih =>
    rw [allowed]
    split
    · exact ih h
    · split
      · exact ih (nodup_addMethods h _)
      · exact ih h
  | mount r s inner rest ihInner ihRest =>
    rw [allowed]
    split
    · exact ihRest h
    · obtain ⟨nested, any⟩ := allowed view inner []
      cases r.methods? <;> exact ihRest (nodup_addMethods h _)

end Tree

namespace Router

theorem exists_outcome_ok_iff {r : Router H} (h : r.routes.NoFallback) (req : Request) (w : Wraps H) :
    (∃ route, (r.dispatch req w).1.outcome = .ok route) ↔ r.routes.accepts (.of req) := by
  rw [← Tree.exists_takes_iff r.routes (.of req) List.all_nil, dispatch_outcome h]
  constructor
  · rintro ⟨route, ho⟩
    obtain ⟨before, s, after, he, -, ht, -⟩ := (Site.scan_eq_ok_iff _ _ _ _).mp ho
    have hs : s ∈ r.sites := by simp [he]
    exact ⟨s, hs, ht⟩
  · rintro ⟨s, hs, ht⟩
    cases hscan : Site.scan (.of req) false r.sites with
    | ok route => exact ⟨route, rfl⟩
    | error e =>
      have hno := ((Site.scan_eq_error_iff _ _ _ _).mp hscan).1 s hs
      simp [ht] at hno

/-- In a tree of regular routes whose inner routers do not answer failures, a request would be accepted with
the methods that are listed as allowed, each listed once, and with others only if a route takes any method.
Tables leave a tree such a tree. -/
theorem accepts_method_iff_allowed (r : Router H) (h : r.routes.Regular) (req : Request) :
    (∀ m w, (∃ route, (r.dispatch { req with method := m } w).1.outcome = .ok route) ↔
      m ∈ r.allowedMethods req ∨ (r.routes.allowed (.of req) []).2 = true) ∧
    (r.allowedMethods req).Nodup ∧
    ∀ (t : RouteTable) (resolve : String → Option H) (st : Setup),
      (t.install resolve r st).1.routes.Regular := by
  refine ⟨fun m w => ?_, Tree.nodup_allowed r.routes (.of req) List.nodup_nil, fun t resolve st => ?_⟩
  · have hallowed := Tree.mem_allowed_or_any h.route (.of req) m []
    rw [exists_outcome_ok_iff h.noFallback, View.of_method, allowedMethods, hallowed]
    simp
  · exact (Outline.install_regular h (Outline.installs_install resolve t.routes r st 0)).1

/-- A mount for two methods above a route for two methods lets the method through that both have. -/
theorem accepts_method_iff_allowed_mount :
    let outer : Route Nat := { Route.new .root 0 with matchers := [.methods [⟨"GET"⟩, ⟨"POST"⟩]] }
    let inner : Route Nat := { Route.new .root 1 with matchers := [.methods [⟨"PUT"⟩, ⟨"POST"⟩]] }
    let r : Router Nat := ⟨.new 0 .root, .mount outer (.new 1 .root) (.leaf inner .nil) .nil⟩
    let req : Request := .new .get ⟨none, none, "/", none⟩ [] none
    r.routes.Regular ∧ r.allowedMethods req = [⟨"POST"⟩] ∧
      ∃ route, (r.dispatch { req with method := ⟨"POST"⟩ } .new).1.outcome = .ok route := by
  intro outer inner r req
  have hlist (ms : List Method) : Matcher.Standard (.methods ms) := trivial
  have hroute : ∀ x ∈ r.routes.flatten, x.Regular := by
    intro x hx
    rcases (by simpa [r, Tree.flatten] using hx : x = outer ∨ x = inner) with rfl | rfl
    · exact ⟨by simp [outer, hlist], by decide⟩
    · exact ⟨by simp [inner, hlist], by decide⟩
  have h : r.routes.Regular := ⟨hroute, rfl, rfl, trivial, trivial⟩
  have hallowed : r.allowedMethods req = [⟨"POST"⟩] := rfl
  exact ⟨h, hallowed, ((accepts_method_iff_allowed r h req).1 ⟨"POST"⟩ .new).mpr (.inl (by simp [hallowed]))⟩

end Router

end RequestRouter
