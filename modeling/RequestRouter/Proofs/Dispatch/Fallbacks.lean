import Mathlib.Logic.Relation
import RequestRouter.Proofs.Dispatch.Site
/-!
Failures that end a scan. A router below a mount may answer its own failure with a handler; such a failure
is final for all routers that come to ask it, and every other failure leaves at most a wrong method behind.
-/
namespace RequestRouter

open RequestRouter.Http Relation

variable {H : Type}

/-- Whether a result ends the scan of the router above: a match, or a failure with a handler. -/
def RouteMatch.isFinal : RouteMatch H → Bool
  | matched .. => true
  | failed _ fallback => fallback.isSome

namespace Settings

/-- The handler of a router for a failure. -/
def fallback (s : Settings H) : MatchError → Option H
  | .notFound => s.notFound
  | .methodMismatch => s.methodNotAllowed

theorem fail_eq (s : Settings H) (mismatch : Bool) :
    ∃ e, s.fail mismatch = .failed e (s.fallback e) := by
  cases mismatch
  · exact ⟨.notFound, rfl⟩
  · exact ⟨.methodMismatch, rfl⟩

end Settings

namespace Tree

variable {view : View} {mismatch : Bool} {w : Wraps H}

/-- The tree with the given routes in order. -/
def ofEntries : List (Entry H) → Tree H
  | [] => nil
  | ⟨r, none⟩ :: es => leaf r (ofEntries es)
  | ⟨r, some sub⟩ :: es => mount r sub.settings sub.routes (ofEntries es)

theorem ofEntries_entries (t : Tree H) : ofEntries t.entries = t := by
  induction t with
  | nil => rfl
  | leaf r rest ih => simp [entries, ofEntries, ih]
  | mount r s inner rest _ ih => simp [entries, ofEntries, ih]

theorem eq_of_entries {t t' : Tree H} (h : t.entries = t'.entries) : t = t' := by
  rw [← ofEntries_entries t, h, ofEntries_entries]

theorem entries_push (t : Tree H) (entry : Entry H) : (t.push entry).entries = t.entries ++ [entry] := by
  induction t with
  | nil => rcases entry with ⟨r, _ | sub⟩ <;> rfl
  | leaf r rest ih => simp [push, entries, ih]
  | mount r s inner rest _ ih => simp [push, entries, ih]

/-- A failure does not depend on the handlers wrapped so far, and leaves them as they are. -/
theorem resolve_failed {t : Tree H} {s : Settings H} {e : MatchError} {fallback : Option H}
    (h : (resolve s view t mismatch w).1 = .failed e fallback) (w' : Wraps H) :
    resolve s view t mismatch w' = (.failed e fallback, w') := by
  induction t generalizing s mismatch w w' e fallback with
  | nil =>
    have hf : s.fail mismatch = .failed e fallback := h
    simp [resolve, hf]
  | leaf r rest ih =>
    by_cases hadm : r.admits view false
    · have ho : (resolve s view (leaf r rest) mismatch w).1.outcome = .ok r :=
        resolve_leaf_of_admits hadm
      simp [h] at ho
    · rw [resolve_leaf_of_not_admits (by simpa using hadm)] at h ⊢
      exact ih h w'
  | mount r below inner rest ihInner ihRest =>
    by_cases hadm : r.admits view true
    · rw [resolve_mount_of_admits hadm] at h ⊢
      rcases hres : resolve below view inner false w with ⟨⟨route, handler, vars⟩ | ⟨e', f⟩, w₁⟩
      · have ho := s.outcome_finish route handler vars w₁
        simp_all
      · have hinner := ihInner (by rw [hres]) w'
        rw [hres] at h
        rw [hinner]
        cases f with
        | some f =>
          obtain ⟨rfl, rfl⟩ := RouteMatch.failed.inj h
          rfl
        | none => exact ihRest h w'
    · rw [resolve_mount_of_not_admits (by simpa using hadm)] at h ⊢
      exact ihRest h w'

end Tree

namespace Entry

variable {view : View}

/-- Whether the scan of a router ends with this route: the route takes the request, or the router below it
takes it or answers its failure. -/
def ends (e : Entry H) (view : View) : Bool :=
  match e.sub with
  | none => e.route.admits view false
  | some sub => e.route.admits view true && (sub.routes.resolve sub.settings view false .new).1.isFinal

/-- Whether a route with which the scan does not end leaves a wrong method behind. -/
def misses (e : Entry H) (view : View) : Bool :=
  match e.sub with
  | none => e.route.missesMethod view false
  | some sub => e.route.missesMethod view true || e.route.admits view true &&
      (sub.routes.resolve sub.settings view false .new).1.outcome matches .error .methodMismatch

end Entry

namespace Tree

variable {view : View} {s : Settings H}

theorem resolve_cons_of_not_ends {e : Entry H} (h : e.ends view = false) (es : List (Entry H))
    (mismatch : Bool) (w : Wraps H) :
    resolve s view (ofEntries (e :: es)) mismatch w =
      resolve s view (ofEntries es) (mismatch || e.misses view) w := by
  obtain ⟨r, _ | sub⟩ := e
  · exact resolve_leaf_of_not_admits h
  · by_cases hadm : r.admits view true
    · have hmiss := Route.missesMethod_of_admits hadm
      simp only [Entry.ends, hadm, Bool.true_and] at h
      rcases hres : (sub.routes.resolve sub.settings view false .new).1 with _ | ⟨e, _ | f⟩
      · simp [hres, RouteMatch.isFinal] at h
      · rw [ofEntries, resolve_mount_of_admits hadm, resolve_failed hres w]
        cases e <;> simp [Entry.misses, hadm, hmiss, hres]
      · simp [hres, RouteMatch.isFinal] at h
    · rw [ofEntries, resolve_mount_of_not_admits (by simpa using hadm)]
      simp [Entry.misses, hadm]

theorem resolve_append_of_not_ends {before : List (Entry H)} (h : ∀ b ∈ before, b.ends view = false)
    (es : List (Entry H)) (mismatch : Bool) (w : Wraps H) :
    resolve s view (ofEntries (before ++ es)) mismatch w =
      resolve s view (ofEntries es) (mismatch || before.any (·.misses view)) w := by
  induction before generalizing mismatch with
  | nil => simp
  | cons b before ih =>
    rw [List.cons_append, resolve_cons_of_not_ends (h b (by simp)), ih fun c hc => h c (by simp [hc])]
    simp [Bool.or_assoc]

end Tree

namespace Router

variable {req : Request} {w : Wraps H}

/-- The scan of a router comes to a mount and hands the request to the router below it: the mount accepts the
request, and the scan does not end with a route before it. -/
structure HandsAt (view : View) (r : Router H) (before : List (Entry H)) (mount : Route H) (sub : Router H)
    (after : List (Entry H)) : Prop where
  entries : r.routes.entries = before ++ ⟨mount, some sub⟩ :: after
  admits : mount.admits view true = true
  pending : ∀ b ∈ before, b.ends view = false

/-- The router hands the request to `sub` at one of its mounts. -/
def Hands (view : View) (r sub : Router H) : Prop :=
  ∃ before mount after, r.HandsAt view before mount sub after

theorem HandsAt.dispatch {r sub : Router H} {before after : List (Entry H)} {mount : Route H}
    (h : r.HandsAt (.of req) before mount sub after) (w : Wraps H) :
    r.dispatch req w =
      Tree.resolve r.settings (.of req) (.ofEntries (⟨mount, some sub⟩ :: after))
        (before.any (·.misses (.of req))) w := by
  have ht := Tree.ofEntries_entries r.routes
  rw [Router.dispatch, ← ht, h.entries, Tree.resolve_append_of_not_ends h.pending, Bool.false_or]

theorem Hands.dispatch_failed {r sub : Router H} (h : r.Hands (.of req) sub) {e : MatchError} {g : H}
    (hsub : (sub.dispatch req w).1 = .failed e (some g)) (w' : Wraps H) :
    r.dispatch req w' = (.failed e (some g), w') := by
  obtain ⟨before, mount, after, hat⟩ := h
  have hres : sub.routes.resolve sub.settings (.of req) false w' = (.failed e (some g), w') :=
    Tree.resolve_failed hsub w'
  rw [hat.dispatch, Tree.ofEntries, Tree.resolve_mount_of_admits hat.admits, hres]

theorem HandsAt.dispatch_unanswered {r sub : Router H} {before after : List (Entry H)} {mount : Route H}
    (h : r.HandsAt (.of req) before mount sub after) {e : MatchError}
    (hsub : (sub.dispatch req w).1 = .failed e none) (w' : Wraps H) :
    r.dispatch req w' =
      Tree.resolve r.settings (.of req) (.ofEntries after)
        (before.any (·.misses (.of req)) || decide (e = .methodMismatch)) w' := by
  have hres : sub.routes.resolve sub.settings (.of req) false w' = (.failed e none, w') :=
    Tree.resolve_failed hsub w'
  rw [h.dispatch, Tree.ofEntries, Tree.resolve_mount_of_admits h.admits, hres]

theorem Hands.addAll {view : View} {r sub : Router H} (h : r.Hands view sub) (later : List (Entry H)) :
    (later.foldl add r).Hands view sub := by
  induction later generalizing r with
  | nil => exact h
  | cons entry later ih =>
    obtain ⟨before, mount, after, hat⟩ := h
    refine ih ⟨before, mount, after ++ [entry], ?_, hat.admits, hat.pending⟩
    simp [add, Tree.entries_push, hat.entries]

theorem dispatch_failed_of_transGen {top sub : Router H} (h : TransGen (Hands (.of req)) top sub)
    {e : MatchError} {g : H} (hsub : (sub.dispatch req w).1 = .failed e (some g)) (w' : Wraps H) :
    top.dispatch req w' = (.failed e (some g), w') := by
  induction h using TransGen.head_induction_on generalizing w' with
  | single h => exact h.dispatch_failed hsub w'
  | head h _ ih => exact h.dispatch_failed (by rw [ih w]) w'

/-- A router that hands a request down and gets an answered failure back has not come through its routes. -/
theorem Hands.not_pending {r sub : Router H} (h : r.Hands (.of req) sub) {e : MatchError} {g : H}
    (hsub : (sub.dispatch req w).1 = .failed e (some g)) :
    ¬ ∀ x ∈ r.routes.entries, x.ends (.of req) = false := by
  obtain ⟨before, mount, after, hat⟩ := h
  have hres : sub.routes.resolve sub.settings (.of req) false .new = (.failed e (some g), .new) :=
    Tree.resolve_failed hsub .new
  intro hpending
  have := hpending ⟨mount, some sub⟩ (by simp [hat.entries])
  simp [Entry.ends, hat.admits, hres, RouteMatch.isFinal] at this

/-- A failing router has come through all its routes, and the handler is its own, or it has the failure
with its handler from the router below one of its mounts. -/
theorem dispatch_failed_cases (r : Router H) {e : MatchError} {fallback : Option H}
    (h : (r.dispatch req w).1 = .failed e fallback) :
    (fallback = r.settings.fallback e ∧ ∀ x ∈ r.routes.entries, x.ends (.of req) = false) ∨
    ∃ sub g, r.Hands (.of req) sub ∧ (sub.dispatch req w).1 = .failed e (some g) ∧ fallback = some g := by
  have ht := Tree.ofEntries_entries r.routes
  cases hfind : r.routes.entries.find? (·.ends (.of req)) with
  | none =>
    have hno : ∀ x ∈ r.routes.entries, x.ends (.of req) = false := by
      simpa using hfind
    have hres := Tree.resolve_append_of_not_ends (s := r.settings) hno [] false w
    obtain ⟨e', hfail⟩ := r.settings.fail_eq (r.routes.entries.any (·.misses (.of req)))
    rw [List.append_nil, ht, Bool.false_or, Tree.ofEntries, Tree.resolve, hfail] at hres
    have heq : RouteMatch.failed e' (r.settings.fallback e') = .failed e fallback := by
      rw [← h, dispatch, hres]
    obtain ⟨rfl, rfl⟩ := RouteMatch.failed.inj heq
    exact .inl ⟨rfl, hno⟩
  | some x =>
    obtain ⟨hends, before, after, he, hb⟩ := List.find?_eq_some_iff_append.mp hfind
    have hpending : ∀ b ∈ before, b.ends (.of req) = false := by simpa using hb
    have hres := Tree.resolve_append_of_not_ends (s := r.settings) hpending (x :: after) false w
    rw [← he, ht, Bool.false_or] at hres
    rw [dispatch, hres] at h
    obtain ⟨route, _ | sub⟩ := x
    · have ho := congrArg RouteMatch.outcome h
      rw [Tree.ofEntries, Tree.resolve_leaf_of_admits hends] at ho
      cases ho
    · obtain ⟨hadm, hfinal⟩ : route.admits (.of req) true = true ∧ _ := by
        simpa only [Entry.ends, Bool.and_eq_true] using hends
      rw [Tree.ofEntries, Tree.resolve_mount_of_admits hadm] at h
      rcases hsub : sub.routes.resolve sub.settings (.of req) false w
        with ⟨⟨found, handler, vars⟩ | ⟨e', g⟩, w₁⟩
      · have ho := r.settings.outcome_finish found handler vars w₁
        rw [hsub] at h
        simp [h] at ho
      · cases g with
        | none =>
          rw [Tree.resolve_failed (by rw [hsub]) .new] at hfinal
          cases hfinal
        | some g =>
          rw [hsub] at h
          obtain ⟨rfl, rfl⟩ := RouteMatch.failed.inj h
          exact .inr ⟨sub, g, ⟨before, route, after, he, hadm, hpending⟩, by rw [dispatch, hsub], rfl⟩

/-- The router receives a failure with a handler from the router below one of its mounts. -/
def Receives (req : Request) (w : Wraps H) (r : Router H) (e : MatchError) (g : H) : Prop :=
  ∃ below, r.Hands (.of req) below ∧ (below.dispatch req w).1 = .failed e (some g)

/-- A failure of a router below a mount. Its handler is that of a failure received from further below or else
the router's own for this failure. With a handler the failure is that of all routers above that come to hand
the request down, whatever routes they get later; nothing is wrapped, and their own handlers do not count.
Without one the router above goes on with the route after the mount and remembers at most a wrong method. -/
theorem failure_answered_below (sub : Router H) (req : Request) (w : Wraps H) (e : MatchError)
    (hfail : (sub.dispatch req w).1.outcome = .error e) :
    (∀ g, (sub.dispatch req w).1 = .failed e (some g) ↔
      sub.Receives req w e g ∨ (∀ g', ¬ sub.Receives req w e g') ∧ sub.settings.fallback e = some g) ∧
    (∀ g, (sub.dispatch req w).1 = .failed e (some g) →
      ∀ top, TransGen (Hands (.of req)) top sub →
        ∀ (later : List (Entry H)) (w' : Wraps H),
          (later.foldl add top).dispatch req w' = (.failed e (some g), w')) ∧
    ((∀ g, ¬ sub.Receives req w e g) → sub.settings.fallback e = none →
      ∀ (r : Router H) (before : List (Entry H)) (mount : Route H) (after : List (Entry H)),
        r.HandsAt (.of req) before mount sub after → ∀ w', r.dispatch req w' =
          Tree.resolve r.settings (.of req) (.ofEntries after)
            (before.any (·.misses (.of req)) || decide (e = .methodMismatch)) w') := by
  obtain ⟨fallback, hres⟩ : ∃ fallback, (sub.dispatch req w).1 = .failed e fallback := by
    rcases hd : (sub.dispatch req w).1 with _ | ⟨e', fallback⟩
    · simp [hd] at hfail
    · obtain rfl : e' = e := by simpa [hd] using hfail
      exact ⟨fallback, rfl⟩
  have hcases := sub.dispatch_failed_cases hres
  refine ⟨fun g => ⟨fun hg => ?_, ?_⟩, fun g hg top htop later w' => ?_,
    fun hno hown r _ _ _ hat w' => ?_⟩
  · obtain ⟨-, rfl⟩ := RouteMatch.failed.inj (hres.symm.trans hg)
    rcases hcases with ⟨hown, hpending⟩ | ⟨below, g', hhands, hbelow, hg'⟩
    · exact .inr ⟨fun g' ⟨below, hhands, hbelow⟩ => hhands.not_pending hbelow hpending, hown.symm⟩
    · obtain rfl := Option.some.inj hg'
      exact .inl ⟨below, hhands, hbelow⟩
  · rintro (⟨below, hhands, hbelow⟩ | ⟨hno, hown⟩)
    · rw [hhands.dispatch_failed hbelow]
    · rcases hcases with ⟨hf, -⟩ | ⟨below, g', hhands, hbelow, -⟩
      · rw [hres, hf, hown]
      · exact absurd ⟨below, hhands, hbelow⟩ (hno g')
  · obtain ⟨mid, hhands, hmid⟩ := TransGen.head'_iff.mp htop
    exact dispatch_failed_of_transGen (.head' (hhands.addAll later) hmid) hg w'
  · rcases hcases with ⟨hf, -⟩ | ⟨below, g', hhands, hbelow, -⟩
    · exact hat.dispatch_unanswered (by rw [hres, hf, hown]) w'
    · exact absurd ⟨below, hhands, hbelow⟩ (hno g')

/-- The handler of the innermost router for a wrong method goes past a router with a handler for another
failure, and past a root with handlers, a middleware and a route that would take the request. -/
theorem failure_answered_below_two_levels :
    let post : Route Nat := { Route.new .root 2 with matchers := [.methods [⟨"POST"⟩]] }
    let inner : Router Nat := ⟨{ Settings.new 2 .root with methodNotAllowed := some 4 }, .leaf post .nil⟩
    let mid : Router Nat :=
      ⟨{ Settings.new 1 .root with notFound := some 3 },
        .mount (.new .root 1) inner.settings inner.routes .nil⟩
    let last : Route Nat := { (.new .root 3 : Route Nat) with handler := some 5 }
    let top : Router Nat :=
      ⟨⟨0, .root, [⟨"add", (· + 100)⟩], some 1, some 2⟩,
        .mount (.new .root 0) mid.settings mid.routes (.leaf last .nil)⟩
    let req : Request := .new .get ⟨none, none, "/", none⟩ [] none
    (inner.dispatch req .new).1.outcome = .error .methodMismatch ∧
      top.dispatch req .new = (.failed .methodMismatch (some 4), .new) := by
  intro post inner mid last top req
  have hfail : (inner.dispatch req .new).1.outcome = .error .methodMismatch := rfl
  have hmid : mid.Hands (.of req) inner := ⟨[], .new .root 1, [], rfl, rfl, by simp⟩
  have htop : top.Hands (.of req) mid := ⟨[], .new .root 0, [⟨last, none⟩], rfl, rfl, by simp⟩
  exact ⟨hfail, (failure_answered_below inner req .new .methodMismatch hfail).2.1 4 rfl top
    (.head htop (.single hmid)) [] .new⟩

end Router

end RequestRouter
