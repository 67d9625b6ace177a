import RequestRouter.Proofs.Router.Names
import RequestRouter.Proofs.Router.Variables
/-!
Variables over the history of a tree. A router hands the templates of its mount down to its routes, as they were when
the router was created; each route then extends them by its own calls.
-/
namespace RequestRouter

open RequestRouter.Http

variable {H : Type}

/-- What calls have made of a route of a router with this scope. What is said about variables holds as long as no
call has failed. -/
structure Route.Placed (scope : Scope) (r : Route H) : Prop where
  same : r.scope.SameTemplates scope
  scopeValid : r.scope.Valid
  valid : r.innerScope.Valid
  configured : r.error = none → ∃ st, Configured (.new r.scope r.id) r st
  distinct : r.error = none → r.scope.varNames.Nodup → r.varNames.Nodup

namespace Route.Placed

variable {scope scope' : Scope} {r : Route H} {st : Setup}

theorem new (hvalid : scope.Valid) (id : RouteId) (hc : st.cache.Faithful) :
    (Route.new scope id : Route H).Placed scope where
  same := .rfl
  scopeValid := hvalid
  valid := ⟨⟨hvalid.host, hvalid.path⟩, hvalid.rooted, hvalid.queries, hvalid.buildScheme⟩
  configured := fun _ => ⟨st, .refl _ hc⟩
  distinct := fun _ h => h

theorem of_same (h : r.Placed scope) (hsame : scope.SameTemplates scope') : r.Placed scope' :=
  ⟨h.same.trans hsame, h.scopeValid, h.valid, h.configured, h.distinct⟩

theorem varNames_subset (h : r.Placed scope) (hr : r.error = none) : ∀ n ∈ scope.varNames, n ∈ r.varNames := by
  obtain ⟨st, hconfigured⟩ := h.configured hr
  rw [← h.same.varNames_eq]
  exact hconfigured.varNames_subset h.scopeValid

theorem nodup (h : r.Placed scope) (hr : r.error = none) (hscope : scope.varNames.Nodup) : r.varNames.Nodup := by
  rw [← h.same.varNames_eq] at hscope
  exact h.distinct hr hscope

/-- A call keeps all of that; after a failure nothing is left to show but that the templates are in order. -/
theorem apply (h : r.Placed scope) (hc : st.cache.Faithful) (c : Call H) : (c.apply r st).1.Placed scope := by
  by_cases hr : r.error.isSome = true
  · rw [Call.apply, if_pos hr]
    exact h
  · have hnone : r.error = none := Option.not_isSome_iff_eq_none.mp hr
    have hnamed := c.apply_named r st
    have hconfigured : (c.apply r st).1.error = none →
        Configured (.new r.scope r.id) (c.apply r st).1 (c.apply r st).2 := fun hok => by
      obtain ⟨st', hst'⟩ := h.configured hnone
      exact Call.apply_configured (hst'.of_eq rfl rfl rfl rfl hc) c hok
    have happly : c.apply r st = ({ (c.attempt r st).route with error := (c.attempt r st).fault },
        (c.attempt r st).setup) := by rw [Call.apply, if_neg hr]
    refine ⟨hnamed.scope ▸ h.same, hnamed.scope ▸ h.scopeValid, ?_, fun hok => ⟨(c.apply r st).2, ?_⟩,
      fun hok hscope => ?_⟩
    · rw [happly]
      exact (Call.attempt_valid h.scopeValid h.valid hc c).of_eq rfl rfl rfl rfl
    · rw [hnamed.scope, hnamed.id]
      exact hconfigured hok
    · rw [hnamed.scope] at hscope
      rw [happly] at hok ⊢
      exact Call.attempt_nodup (h.distinct hnone hscope) c hok

end Route.Placed

/-- What a mount has handed down to the router below it. Without calls that came too late it is what the mount still
has. -/
structure Route.HandsDown (late : RouteId → Prop) (mount : Route H) (scope : Scope) : Prop where
  distinct : mount.error = none → mount.scope.varNames.Nodup → scope.varNames.Nodup
  same : ¬ late mount.id → scope.SameTemplates mount.innerScope

namespace Route.HandsDown

variable {late : RouteId → Prop} {mount : Route H} {scope scope' : Scope} {st : Setup}

theorem innerScope {owner : Scope} (h : mount.Placed owner) : mount.HandsDown late mount.innerScope :=
  ⟨h.distinct, fun _ => .rfl⟩

theorem of_same (h : mount.HandsDown late scope) (hsame : scope'.SameTemplates scope) :
    mount.HandsDown late scope' where
  distinct := fun hr hm => hsame.varNames_eq ▸ h.distinct hr hm
  same := fun hlate => hsame.trans (h.same hlate)

theorem apply (h : mount.HandsDown late scope) (hlate : late mount.id) (c : Call H) :
    (c.apply mount st).1.HandsDown late scope := by
  have hnamed := c.apply_named mount st
  refine ⟨fun hok hm => h.distinct ?_ (hnamed.scope ▸ hm), fun hn => absurd (hnamed.id ▸ hlate) hn⟩
  by_contra hr
  rw [Call.apply, if_pos (Option.isSome_iff_ne_none.mpr hr)] at hok
  exact hr hok

end Route.HandsDown

namespace Router

/-- Every route below is placed in the scope of its router, and every router has its scope from its mount. -/
inductive Sound (late : RouteId → Prop) : Router H → Prop where
  | intro {r : Router H} (valid : r.settings.scope.Valid)
    (placed : ∀ e ∈ r.routes.entries, e.route.Placed r.settings.scope)
    (hands : ∀ e ∈ r.routes.entries, ∀ sub, e.sub = some sub → e.route.HandsDown late sub.settings.scope)
    (below : ∀ e ∈ r.routes.entries, ∀ sub, e.sub = some sub → Sound late sub) : Sound late r

variable {late : RouteId → Prop} {r : Router H}

theorem Sound.valid (h : r.Sound late) : r.settings.scope.Valid := by
  obtain ⟨hvalid, -, -, -⟩ := h
  exact hvalid

theorem Sound.of_settings (h : r.Sound late) {s : Settings H} (hvalid : s.scope.Valid)
    (hsame : s.scope.SameTemplates r.settings.scope) : (Router.mk s r.routes).Sound late := by
  obtain ⟨-, hplaced, hhands, hbelow⟩ := h
  exact ⟨hvalid, fun e he => (hplaced e he).of_same ⟨hsame.host.symm, hsame.path.symm, hsame.queries.symm⟩,
    hhands, hbelow⟩

theorem Sound.add (h : r.Sound late) {e : Entry H} (hplaced : e.route.Placed r.settings.scope)
    (hsub : ∀ sub, e.sub = some sub → e.route.HandsDown late sub.settings.scope ∧ sub.Sound late) :
    (r.add e).Sound late := by
  obtain ⟨hvalid, hallPlaced, hallHands, hallBelow⟩ := h
  have hentries : ∀ x ∈ (r.add e).routes.entries, x ∈ r.routes.entries ∨ x = e := fun x hx => by
    rwa [Router.add, Tree.entries_push, List.mem_append, List.mem_singleton] at hx
  refine ⟨hvalid, fun x hx => ?_, fun x hx sub hs => ?_, fun x hx sub hs => ?_⟩
  · rcases hentries x hx with hx | rfl
    · exact hallPlaced x hx
    · exact hplaced
  · rcases hentries x hx with hx | rfl
    · exact hallHands x hx sub hs
    · exact (hsub sub hs).1
  · rcases hentries x hx with hx | rfl
    · exact hallBelow x hx sub hs
    · exact (hsub sub hs).2

/-- Along a way on which no call has failed, names stay distinct, and without late calls every mount has handed all of
its variables down. -/
theorem Sound.exists_scope (h : r.Sound late) {way : List (Route H × Router H)} {e : Entry H} (hway : r.Leads way e)
    (hmounts : ∀ p ∈ way, p.1.error = none) (hscope : r.settings.scope.varNames.Nodup) :
    ∃ scope, e.route.Placed scope ∧ scope.varNames.Nodup ∧ ((∀ p ∈ way, ¬ late p.1.id) →
      (∀ n ∈ r.settings.scope.varNames, n ∈ scope.varNames) ∧
      ∀ p ∈ way, ∀ n ∈ p.1.varNames, n ∈ scope.varNames) := by
  induction hway with
  | here he =>
    obtain ⟨-, hplaced, -, -⟩ := h
    exact ⟨_, hplaced _ he, hscope, fun _ => ⟨fun _ hn => hn, List.forall_mem_nil _⟩⟩
  | @through r sub mount way e hmount hway ih =>
    obtain ⟨-, hplaced, hhands, hbelow⟩ := h
    have hmountPlaced := hplaced _ hmount
    have hmountHands := hhands _ hmount sub rfl
    rw [List.forall_mem_cons] at hmounts
    have hsub : sub.settings.scope.varNames.Nodup :=
      hmountHands.distinct hmounts.1 (hmountPlaced.same.varNames_eq ▸ hscope)
    obtain ⟨scope, hscopePlaced, hnodup, hall⟩ := ih (hbelow _ hmount sub rfl) hmounts.2 hsub
    refine ⟨scope, hscopePlaced, hnodup, fun hlate => ?_⟩
    rw [List.forall_mem_cons] at hlate
    obtain ⟨hdown, hway⟩ := hall hlate.2
    have hmountDown : ∀ n ∈ mount.varNames, n ∈ scope.varNames := fun n hn =>
      hdown n ((hmountHands.same hlate.1).varNames_eq ▸ hn)
    exact ⟨fun n hn => hmountDown n (hmountPlaced.varNames_subset hmounts.1 n hn),
      List.forall_mem_cons.mpr ⟨hmountDown, hway⟩⟩

end Router

namespace Session

variable {late : RouteId → Prop}

/-- The routers around, each with its mount, hand their scopes down to the router that is worked on, from a root that
has no templates. -/
def Chain (late : RouteId → Prop) : List (Router H × Route H) → Scope → Prop
  | [], scope => scope.SameTemplates .root
  | x :: outer, scope => x.1.Sound late ∧ x.2.Placed x.1.settings.scope ∧ x.2.HandsDown late scope ∧
      Chain late outer x.1.settings.scope

theorem Chain.of_same {outer : List (Router H × Route H)} {scope scope' : Scope} (h : Chain late outer scope)
    (hsame : scope'.SameTemplates scope) : Chain late outer scope' := by
  cases outer with
  | nil => exact hsame.trans h
  | cons x outer => exact ⟨h.1, h.2.1, h.2.2.1.of_same hsame, h.2.2.2⟩

/-- Every route of the tree is placed in the scope of its router, also the open one and the mounts of the work. -/
structure Inherits (late : RouteId → Prop) (s : Session H) : Prop where
  cache : s.setup.cache.Faithful
  outer : Chain late s.outer s.router.settings.scope
  router : s.router.Sound late
  placed : ∀ e, s.opened = some e → e.route.Placed s.router.settings.scope
  opened : ∀ e, s.opened = some e → ∀ sub, e.sub = some sub →
    e.route.HandsDown late sub.settings.scope ∧ sub.Sound late

namespace Inherits

variable {s : Session H}

theorem current (h : s.Inherits late) :
    s.current.Sound late ∧ s.current.settings.scope = s.router.settings.scope := by
  obtain ⟨outer, r, opened, st, w⟩ := s
  cases opened with
  | none => exact ⟨h.router, rfl⟩
  | some e => exact ⟨Router.Sound.add h.router (h.placed e rfl) (h.opened e rfl), rfl⟩

theorem root (h : s.Inherits late) : s.root.Sound late ∧ s.root.settings.scope.SameTemplates .root := by
  obtain ⟨hcurrent, hscope⟩ := h.current
  have hall := root_induction (P := fun outer r => Chain late outer r.settings.scope ∧ r.Sound late)
    (fun x outer r hx => ?_) ⟨hscope ▸ h.outer, hcurrent⟩
  · exact ⟨hall.2, hall.1⟩
  · obtain ⟨⟨hx, hplaced, hhands, hchain⟩, hr⟩ := hx
    refine ⟨hchain, hx.add hplaced fun sub hsub => ?_⟩
    cases hsub
    exact ⟨hhands, hr⟩

theorem close (h : s.Inherits late) : s.close.Inherits late where
  cache := h.cache
  outer := h.current.2 ▸ h.outer
  router := h.current.1
  placed := fun _ hopened => by cases hopened
  opened := fun _ hopened => by cases hopened

theorem of_settings (h : s.Inherits late) {t : Settings H} {wraps : Wraps H} (hvalid : t.scope.Valid)
    (hsame : t.scope.SameTemplates s.current.settings.scope) :
    Inherits late { s.close with router := { s.current with settings := t }, wraps } where
  cache := h.cache
  outer := h.close.outer.of_same hsame
  router := h.current.1.of_settings hvalid hsame
  placed := fun _ hopened => by cases hopened
  opened := fun _ hopened => by cases hopened

theorem set (h : s.Inherits late) (x : Setting H) : (s.move (.set x)).Inherits late := by
  have hvalid : s.current.settings.scope.Valid := h.current.1.valid
  refine h.of_settings (t := x.apply s.current.settings) ?_ ?_
  · cases x with
    | strictSlash | skipClean | useEncodedPath => exact hvalid.withFlags _ _ _
    | notFound | methodNotAllowed => exact hvalid
  · cases x <;> exact ⟨rfl, rfl, rfl⟩

theorem route (h : s.Inherits late) : (s.move .route).Inherits late where
  cache := h.cache
  outer := h.close.outer
  router := h.close.router
  placed := by
    rintro e he
    cases he
    exact .new h.current.1.valid _ h.cache
  opened := by
    rintro e he sub hsub
    cases he
    cases hsub

theorem call (h : s.Inherits late) (c : Call H) (hlate : ∀ id, s.CallsMount id (.call c) → late id) :
    (s.move (.call c)).Inherits late := by
  obtain ⟨outer, r, opened, st, w⟩ := s
  cases opened with
  | none => exact h
  | some e =>
    refine ⟨Call.apply_faithful h.cache c, h.outer, h.router, fun e' he => ?_, fun e' he sub hsub => ?_⟩
    · cases he
      exact (h.placed e rfl).apply h.cache c
    · cases he
      obtain ⟨hhands, hsound⟩ := h.opened e rfl sub hsub
      exact ⟨hhands.apply (hlate _ ⟨e, rfl, rfl, by rw [hsub]; rfl⟩) c, hsound⟩

theorem enter (h : s.Inherits late) : (s.move .enter).Inherits late := by
  obtain ⟨outer, r, opened, st, w⟩ := s
  cases opened with
  | none => exact h
  | some e =>
    obtain ⟨mount, sub⟩ := e
    have hplaced := h.placed _ rfl
    cases sub with
    | none =>
      refine ⟨h.cache, ⟨h.router, hplaced, .innerScope hplaced, h.outer⟩, ?_, ?_, ?_⟩
      · exact ⟨hplaced.valid, List.forall_mem_nil _, List.forall_mem_nil _, List.forall_mem_nil _⟩
      · exact fun _ hopened => by cases hopened
      · exact fun _ hopened => by cases hopened
    | some sub =>
      obtain ⟨hhands, hsound⟩ := h.opened _ rfl sub rfl
      refine ⟨h.cache, ⟨h.router, hplaced, hhands, h.outer⟩, hsound, ?_, ?_⟩
      · exact fun _ hopened => by cases hopened
      · exact fun _ hopened => by cases hopened

theorem leave (h : s.Inherits late) : (s.move .leave).Inherits late := by
  obtain ⟨outer, r, opened, st, w⟩ := s
  cases outer with
  | nil => exact h.close
  | cons x outer =>
    obtain ⟨hrouter, hplaced, hhands, hchain⟩ := h.outer
    refine ⟨h.cache, hchain, hrouter, fun e he => ?_, fun e he sub hsub => ?_⟩
    · cases he
      exact hplaced
    · cases he
      cases hsub
      exact ⟨h.current.2 ▸ hhands, h.current.1⟩

theorem elsewhere (h : s.Inherits late) (routes routers : Nat) (patterns : List String) :
    (s.move (.elsewhere routes routers patterns)).Inherits late := by
  refine ⟨?_, h.outer, h.router, h.placed, h.opened⟩
  have hfold : ∀ (patterns : List String) {cache : PatternCache}, cache.Faithful →
      (patterns.foldl (fun cache p => (cache.compile p).2) cache).Faithful := by
    intro patterns
    induction patterns with
    | nil => exact fun hc => hc
    | cons p patterns ih => exact fun hc => ih (PatternCache.compile_spec hc p).2
  exact hfold patterns h.cache

theorem move (h : s.Inherits late) (m : Move H) (hlate : ∀ id, s.CallsMount id m → late id) :
    (s.move m).Inherits late := by
  cases m with
  | close => exact h.close
  | set x => exact h.set x
  | middleware m => exact h.of_settings h.current.1.valid .rfl
  | route => exact h.route
  | call c => exact h.call c hlate
  | enter => exact h.enter
  | leave => exact h.leave
  | dispatch way req =>
    have hclose := h.close
    simp only [Session.move]
    split
    · exact hclose
    · exact ⟨hclose.cache, hclose.outer, hclose.router, hclose.placed, hclose.opened⟩
  | forgetPatterns =>
    have hclose := h.close
    have hclear : s.setup.cache.clear.Faithful := ⟨fun _ _ hp => absurd hp List.not_mem_nil, fun _ => rfl⟩
    exact ⟨hclear, hclose.outer, hclose.router, hclose.placed, hclose.opened⟩
  | elsewhere routes routers patterns => exact h.elsewhere routes routers patterns

end Inherits

/-- The late calls of a history are the configuration calls that came to a mount when it had its router. -/
def Late (s : Session H) (history : List (Action H)) (id : RouteId) : Prop :=
  ∃ before m after, history = before ++ .move m :: after ∧ (s.run before).CallsMount id m

theorem not_late_of_prompt {s : Session H} {ms : List (Move H)} (h : s.Prompt ms) (id : RouteId) :
    ¬ s.Late (ms.map .move) id := by
  rintro ⟨before, m, after, heq, hcalls⟩
  induction ms generalizing s before with
  | nil => exact List.cons_ne_nil _ _ (List.append_eq_nil_iff.mp heq.symm).2
  | cons m' ms ih =>
    cases before with
    | nil =>
      obtain ⟨hm, -⟩ := List.cons.inj heq
      cases hm
      exact h.1 id hcalls
    | cons a before =>
      obtain ⟨rfl, hrest⟩ := List.cons.inj heq
      exact ih h.2 before hrest hcalls

theorem run_inherits {cache : PatternCache} (hcache : cache.Faithful) (history : List (Action H)) :
    ((new cache).run history).Inherits ((new cache).Late history) := by
  have hnew : (new (H := H) cache).Inherits ((new (H := H) cache).Late history) := by
    refine ⟨hcache, .rfl, ?_, ?_, ?_⟩
    · exact ⟨.root false false false, List.forall_mem_nil _, List.forall_mem_nil _, List.forall_mem_nil _⟩
    · exact fun _ hopened => by cases hopened
    · exact fun _ hopened => by cases hopened
  exact run_keeps_of (Q := fun s m => ∀ id, s.CallsMount id m → (new cache).Late history id)
    (fun s m hlate h => h.move m hlate) (fun s m hno id hcalls => absurd hcalls (hno id)) hnew history
    fun before m after heq id hcalls => ⟨before, m, after, heq, hcalls⟩

/-- Variables over the history of a tree. On a route without an error, below mounts without errors, no two variables
have the same name. If no mount on the way was configured any more once it had its router, every variable of these
mounts is one of the route. And if the route accepts a request, the variables it returns have these names, and each
template finds under its own names what it took out of the request. -/
theorem run_variables {cache : PatternCache} (hcache : cache.Faithful) (history : List (Action H))
    {way : List (Route H × Router H)} {e : Entry H} (hway : ((new cache).run history).root.Leads way e)
    (hroute : e.route.error = none) (hmounts : ∀ p ∈ way, p.1.error = none) :
    e.route.varNames.Nodup ∧
    ((∀ p ∈ way, ¬ (new cache).Late history p.1.id) → ∀ p ∈ way, ∀ n ∈ p.1.varNames, n ∈ e.route.varNames) ∧
    ∀ view isMount mismatch vars, e.route.check view isMount = some (mismatch, vars) →
      e.route.Finds view isMount vars := by
  obtain ⟨hsound, hroot⟩ := (run_inherits hcache history).root
  have hnames : ((new cache).run history).root.settings.scope.varNames.Nodup := by
    rw [hroot.varNames_eq]
    exact List.nodup_nil
  obtain ⟨scope, hplaced, hscope, hall⟩ := hsound.exists_scope hway hmounts hnames
  have hdistinct := hplaced.nodup hroute hscope
  refine ⟨hdistinct, fun hlate p hp n hn => hplaced.varNames_subset hroute n ((hall hlate).2 p hp n hn),
    fun view isMount mismatch vars hcheck => ?_⟩
  rw [Route.check, hroute, if_neg (by simp)] at hcheck
  obtain ⟨reported, -, hcheck⟩ := Option.bind_eq_some_iff.mp hcheck
  obtain ⟨found, hcapture, hcheck⟩ := Option.bind_eq_some_iff.mp hcheck
  obtain ⟨rfl, rfl⟩ := Prod.mk.inj (Option.some.inj hcheck)
  exact Route.capture_finds hdistinct hcapture

/-- A route with a path and a query below a mount with a path. -/
theorem run_variables_below_mount :
    let moves : List (Move Unit) := [.route, .call (.leading "/users/{id:int}/"), .enter, .route,
      .call (.path "/posts/{post}"), .call (.queries [("page", "{page}")])]
    let s := (new .new).run (moves.map .move)
    let view : View := .of (.new .get ⟨none, none, "/users/7/posts/first", some "page=2"⟩ [] none)
    ∃ mount sub e, s.root.Leads [(mount, sub)] e ∧
      e.route.check view false = some (false, [("id", "7"), ("post", "first"), ("page", "2")]) ∧
      e.route.varNames.Nodup ∧ mount.varNames = ["id"] ∧ (∀ n ∈ mount.varNames, n ∈ e.route.varNames) ∧
      e.route.Finds view false [("id", "7"), ("post", "first"), ("page", "2")] := by
  intro moves s view
  let mount : Route Unit := (s.outer.head?.map (·.2)).getD (.new .root 0)
  let e : Entry Unit := s.opened.getD ⟨.new .root 0, none⟩
  have hway : s.root.Leads [(mount, s.current)] e := .through List.mem_cons_self (.here List.mem_cons_self)
  have herror : e.route.error = none ∧ mount.error = none := by decide +kernel
  have hcheck : e.route.check view false =
      some (false, [("id", "7"), ("post", "first"), ("page", "2")]) := by decide +kernel
  have hprompt : Prompt (new .new) moves :=
    ⟨fun _ => id, (prompt_calls rfl [_]).1, fun _ => id, fun _ => id, (prompt_calls rfl [_]).1,
      (prompt_calls rfl [_]).1, trivial⟩
  obtain ⟨hdistinct, hdown, hfinds⟩ := run_variables PatternCache.faithful_new (moves.map .move) hway herror.1
    (List.forall_mem_singleton.mpr herror.2)
  have hnames := hdown (fun p _ => not_late_of_prompt hprompt p.1.id) _ List.mem_cons_self
  exact ⟨mount, s.current, e, hway, hcheck, hdistinct, by decide +kernel, hnames, hfinds view false _ _ hcheck⟩

end Session

end RequestRouter
