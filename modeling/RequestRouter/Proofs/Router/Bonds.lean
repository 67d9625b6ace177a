import RequestRouter.Proofs.Router.Sessions
/-!
Relations between neighbours in a tree of routers. What holds between a router and a route that it creates, and
between a mount and the router created below it, holds in the whole tree at every moment of its history if settings
and calls keep it. Calls on a mount that has its router already may be restricted for that.
-/
namespace RequestRouter

variable {H : Type}

/-- A relation between a router and its routes, and one between a mount and the router below it. Of the routers only
their scopes count. -/
structure Bond (H : Type) where
  /-- Holds of a router without a mount. -/
  top : Scope → Prop
  owns : Scope → Route H → Prop
  mounts : Route H → Scope → Prop

namespace Bond

/-- The relation of a router to its routes arises when they are created, and nothing undoes either relation; `late`
says which calls on a mount may come when it has its router already. -/
structure Kept (b : Bond H) (late : RouteId → Call H → Prop) : Prop where
  root : b.top .root
  new : ∀ scope id, b.owns scope (.new scope id)
  call : ∀ scope r (c : Call H) st, b.owns scope r → b.owns scope (c.apply r st).1
  late : ∀ scope r (c : Call H) st, late r.id c → b.mounts r scope → b.mounts (c.apply r st).1 scope
  set_top : ∀ (x : Setting H) t, b.top t.scope → b.top (x.apply t).scope
  set_owns : ∀ (x : Setting H) t r, b.owns t.scope r → b.owns (x.apply t).scope r
  set_mounts : ∀ (x : Setting H) t r, b.mounts r t.scope → b.mounts r (x.apply t).scope

/-- The relation of a mount to the router below it arises too, whenever that router is created. -/
structure Stable (b : Bond H) (late : RouteId → Call H → Prop) : Prop extends b.Kept late where
  enter : ∀ scope r, b.owns scope r → b.mounts r r.innerScope

end Bond

namespace Router

inductive Bound (b : Bond H) : Router H → Prop where
  | intro {r : Router H} (owns : ∀ e ∈ r.routes.entries, b.owns r.settings.scope e.route)
    (mounts : ∀ e ∈ r.routes.entries, ∀ sub, e.sub = some sub → b.mounts e.route sub.settings.scope)
    (below : ∀ e ∈ r.routes.entries, ∀ sub, e.sub = some sub → Bound b sub) : Bound b r

variable {b : Bond H} {r : Router H}

theorem bound_new (b : Bond H) (scope : Scope) (st : Setup) : (Router.new scope st).1.Bound b :=
  ⟨List.forall_mem_nil _, List.forall_mem_nil _, List.forall_mem_nil _⟩

theorem Bound.add (h : r.Bound b) {e : Entry H} (howns : b.owns r.settings.scope e.route)
    (hsub : ∀ sub, e.sub = some sub → b.mounts e.route sub.settings.scope ∧ sub.Bound b) : (r.add e).Bound b := by
  obtain ⟨hallOwn, hallMounts, hallBelow⟩ := h
  have hentries : ∀ x ∈ (r.add e).routes.entries, x ∈ r.routes.entries ∨ x = e := fun x hx => by
    rwa [Router.add, Tree.entries_push, List.mem_append, List.mem_singleton] at hx
  refine ⟨fun x hx => ?_, fun x hx sub hs => ?_, fun x hx sub hs => ?_⟩
  · rcases hentries x hx with hx | rfl
    · exact hallOwn x hx
    · exact howns
  · rcases hentries x hx with hx | rfl
    · exact hallMounts x hx sub hs
    · exact (hsub sub hs).1
  · rcases hentries x hx with hx | rfl
    · exact hallBelow x hx sub hs
    · exact (hsub sub hs).2

theorem Bound.set {late : RouteId → Call H → Prop} (hb : b.Kept late) (h : r.Bound b) (x : Setting H) :
    (Router.mk (x.apply r.settings) r.routes).Bound b := by
  obtain ⟨howns, hmounts, hbelow⟩ := h
  exact ⟨fun e he => hb.set_owns x r.settings e.route (howns e he), hmounts, hbelow⟩

/-- A route stands in the first relation to its router, and if it lies below mounts, its router stands in the second
one to the innermost of them. -/
theorem Bound.of_leads (h : r.Bound b) {way : List (Route H × Router H)} {e : Entry H} (hway : r.Leads way e) :
    (way = [] ∧ b.owns r.settings.scope e.route) ∨
      ∃ front mount sub, way = front ++ [(mount, sub)] ∧ b.mounts mount sub.settings.scope ∧
        b.owns sub.settings.scope e.route := by
  induction hway with
  | here he =>
    obtain ⟨howns, -, -⟩ := h
    exact .inl ⟨rfl, howns _ he⟩
  | @through r sub mount way e hmount hway ih =>
    obtain ⟨-, hmounts, hbelow⟩ := h
    rcases ih (hbelow _ hmount sub rfl) with ⟨rfl, howns⟩ | ⟨front, inner, below, rfl, hinner⟩
    · exact .inr ⟨[], mount, sub, rfl, hmounts _ hmount sub rfl, howns⟩
    · exact .inr ⟨(mount, sub) :: front, inner, below, rfl, hinner⟩

end Router

namespace Session

variable {b : Bond H} {late : RouteId → Call H → Prop}

/-- The relations hold between the routers around and below them, out to a router without a mount. -/
def Linked (b : Bond H) : List (Router H × Route H) → Scope → Prop
  | [], scope => b.top scope
  | x :: outer, scope => x.1.Bound b ∧ b.owns x.1.settings.scope x.2 ∧ b.mounts x.2 scope ∧
      Linked b outer x.1.settings.scope

/-- The relations hold in the tree, for the open route and the mounts of the work too. -/
structure Bound (b : Bond H) (s : Session H) : Prop where
  outer : Linked b s.outer s.router.settings.scope
  router : s.router.Bound b
  owns : ∀ e, s.opened = some e → b.owns s.router.settings.scope e.route
  mounts : ∀ e, s.opened = some e → ∀ sub, e.sub = some sub → b.mounts e.route sub.settings.scope ∧ sub.Bound b

namespace Bound

variable {s : Session H}

theorem current (h : s.Bound b) : s.current.Bound b ∧ s.current.settings.scope = s.router.settings.scope := by
  obtain ⟨outer, r, opened, st, w⟩ := s
  cases opened with
  | none => exact ⟨h.router, rfl⟩
  | some e => exact ⟨h.router.add (h.owns e rfl) (h.mounts e rfl), rfl⟩

theorem root (h : s.Bound b) : s.root.Bound b ∧ b.top s.root.settings.scope := by
  obtain ⟨hcurrent, hscope⟩ := h.current
  have hall := root_induction (P := fun outer r => Linked b outer r.settings.scope ∧ r.Bound b)
    (fun x outer r hx => ?_) ⟨hscope ▸ h.outer, hcurrent⟩
  · exact ⟨hall.2, hall.1⟩
  · obtain ⟨⟨hx, howns, hmounts, hlinked⟩, hr⟩ := hx
    refine ⟨hlinked, hx.add howns fun sub hsub => ?_⟩
    cases hsub
    exact ⟨hmounts, hr⟩

theorem close (h : s.Bound b) : s.close.Bound b where
  outer := h.current.2 ▸ h.outer
  router := h.current.1
  owns := fun _ hopened => nomatch hopened
  mounts := fun _ hopened => nomatch hopened

theorem set (hb : b.Kept late) (h : s.Bound b) (x : Setting H) : (s.move (.set x)).Bound b where
  outer := by
    have houter := h.close.outer
    change Linked b s.outer (x.apply s.current.settings).scope
    change Linked b s.outer s.current.settings.scope at houter
    revert houter
    cases s.outer with
    | nil => exact hb.set_top x _
    | cons y outer => exact fun houter => ⟨houter.1, houter.2.1, hb.set_mounts x _ _ houter.2.2.1, houter.2.2.2⟩
  router := h.current.1.set hb x
  owns := fun _ hopened => nomatch hopened
  mounts := fun _ hopened => nomatch hopened

theorem route (hb : b.Kept late) (h : s.Bound b) : (s.move .route).Bound b where
  outer := h.close.outer
  router := h.close.router
  owns := by
    rintro e he
    cases he
    exact hb.new _ _
  mounts := by
    rintro e he sub hsub
    cases he
    cases hsub

theorem call (hb : b.Kept late) (h : s.Bound b) (c : Call H) (hlate : ∀ id, s.CallsMount id (.call c) → late id c) :
    (s.move (.call c)).Bound b := by
  obtain ⟨outer, r, opened, st, w⟩ := s
  cases opened with
  | none => exact h
  | some e =>
    refine ⟨h.outer, h.router, fun e' he => ?_, fun e' he sub hsub => ?_⟩
    · cases he
      exact hb.call _ _ c st (h.owns e rfl)
    · cases he
      obtain ⟨hmounts, hbound⟩ := h.mounts e rfl sub hsub
      exact ⟨hb.late _ _ c st (hlate _ ⟨e, rfl, rfl, by rw [hsub]; rfl⟩) hmounts, hbound⟩

theorem enter (h : s.Bound b) (henter : ∀ mount, s.opened = some ⟨mount, none⟩ →
    b.owns s.router.settings.scope mount → b.mounts mount mount.innerScope) : (s.move .enter).Bound b := by
  obtain ⟨outer, r, opened, st, w⟩ := s
  cases opened with
  | none => exact h
  | some e =>
    obtain ⟨mount, sub⟩ := e
    have howns := h.owns _ rfl
    cases sub with
    | none =>
      exact ⟨⟨h.router, howns, henter _ rfl howns, h.outer⟩, Router.bound_new b _ st,
        fun _ hopened => (nomatch hopened), fun _ hopened => nomatch hopened⟩
    | some sub =>
      obtain ⟨hmounts, hbound⟩ := h.mounts _ rfl sub rfl
      exact ⟨⟨h.router, howns, hmounts, h.outer⟩, hbound, fun _ hopened => (nomatch hopened),
        fun _ hopened => nomatch hopened⟩

theorem leave (h : s.Bound b) : (s.move .leave).Bound b := by
  obtain ⟨outer, r, opened, st, w⟩ := s
  cases outer with
  | nil => exact h.close
  | cons x outer =>
    obtain ⟨hrouter, howns, hmounts, hlinked⟩ := h.outer
    refine ⟨hlinked, hrouter, fun e he => ?_, fun e he sub hsub => ?_⟩
    · cases he
      exact howns
    · cases he
      cases hsub
      exact ⟨h.current.2 ▸ hmounts, h.current.1⟩

theorem move (hb : b.Kept late) (h : s.Bound b) (m : Move H)
    (hlate : ∀ c, m = .call c → ∀ id, s.CallsMount id (.call c) → late id c)
    (henter : m = .enter → ∀ mount, s.opened = some ⟨mount, none⟩ →
      b.owns s.router.settings.scope mount → b.mounts mount mount.innerScope) : (s.move m).Bound b := by
  have hclose := h.close
  cases m with
  | close => exact hclose
  | set x => exact h.set hb x
  | middleware m =>
    obtain ⟨howns, hmounts, hbelow⟩ := hclose.router
    exact ⟨hclose.outer, ⟨howns, hmounts, hbelow⟩, hclose.owns, hclose.mounts⟩
  | route => exact h.route hb
  | call c => exact h.call hb c (hlate c rfl)
  | enter => exact h.enter (henter rfl)
  | leave => exact h.leave
  | dispatch way req =>
    simp only [Session.move]
    split <;> exact ⟨hclose.outer, hclose.router, hclose.owns, hclose.mounts⟩
  | forgetPatterns => exact ⟨hclose.outer, hclose.router, hclose.owns, hclose.mounts⟩
  | elsewhere => exact ⟨h.outer, h.router, h.owns, h.mounts⟩

end Bound

theorem bound_new (hb : b.Kept late) (cache : PatternCache) : (new (H := H) cache).Bound b :=
  ⟨hb.root, Router.bound_new b _ _, fun _ hopened => (nomatch hopened), fun _ hopened => nomatch hopened⟩

/-- Moves keep the relations, if the router of each mount is created in the second relation to it. -/
theorem moves_bound (hb : b.Kept fun _ _ => True) {s : Session H} (h : s.Bound b) (ms : List (Move H))
    (henter : ∀ before after, ms = before ++ .enter :: after →
      ∀ mount, (s.moves before).opened = some ⟨mount, none⟩ → b.mounts mount mount.innerScope) :
    (s.moves ms).Bound b := by
  induction ms generalizing s with
  | nil => exact h
  | cons m ms ih =>
    refine ih (h.move hb m (fun _ _ _ _ => trivial) fun hm mount hopened _ => ?_)
      fun before after heq mount hopened => ?_
    · exact henter [] ms (hm ▸ rfl) mount hopened
    · exact henter (m :: before) after (heq ▸ rfl) mount hopened

/-- At every moment of a history the relations hold in the whole tree, if only such calls came to mounts with a router
as they allow. The calls of tables are never among these. -/
theorem run_bound (hb : b.Stable late) (cache : PatternCache) (history : List (Action H))
    (hlate : ∀ before c after, history = before ++ .move (.call c) :: after →
      ∀ id, ((new cache).run before).CallsMount id (.call c) → late id c) :
    ((new cache).run history).root.Bound b ∧ b.top ((new cache).run history).root.settings.scope := by
  refine Bound.root (run_keeps_of (Q := fun s m => ∀ c, m = .call c → ∀ id, s.CallsMount id (.call c) → late id c)
    (fun s m hQ h => h.move hb.toKept m hQ fun _ mount _ => hb.enter _ mount)
    (fun s m hno c hm id hcalls => absurd (hm ▸ hcalls) (hno id))
    (bound_new hb.toKept cache) history ?_)
  rintro before m after heq c rfl id hcalls
  exact hlate before c after heq id hcalls

end Session

end RequestRouter
