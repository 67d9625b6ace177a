import RequestRouter.Proofs.Router.Names
/-!
Wrapped handlers over the history of a tree. Every router keeps the handlers it wrapped, and what it keeps is what
it would get by wrapping now: a router forgets its handlers when it gets a middleware, and it has none of routes
that can still change.
-/
namespace RequestRouter

open RequestRouter.Http

variable {H : Type}

namespace Router

/-- A handler inside the middlewares of all routers on a way, those of the first router outermost and within one
router the first one. -/
def wrapped (r : Router H) (way : List (Route H × Router H)) (h : H) : H :=
  ((r.settings :: way.map (·.2.settings)).flatMap (·.middlewares)).foldr (fun m next => m.wrap next) h

theorem wrapped_nil (r : Router H) (h : H) : r.wrapped [] h = r.settings.wrapAll h := by
  simp [wrapped, Settings.wrapAll]

theorem wrapped_cons (r sub : Router H) (mount : Route H) (way : List (Route H × Router H)) (h : H) :
    r.wrapped ((mount, sub) :: way) h = r.settings.wrapAll (sub.wrapped way h) := by
  simp [wrapped, Settings.wrapAll]

/-- The handler is that of a route in the router or below, as the router would wrap it now. -/
def Fresh (r : Router H) (id : RouteId) (h : H) : Prop :=
  ∃ way e g, r.Leads way e ∧ e.route.id = id ∧ e.route.handler = some g ∧ h = r.wrapped way g

end Router

namespace Wraps

variable {w w' : Wraps H} {r r' sub : Router H}

def Kept (w : Wraps H) (r : Router H) : Prop :=
  ∀ R, r.Has R → ∀ id h, ((R.settings.key, id), h) ∈ w.handlers → R.Fresh id h

/-- What has been added to the kept handlers is fresh for a router of the tree. -/
def Grown (r : Router H) (w w' : Wraps H) : Prop :=
  ∀ p ∈ w'.handlers, p ∈ w.handlers ∨ ∃ R, r.Has R ∧ p.1.1 = R.settings.key ∧ R.Fresh p.1.2 p.2

theorem kept_new (r : Router H) : (new : Wraps H).Kept r := fun _ _ _ _ h => absurd h List.not_mem_nil

theorem Kept.below (h : w.Kept r) (hsub : r.Has sub) : w.Kept sub := fun R hR => h R (hsub.trans hR)

theorem Kept.of_entries (h : w.Kept r) (hkey : r'.settings.key = r.settings.key)
    (hmiddlewares : r'.settings.middlewares = r.settings.middlewares)
    (hold : ∀ x ∈ r.routes.entries, x ∈ r'.routes.entries)
    (hnew : ∀ x ∈ r'.routes.entries, x ∈ r.routes.entries ∨ ∀ sub, x.sub = some sub → w.Kept sub) :
    w.Kept r' := by
  intro R hR id g hp
  cases hR with
  | self =>
    rw [hkey] at hp
    obtain ⟨way, e, own, hway, hid, hown, rfl⟩ := h r (.self r) id g hp
    exact ⟨way, e, own, hway.mono hold, hid, hown, by simp only [Router.wrapped, List.flatMap_cons, hmiddlewares]⟩
  | @through _ mid _ mount hmount hR =>
    rcases hnew _ hmount with hmount | hmid
    · exact h R (.through hmount hR) id g hp
    · exact hmid mid rfl R hR id g hp

theorem Kept.add (h : w.Kept r) {e : Entry H} (hsub : ∀ sub, e.sub = some sub → w.Kept sub) :
    w.Kept (r.add e) := by
  have hentries : (r.add e).routes.entries = r.routes.entries ++ [e] := Tree.entries_push _ _
  refine h.of_entries rfl rfl (fun x hx => ?_) fun x hx => ?_
  · rw [hentries]
    exact List.mem_append_left _ hx
  · rw [hentries, List.mem_append, List.mem_singleton] at hx
    rcases hx with hx | rfl
    · exact .inl hx
    · exact .inr hsub

theorem Kept.of_handlers (h : w.Kept r) (hsub : ∀ p ∈ w'.handlers, p ∈ w.handlers) : w'.Kept r :=
  fun R hR id g hp => h R hR id g (hsub _ hp)

theorem Grown.trans {w'' : Wraps H} (h : Grown r w w') (h' : Grown r w' w'') : Grown r w w'' :=
  fun p hp => (h' p hp).elim (h p) .inr

theorem Grown.above (h : Grown sub w w') (hsub : r.Has sub) : Grown r w w' :=
  fun p hp => (h p hp).imp id fun ⟨R, hR, hkey, hfresh⟩ => ⟨R, hsub.trans hR, hkey, hfresh⟩

theorem Grown.kept (h : Grown r w w') (hw : w.Kept r) (hkeys : r.keys.Nodup) : w'.Kept r := by
  intro R hR id g hp
  rcases h _ hp with hp | ⟨R', hR', hkey, hfresh⟩
  · exact hw R hR id g hp
  · rw [hR.eq_of_key hkeys hR' hkey]
    exact hfresh

theorem Grown.kept_apart (h : Grown r w w') {other : Router H} (hw : w.Kept other)
    (hkeys : ∀ k ∈ other.keys, k ∉ r.keys) : w'.Kept other := by
  intro R hR id g hp
  rcases h _ hp with hp | ⟨R', hR', hkey, -⟩
  · exact hw R hR id g hp
  · have hsame : R.settings.key = R'.settings.key := hkey
    exact absurd (hsame ▸ hR'.mem_keys) (hkeys _ hR.mem_keys)

end Wraps

/-- The outcome of a scan with kept handlers: it is the one without them, a match has a freshly wrapped handler, and
a failure the plain one of a router. -/
structure RouteMatch.Transparent (r : Router H) (found : RouteMatch H) (fresh : RouteMatch H) : Prop where
  eq : found = fresh
  matched : ∀ route handler vars, found = .matched route handler vars →
    ∃ way sub, r.Leads way ⟨route, sub⟩ ∧ handler = route.handler.map (r.wrapped way)
  failed : ∀ e fallback, found = .failed e fallback → ∃ below, r.Has below ∧ fallback = below.settings.fallback e

namespace RouteMatch

variable {r : Router H}

theorem transparent_matched {way : List (Route H × Router H)} {route : Route H} {sub : Option (Router H)}
    (hway : r.Leads way ⟨route, sub⟩) (vars : Vars) :
    Transparent r (.matched route (route.handler.map (r.wrapped way)) vars)
      (.matched route (route.handler.map (r.wrapped way)) vars) where
  eq := rfl
  matched := by
    intro route' handler vars' h
    obtain ⟨rfl, rfl, -⟩ := matched.inj h
    exact ⟨way, sub, hway, rfl⟩
  failed := by
    intro e fallback h
    cases h

theorem transparent_failed {e : MatchError} {fallback : Option H}
    (h : ∃ below, r.Has below ∧ fallback = below.settings.fallback e) :
    Transparent r (.failed e fallback) (.failed e fallback) where
  eq := rfl
  matched := by
    intro route handler vars h
    cases h
  failed := by
    intro e' fallback' heq
    obtain ⟨rfl, rfl⟩ := failed.inj heq
    exact h

end RouteMatch

namespace Settings

variable {w : Wraps H}

theorem finish_wrapped {r : Router H} {way : List (Route H × Router H)} {route : Route H} {sub : Option (Router H)}
    (hway : r.Leads way ⟨route, sub⟩) (hids : (r.routes.flatten.map (·.id)).Nodup) (hw : w.Kept r) {f : H → H}
    (hf : ∀ g, r.wrapped way g = r.settings.wrapAll (f g)) (vars : Vars) :
    (r.settings.finish route (route.handler.map f) vars w).1 =
        .matched route (route.handler.map (r.wrapped way)) vars ∧
      Wraps.Grown r w (r.settings.finish route (route.handler.map f) vars w).2 := by
  cases hg : route.handler with
  | none => exact ⟨rfl, fun p hp => .inl hp⟩
  | some g =>
    simp only [Option.map_some, finish, wrap, hf]
    by_cases hempty : r.settings.middlewares.isEmpty = true
    · have hnil : r.settings.middlewares = [] := List.isEmpty_iff.mp hempty
      rw [if_pos hempty]
      exact ⟨by simp [wrapAll, hnil], fun p hp => .inl hp⟩
    · rw [if_neg hempty]
      cases hlookup : w.handlers.lookup (r.settings.key, route.id) with
      | none =>
        refine ⟨rfl, fun p hp => ?_⟩
        rcases List.mem_cons.mp hp with rfl | hp
        · exact .inr ⟨r, .self r, rfl, way, _, g, hway, rfl, hg, (hf g).symm⟩
        · exact .inl hp
      | some wrapped =>
        refine ⟨?_, fun p hp => .inl hp⟩
        obtain ⟨l, l', heq, -⟩ := List.lookup_eq_some_iff.mp hlookup
        obtain ⟨way', e, g', hway', hid, hg', rfl⟩ := hw r (.self r) route.id wrapped (by simp [heq])
        obtain ⟨rfl, rfl⟩ := hway'.eq_of_id hids hway hid
        obtain rfl : g' = g := Option.some.inj (hg'.symm.trans hg)
        simp only [hf]

theorem finish_transparent {r : Router H} {way : List (Route H × Router H)} {route : Route H}
    {sub : Option (Router H)} (hway : r.Leads way ⟨route, sub⟩) (hids : (r.routes.flatten.map (·.id)).Nodup)
    (hw : w.Kept r) {w' : Wraps H} (hw' : w'.Kept r) {f : H → H}
    (hf : ∀ g, r.wrapped way g = r.settings.wrapAll (f g)) (vars : Vars) :
    RouteMatch.Transparent r (r.settings.finish route (route.handler.map f) vars w).1
        (r.settings.finish route (route.handler.map f) vars w').1 ∧
      Wraps.Grown r w (r.settings.finish route (route.handler.map f) vars w).2 := by
  obtain ⟨hfound, hgrown⟩ := finish_wrapped hway hids hw hf vars
  obtain ⟨hfound', -⟩ := finish_wrapped hway hids hw' hf vars
  rw [hfound, hfound']
  exact ⟨RouteMatch.transparent_matched hway vars, hgrown⟩

end Settings

namespace Tree

/-- What a scan returns and adds to the kept handlers. The scan is that of the last routes of a router. -/
theorem resolve_transparent (view : View) {r : Router H} (hids : (r.routes.flatten.map (·.id)).Nodup)
    (hkeys : r.keys.Nodup) {t : Tree H} (ht : ∀ e ∈ t.entries, e ∈ r.routes.entries) (mismatch : Bool)
    {w : Wraps H} (hw : w.Kept r) :
    RouteMatch.Transparent r (resolve r.settings view t mismatch w).1 (resolve r.settings view t mismatch .new).1 ∧
      Wraps.Grown r w (resolve r.settings view t mismatch w).2 := by
  induction t generalizing r mismatch w with
  | nil =>
    obtain ⟨e, he⟩ := r.settings.fail_eq mismatch
    rw [resolve, resolve, he]
    exact ⟨RouteMatch.transparent_failed ⟨r, .self r, rfl⟩, fun p hp => .inl hp⟩
  | leaf route rest ih =>
    have hrest : ∀ e ∈ rest.entries, e ∈ r.routes.entries := fun e he => ht e (List.mem_cons_of_mem _ he)
    by_cases hadm : route.admits view false = true
    · obtain ⟨hb, vars, hc⟩ := (route.admits_iff view false).mp hadm
      have hway : r.Leads [] ⟨route, none⟩ := .here (ht _ List.mem_cons_self)
      have hres : ∀ w : Wraps H, resolve r.settings view (leaf route rest) mismatch w =
          r.settings.finish route (route.handler.map id) (route.transform vars) w := fun w => by
        simp [resolve, hb, hc]
      rw [hres, hres]
      exact Settings.finish_transparent hway hids hw (Wraps.kept_new r) r.wrapped_nil _
    · rw [resolve_leaf_of_not_admits (by simpa using hadm), resolve_leaf_of_not_admits (by simpa using hadm)]
      exact ih hids hkeys hrest _ hw
  | mount route below inner rest ihInner ihRest =>
    have hrest : ∀ e ∈ rest.entries, e ∈ r.routes.entries := fun e he => ht e (List.mem_cons_of_mem _ he)
    by_cases hadm : route.admits view true = true
    · have hmount : ⟨route, some ⟨below, inner⟩⟩ ∈ r.routes.entries := ht _ List.mem_cons_self
      have hsub : r.Has ⟨below, inner⟩ := .through hmount (.self _)
      have hinner : ∀ {w : Wraps H}, w.Kept r → _ := fun {w} hw =>
        ihInner (r := ⟨below, inner⟩) (hsub.nodup_ids hids) (hsub.nodup_keys hkeys) (fun _ he => he) false
          (hw.below hsub)
      obtain ⟨⟨heq, hmatched, hfailed⟩, hgrown⟩ := hinner hw
      obtain ⟨-, hgrown'⟩ := hinner (Wraps.kept_new r)
      rw [resolve_mount_of_admits hadm, resolve_mount_of_admits hadm]
      rcases hres : resolve below view inner false w with ⟨m, w₁⟩
      rcases hres' : resolve below view inner false .new with ⟨m', w₂⟩
      simp only [hres, hres'] at heq hmatched hfailed hgrown hgrown'
      subst heq
      rcases m with ⟨found, handler, vars⟩ | ⟨e, _ | g⟩
      · obtain ⟨way, sub, hway, rfl⟩ := hmatched found handler vars rfl
        obtain ⟨htransparent, hfinish⟩ := Settings.finish_transparent (.through hmount hway) hids
          ((hgrown.above hsub).kept hw hkeys) ((hgrown'.above hsub).kept (Wraps.kept_new r) hkeys)
          (fun g => r.wrapped_cons _ route way g) vars
        exact ⟨htransparent, (hgrown.above hsub).trans hfinish⟩
      · have hsame := resolve_failed (congrArg Prod.fst hres) w
        have hsame' := resolve_failed (congrArg Prod.fst hres') .new
        obtain rfl : w₁ = w := (Prod.mk.inj (hres.symm.trans hsame)).2
        obtain rfl : w₂ = .new := (Prod.mk.inj (hres'.symm.trans hsame')).2
        exact ihRest hids hkeys hrest _ hw
      · obtain ⟨R, hR, hfallback⟩ := hfailed e (some g) rfl
        exact ⟨RouteMatch.transparent_failed ⟨R, hsub.trans hR, hfallback⟩, hgrown.above hsub⟩
    · rw [resolve_mount_of_not_admits (by simpa using hadm), resolve_mount_of_not_admits (by simpa using hadm)]
      exact ihRest hids hkeys hrest _ hw

end Tree

theorem Router.has_of_below? {way : List Nat} {r sub : Router H} (h : r.below? way = some sub) : r.Has sub := by
  induction way generalizing r with
  | nil =>
    obtain rfl : r = sub := Option.some.inj h
    exact .self r
  | cons i way ih =>
    obtain ⟨⟨mount, mid⟩, hentry, hbelow⟩ := Option.bind_eq_some_iff.mp h
    obtain ⟨mid', hmid, hbelow⟩ := Option.bind_eq_some_iff.mp hbelow
    obtain rfl : mid = some mid' := hmid
    exact .through (List.mem_of_getElem? hentry) (ih hbelow)

namespace Session

theorem has_current (s : Session H) : s.root.Has s.current := by
  refine root_induction (P := fun _ r => r.Has s.current) (fun x _ r h => ?_) (.self _)
  have hmem : ⟨x.2, some r⟩ ∈ (x.1.add ⟨x.2, some r⟩).routes.entries := by
    rw [Router.add, Tree.entries_push]
    exact List.mem_append_right _ List.mem_cons_self
  exact .through hmem h

def keysAround (outer : List (Router H × Route H)) : List Nat := outer.reverse.flatMap fun x => x.1.keys

theorem keys_add (r : Router H) (e : Entry H) : (r.add e).keys = r.keys ++ e.sub.elim [] Router.keys := by
  rw [Router.keys, Router.add, Tree.keys_push]
  rfl

theorem keys_root (s : Session H) : s.root.keys = keysAround s.outer ++ s.current.keys := by
  have h := contribution_root (f := Router.keys (H := H)) (g := fun _ => [])
    (fun r mount sub => keys_add r ⟨mount, some sub⟩) s
  simpa only [keysAround, List.append_nil] using h

theorem keys_current (s : Session H) :
    s.current.keys = s.router.keys ++ (s.opened.bind (·.sub)).elim [] Router.keys := by
  obtain ⟨outer, r, opened, st, w⟩ := s
  cases opened with
  | none => exact (List.append_nil _).symm
  | some e => exact keys_add r e

theorem move_keys (s : Session H) (m : Move H) :
    (s.move m).root.keys = s.root.keys ∧ s.setup.nextRouter ≤ (s.move m).setup.nextRouter ∨
    (s.move m).root.keys = s.root.keys ++ [s.setup.nextRouter] ∧
      (s.move m).setup.nextRouter = s.setup.nextRouter + 1 := by
  have hcurrent : ∀ s' : Session H, s'.outer = s.outer → s'.current.keys = s.current.keys →
      s'.root.keys = s.root.keys := fun s' houter hkeys => by
    rw [keys_root, keys_root, houter, hkeys]
  cases m with
  | close => exact .inl ⟨hcurrent _ rfl rfl, le_rfl⟩
  | set x => exact .inl ⟨hcurrent _ rfl (by cases x <;> rfl), le_rfl⟩
  | middleware m => exact .inl ⟨hcurrent _ rfl rfl, le_rfl⟩
  | route =>
    refine .inl ⟨?_, le_rfl⟩
    rw [keys_root, keys_root, keys_current, move]
    exact congrArg _ (List.append_nil _)
  | call c =>
    obtain ⟨outer, r, opened, st, w⟩ := s
    cases opened with
    | none => exact .inl ⟨rfl, le_rfl⟩
    | some e =>
      refine .inl ⟨?_, Nat.le_of_eq (c.apply_named e.route st).nextRouter.symm⟩
      rw [keys_root, keys_root, keys_current, keys_current]
      rfl
  | enter =>
    obtain ⟨outer, r, opened, st, w⟩ := s
    cases opened with
    | none => exact .inl ⟨rfl, le_rfl⟩
    | some e =>
      obtain ⟨mount, sub⟩ := e
      cases sub with
      | none =>
        refine .inr ⟨?_, rfl⟩
        rw [keys_root, keys_root, keys_current, keys_current]
        simp [move, keysAround, Entry.subrouter, Router.new, Router.keys, Tree.keys, Settings.new]
      | some sub =>
        refine .inl ⟨?_, le_rfl⟩
        rw [keys_root, keys_root, keys_current, keys_current]
        simp [move, keysAround, Entry.subrouter]
  | leave =>
    obtain ⟨outer, r, opened, st, w⟩ := s
    cases outer with
    | nil => exact .inl ⟨rfl, le_rfl⟩
    | cons f outer => exact .inl ⟨rfl, le_rfl⟩
  | dispatch way req =>
    simp only [move]
    split <;> exact .inl ⟨rfl, le_rfl⟩
  | forgetPatterns => exact .inl ⟨rfl, le_rfl⟩
  | elsewhere routes routers patterns => exact .inl ⟨rfl, Nat.le_add_right _ _⟩

/-- The routers of the tree have different keys, and the next key is not among them. -/
def Keyed (s : Session H) : Prop := s.root.keys.Nodup ∧ ∀ k ∈ s.root.keys, k < s.setup.nextRouter

theorem Keyed.move {s : Session H} (h : s.Keyed) (m : Move H) : (s.move m).Keyed := by
  obtain ⟨hnodup, hlt⟩ := h
  rcases s.move_keys m with ⟨hkeys, hnext⟩ | ⟨hkeys, hnext⟩
  · rw [Keyed, hkeys]
    exact ⟨hnodup, fun k hk => Nat.lt_of_lt_of_le (hlt k hk) hnext⟩
  · rw [Keyed, hkeys, hnext]
    refine ⟨List.nodup_append.mpr ⟨hnodup, List.nodup_singleton _, ?_⟩, fun k hk => ?_⟩
    · rintro k hk _ hlast rfl
      rw [List.mem_singleton.mp hlast] at hk
      exact Nat.lt_irrefl _ (hlt _ hk)
    · rcases List.mem_append.mp hk with hk | hk
      · exact Nat.lt_succ_of_lt (hlt k hk)
      · rw [List.mem_singleton.mp hk]
        exact Nat.lt_succ_self _

/-- What the routers of a tree keep is fresh, whatever becomes of the route that is open. -/
structure Keeps (s : Session H) : Prop where
  handlers : ∀ p ∈ s.wraps.handlers, p.1.1 < s.setup.nextRouter
  outer : ∀ x ∈ s.outer, s.wraps.Kept x.1
  router : s.wraps.Kept s.router
  opened : ∀ e sub, s.opened = some e → e.sub = some sub → s.wraps.Kept sub

namespace Keeps

variable {s : Session H}

theorem current (h : s.Keeps) : s.wraps.Kept s.current := by
  obtain ⟨outer, r, opened, st, w⟩ := s
  cases opened with
  | none => exact h.router
  | some e => exact Wraps.Kept.add h.router fun sub hsub => h.opened e sub rfl hsub

theorem root (h : s.Keeps) : s.wraps.Kept s.root := by
  have hall := root_induction (P := fun outer r => (∀ x ∈ outer, s.wraps.Kept x.1) ∧ s.wraps.Kept r)
    (fun x outer r hx => ?_) ⟨h.outer, h.current⟩
  · exact hall.2
  · obtain ⟨houter, hr⟩ := hx
    refine ⟨fun y hy => houter y (List.mem_cons_of_mem _ hy), (houter x List.mem_cons_self).add fun sub hsub => ?_⟩
    cases hsub
    exact hr

theorem close (h : s.Keeps) : s.close.Keeps :=
  ⟨h.handlers, h.outer, h.current, fun _ _ hopened => by cases hopened⟩

theorem kept_new (h : s.Keeps) (scope : Scope) : s.wraps.Kept (Router.new scope s.setup).1 := by
  intro R hR id g hp
  cases hR with
  | self => exact absurd (h.handlers _ hp) (Nat.lt_irrefl _)
  | through hmount => exact absurd hmount List.not_mem_nil

theorem set (h : s.Keeps) (x : Setting H) : (s.move (.set x)).Keeps where
  handlers := h.handlers
  outer := h.outer
  router := h.current.of_entries (by cases x <;> rfl) (by cases x <;> rfl) (fun _ hx => hx) fun _ hx => .inl hx
  opened := by
    intro _ _ hopened
    cases hopened

/-- The handlers that the router has wrapped are forgotten, and no other router has wrapped with its middlewares what
it keeps. -/
theorem middleware (h : s.Keeps) (m : Middleware H) : (s.move (.middleware m)).Keeps := by
  have hforget : ∀ p ∈ (s.wraps.forget s.current.settings.key).handlers, p ∈ s.wraps.handlers :=
    fun p hp => (List.mem_filter.mp hp).1
  refine ⟨fun p hp => h.handlers p (hforget p hp), fun x hx => (h.outer x hx).of_handlers hforget, ?_,
    fun _ _ hopened => by cases hopened⟩
  intro R hR id g hp
  cases hR with
  | self => exact absurd rfl (of_decide_eq_true (List.mem_filter.mp hp).2)
  | through hmount hR => exact h.current R (.through hmount hR) id g (hforget _ hp)

theorem call (h : s.Keeps) (c : Call H) : (s.move (.call c)).Keeps := by
  obtain ⟨outer, r, opened, st, w⟩ := s
  cases opened with
  | none => exact h
  | some e =>
    refine ⟨fun p hp => ?_, h.outer, h.router, fun e' sub he hsub => ?_⟩
    · have hlt := h.handlers p hp
      rwa [← (c.apply_named e.route st).nextRouter] at hlt
    · cases he
      exact h.opened e sub rfl hsub

theorem enter (h : s.Keeps) : (s.move .enter).Keeps := by
  obtain ⟨outer, r, opened, st, w⟩ := s
  cases opened with
  | none => exact h
  | some e =>
    obtain ⟨mount, sub⟩ := e
    have houter : ∀ x ∈ (r, mount) :: outer, w.Kept x.1 := by
      rintro x hx
      rcases List.mem_cons.mp hx with rfl | hx
      · exact h.router
      · exact h.outer x hx
    cases sub with
    | none =>
      exact ⟨fun p hp => Nat.lt_succ_of_lt (h.handlers p hp), houter, h.kept_new mount.innerScope,
        fun _ _ hopened => by cases hopened⟩
    | some sub => exact ⟨h.handlers, houter, h.opened _ sub rfl rfl, fun _ _ hopened => by cases hopened⟩

theorem leave (h : s.Keeps) : (s.move .leave).Keeps := by
  obtain ⟨outer, r, opened, st, w⟩ := s
  cases outer with
  | nil => exact h.close
  | cons x outer =>
    refine ⟨h.handlers, fun y hy => h.outer y (List.mem_cons_of_mem _ hy), h.outer x List.mem_cons_self,
      fun e sub he hsub => ?_⟩
    cases he
    cases hsub
    exact h.current

/-- A dispatch wraps only for routers at and below the one that is worked on, whose routes are complete. -/
theorem dispatch (h : s.Keeps) (hids : Registered s.root.routes.flatten s.setup) (hkeyed : s.Keyed) (way : List Nat)
    (req : Request) : (s.move (.dispatch way req)).Keeps := by
  simp only [move]
  cases hway : s.current.below? way with
  | none => exact h.close
  | some r =>
    have hr : s.current.Has r := Router.has_of_below? hway
    have hroot : s.root.Has r := s.has_current.trans hr
    have hkeys := s.has_current.nodup_keys hkeyed.1
    obtain ⟨-, hgrown⟩ := Tree.resolve_transparent (.of req) (hroot.nodup_ids hids.ids)
      (hroot.nodup_keys hkeyed.1) (fun _ he => he) false (h.current.below hr)
    have hapart := hkeyed.1
    rw [keys_root, List.nodup_append] at hapart
    refine ⟨fun p hp => ?_, fun x hx => ?_, (hgrown.above hr).kept h.current hkeys, fun _ _ hopened => by cases hopened⟩
    · rcases hgrown p hp with hp | ⟨R, hR, hkey, -⟩
      · exact h.handlers p hp
      · rw [hkey]
        exact hkeyed.2 _ (hroot.trans hR).mem_keys
    · refine (hgrown.above hr).kept_apart (h.outer x hx) fun k hk hcurrent => ?_
      exact hapart.2.2 k (List.mem_flatMap.mpr ⟨x, List.mem_reverse.mpr hx, hk⟩) k hcurrent rfl

theorem move (h : s.Keeps) (hids : Registered s.root.routes.flatten s.setup) (hkeyed : s.Keyed) (m : Move H) :
    (s.move m).Keeps := by
  cases m with
  | close => exact h.close
  | set x => exact h.set x
  | middleware m => exact h.middleware m
  | route =>
    refine ⟨h.handlers, h.outer, h.current, fun e sub he hsub => ?_⟩
    cases he
    cases hsub
  | call c => exact h.call c
  | enter => exact h.enter
  | leave => exact h.leave
  | dispatch way req => exact h.dispatch hids hkeyed way req
  | forgetPatterns => exact ⟨h.handlers, h.outer, h.current, fun _ _ hopened => by cases hopened⟩
  | elsewhere routes routers patterns =>
    exact ⟨fun p hp => Nat.lt_add_right _ (h.handlers p hp), h.outer, h.router, h.opened⟩

end Keeps

theorem run_keeps_fresh (cache : PatternCache) (history : List (Action H)) :
    ((new cache).run history).Keyed ∧ ((new cache).run history).Keeps := by
  have hkeyed : (new (H := H) cache).Keyed := ⟨List.nodup_singleton _, fun k hk => by
    rw [List.mem_singleton.mp hk]
    exact Nat.zero_lt_one⟩
  have hkeeps : (new (H := H) cache).Keeps := ⟨fun p hp => absurd hp List.not_mem_nil,
    fun x hx => absurd hx List.not_mem_nil, Wraps.kept_new _, fun _ _ hopened => by cases hopened⟩
  have hall := run_keeps
    (P := fun s : Session H => Registered s.root.routes.flatten s.setup ∧ s.Keyed ∧ s.Keeps)
    (fun s m ⟨hids, hkeyed, hkeeps⟩ => ⟨(s.move_effect m).registered hids, hkeyed.move m, hkeeps.move hids hkeyed m⟩)
    ⟨run_registered cache [], hkeyed, hkeeps⟩ history
  exact hall.2

/-- Handlers kept from before never show. After every history of a tree, a dispatch on any of its routers returns
what it returns when every router wraps afresh: a match has the handler of its own route inside the middlewares that
the routers on the way to it have now, and no handler if the route has none; a failure has the plain handler that a
router has for it, and nothing is wrapped. -/
theorem run_dispatch (cache : PatternCache) (history : List (Action H)) (r : Router H)
    (hr : ((new cache).run history).root.Has r) (req : Request) :
    let kept := ((new cache).run history).wraps
    (r.dispatch req kept).1 = (r.dispatch req .new).1 ∧
    (∀ route handler vars, (r.dispatch req kept).1 = .matched route handler vars →
      (∃ way sub, r.Leads way ⟨route, sub⟩) ∧
      ∀ way sub, r.Leads way ⟨route, sub⟩ → handler = route.handler.map fun h =>
        ((r.settings :: way.map (·.2.settings)).flatMap (·.middlewares)).foldr (fun m next => m.wrap next) h) ∧
    ∀ e fallback, (r.dispatch req kept).1 = .failed e fallback →
      (r.dispatch req kept).2 = kept ∧ ∃ below, r.Has below ∧ fallback = below.settings.fallback e := by
  intro kept
  obtain ⟨hkeyed, hkeeps⟩ := run_keeps_fresh cache history
  have hids := hr.nodup_ids (run_registered cache history).ids
  obtain ⟨⟨heq, hmatched, hfailed⟩, -⟩ := Tree.resolve_transparent (.of req) hids
    (hr.nodup_keys hkeyed.1) (fun _ he => he) false (hkeeps.root.below hr)
  refine ⟨heq, fun route handler vars h => ?_, fun e fallback h => ⟨?_, hfailed e fallback h⟩⟩
  · obtain ⟨way, sub, hway, rfl⟩ := hmatched route handler vars h
    refine ⟨⟨way, sub, hway⟩, fun way' sub' hway' => ?_⟩
    obtain ⟨rfl, -⟩ := hway'.eq_of_id hids hway rfl
    rfl
  · rw [Router.dispatch, Tree.resolve_failed h]

/-- The router below keeps what it has wrapped, and the root wraps it again with its second middleware. -/
theorem run_dispatch_new_middleware :
    let mark (name : String) : Middleware (List String) := ⟨name, (name :: ·)⟩
    let req : Request := .new .get ⟨none, none, "/", none⟩ [] none
    let s := (new .new).run [.move (.middleware (mark "first")), .move .route, .move .enter,
      .move (.middleware (mark "inner")), .move .route, .move (.call (.handler ["page"])), .move (.dispatch [] req),
      .move .leave, .move .close, .move (.dispatch [] req), .move (.middleware (mark "second"))]
    s.wraps.handlers = [((1, 1), ["inner", "page"])] ∧
      ∃ route vars, (s.root.dispatch req s.wraps).1 =
        .matched route (some ["first", "second", "inner", "page"]) vars := by
  intro mark req s
  have hfresh := (run_dispatch .new _ s.root (.self _) req).1
  exact ⟨rfl, _, _, hfresh.trans rfl⟩

end Session

end RequestRouter
