import RequestRouter.Proofs.Router.Sessions
import RequestRouter.Proofs.Table.Regular
/-!
Names of routes. The routers of a tree share one registry of names, and every route has a name of its own. The two
are set by the same call, and they agree at every moment.
-/
namespace RequestRouter

variable {H : Type}

namespace Tree

theorem leads_of_find? {id : RouteId} {t : Tree H} (settings : Settings H) {e : Entry H} (h : t.find? id = some e) :
    (∃ way, (Router.mk settings t).Leads way e) ∧ e.route.id = id := by
  induction t generalizing settings with
  | nil => cases h
  | leaf r rest ih =>
    rw [find?] at h
    split at h
    · rename_i hid
      cases h
      exact ⟨⟨[], .here List.mem_cons_self⟩, hid⟩
    · obtain ⟨⟨way, hway⟩, hid⟩ := ih settings h
      exact ⟨⟨way, hway.mono fun x hx => List.mem_cons_of_mem _ hx⟩, hid⟩
  | mount r s inner rest ihInner ihRest =>
    rw [find?] at h
    split at h
    · rename_i hid
      cases h
      exact ⟨⟨[], .here List.mem_cons_self⟩, hid⟩
    · rcases Option.or_eq_some_iff.mp h with h | ⟨-, h⟩
      · obtain ⟨⟨way, hway⟩, hid⟩ := ihInner s h
        exact ⟨⟨(r, ⟨s, inner⟩) :: way, .through List.mem_cons_self hway⟩, hid⟩
      · obtain ⟨⟨way, hway⟩, hid⟩ := ihRest settings h
        exact ⟨⟨way, hway.mono fun x hx => List.mem_cons_of_mem _ hx⟩, hid⟩

theorem find?_eq_none (id : RouteId) (t : Tree H) : t.find? id = none ↔ ∀ r ∈ t.flatten, r.id ≠ id := by
  induction t with
  | nil => simp [find?, flatten]
  | leaf r rest ih =>
    simp only [find?, flatten, List.forall_mem_cons, ← ih]
    by_cases h : r.id = id <;> simp [h]
  | mount r s inner rest ihInner ihRest =>
    simp only [find?, flatten, List.forall_mem_cons, List.forall_mem_append, ← ihInner, ← ihRest]
    by_cases h : r.id = id <;> simp [h]

end Tree

theorem Router.find?_eq_some {r : Router H} (h : (r.routes.flatten.map (·.id)).Nodup) {id : RouteId} {e : Entry H} :
    r.routes.find? id = some e ↔ (∃ way, r.Leads way e) ∧ e.route.id = id := by
  refine ⟨fun hfind => Tree.leads_of_find? r.settings hfind, ?_⟩
  rintro ⟨⟨way, hway⟩, rfl⟩
  cases hfind : r.routes.find? e.route.id with
  | none => exact absurd rfl ((Tree.find?_eq_none _ _).mp hfind _ hway.mem_flatten)
  | some e' =>
    obtain ⟨⟨way', hway'⟩, hid⟩ := Tree.leads_of_find? r.settings hfind
    rw [(hway'.eq_of_id h hway hid).2]

def Route.label? (r : Route H) : Option (String × RouteId) := r.name.map (·, r.id)

theorem Route.label?_eq_some {r : Route H} {n : String} {id : RouteId} :
    r.label? = some (n, id) ↔ r.name = some n ∧ r.id = id := by
  simp [label?]

/-- The same names and the same next identities: only compiled patterns may differ. -/
def Setup.Shares (st' st : Setup) : Prop :=
  st'.names = st.names ∧ st'.nextRoute = st.nextRoute ∧ st'.nextRouter = st.nextRouter

namespace Call

/-- What a call does to names: it leaves all of them, or a route without a name gets one that is free. -/
inductive Naming (r : Route H) (st : Setup) (r' : Route H) (st' : Setup) : Prop where
  | same (hname : r'.name = r.name) (hnames : st'.names = st.names)
  | new (n : String) (hr : r.name = none) (hfree : st.names.lookup n = none) (hname : r'.name = some n)
    (hnames : st'.names = (n, r.id) :: st.names)

/-- What a call keeps of a route and of the next identities, and what it does to names. -/
structure Named (r : Route H) (st : Setup) (r' : Route H) (st' : Setup) : Prop where
  id : r'.id = r.id
  scope : r'.scope = r.scope
  nextRoute : st'.nextRoute = st.nextRoute
  nextRouter : st'.nextRouter = st.nextRouter
  naming : Naming r st r' st'

variable {r : Route H} {st : Setup}

theorem Named.same {r' : Route H} {st' : Setup} (hid : r'.id = r.id) (hscope : r'.scope = r.scope)
    (hname : r'.name = r.name) (hsetup : st'.Shares st) : Named r st r' st' :=
  ⟨hid, hscope, hsetup.2.1, hsetup.2.2, .same hname hsetup.1⟩

theorem compile_shares {source : String} {kind : TemplateKind} {x : Except RouteError Template} {st' : Setup}
    (h : compile r st source kind = (x, st')) : st'.Shares st := by
  obtain rfl : (compile r st source kind).2 = st' := by rw [h]
  exact ⟨rfl, rfl, rfl⟩

theorem setHost_named (t : String) : Named r st (setHost t r st).route (setHost t r st).setup := by
  simp only [setHost]
  split <;> rename_i h <;> exact .same rfl rfl rfl (compile_shares h)

theorem setPath_named (t : String) (kind : TemplateKind) :
    Named r st (setPath t kind r st).route (setPath t kind r st).setup := by
  simp only [setPath]
  split
  · exact .same rfl rfl rfl ⟨rfl, rfl, rfl⟩
  · split <;> rename_i h <;> exact .same rfl rfl rfl (compile_shares h)

theorem addQueries_shares (pairs : List (String × String)) (r : Route H) (st : Setup) :
    (addQueries pairs r st).route.id = r.id ∧ (addQueries pairs r st).route.scope = r.scope ∧
      (addQueries pairs r st).route.name = r.name ∧ (addQueries pairs r st).setup.Shares st := by
  induction pairs generalizing r st with
  | nil => exact ⟨rfl, rfl, rfl, rfl, rfl, rfl⟩
  | cons p rest ih =>
    simp only [addQueries]
    split <;> rename_i h
    · exact ⟨rfl, rfl, rfl, compile_shares h⟩
    · obtain ⟨hid, hscope, hname, hnames, hroute, hrouter⟩ := ih _ _
      obtain ⟨hnames', hroute', hrouter'⟩ := compile_shares h
      exact ⟨hid, hscope, hname, hnames.trans hnames', hroute.trans hroute', hrouter.trans hrouter'⟩

theorem setName_named (n : String) : Named r st (setName n r st).route (setName n r st).setup := by
  simp only [setName]
  split
  · exact .same rfl rfl rfl ⟨rfl, rfl, rfl⟩
  · rename_i hr
    split
    · exact .same rfl rfl rfl ⟨rfl, rfl, rfl⟩
    · rename_i hfree
      exact ⟨rfl, rfl, rfl, rfl, .new n hr (Option.not_isSome_iff_eq_none.mp hfree) rfl rfl⟩

theorem attempt_named (r : Route H) (st : Setup) (c : Call H) :
    Named r st (c.attempt r st).route (c.attempt r st).setup := by
  cases c with
  | path t => exact setPath_named t .path
  | leading t => exact setPath_named t .leading
  | host t => exact setHost_named t
  | methods names =>
    simp only [attempt]
    split <;> exact .same rfl rfl rfl ⟨rfl, rfl, rfl⟩
  | headers pairs =>
    simp only [attempt]
    split <;> exact .same rfl rfl rfl ⟨rfl, rfl, rfl⟩
  | headerPatterns pairs =>
    simp only [attempt]
    split <;> exact .same rfl rfl rfl ⟨rfl, rfl, rfl⟩
  | queries pairs =>
    obtain ⟨hid, hscope, hname, hshares⟩ := addQueries_shares pairs r st
    exact .same hid hscope hname hshares
  | schemes names =>
    simp only [attempt, addSchemes, addMatcher]
    split <;> exact .same rfl rfl rfl ⟨rfl, rfl, rfl⟩
  | matcher judge => exact .same rfl rfl rfl ⟨rfl, rfl, rfl⟩
  | transform f => exact .same rfl rfl rfl ⟨rfl, rfl, rfl⟩
  | buildOnly => exact .same rfl rfl rfl ⟨rfl, rfl, rfl⟩
  | name n => exact setName_named n
  | handler h => exact .same rfl rfl rfl ⟨rfl, rfl, rfl⟩

theorem apply_named (r : Route H) (st : Setup) (c : Call H) : Named r st (c.apply r st).1 (c.apply r st).2 := by
  simp only [apply]
  split
  · exact .same rfl rfl rfl ⟨rfl, rfl, rfl⟩
  · obtain ⟨hid, hscope, hroute, hrouter, hnaming⟩ := attempt_named r st c
    refine ⟨hid, hscope, hroute, hrouter, ?_⟩
    cases hnaming with
    | same hname hnames => exact .same hname hnames
    | new n hr hfree hname hnames => exact .new n hr hfree hname hnames

theorem Named.keeps_name {r' : Route H} {st' : Setup} (h : Named r st r' st') {n : String} (hn : r.name = some n) :
    r'.name = some n := by
  cases h.naming with
  | same hname _ => rw [hname, hn]
  | new _ hr => rw [hr] at hn; cases hn

end Call

/-- The registry holds the names of some routes: every name with the route that has it, and nothing else. -/
structure Registered (routes : List (Route H)) (st : Setup) : Prop where
  ids : (routes.map (·.id)).Nodup
  fresh : ∀ r ∈ routes, r.id < st.nextRoute
  keys : (st.names.map (·.1)).Nodup
  labels : st.names.Perm (routes.filterMap Route.label?)

namespace Registered

variable {routes routes' front back : List (Route H)} {r r' : Route H} {st st' : Setup}

theorem snoc (h : Registered routes st) (hid : r.id = st.nextRoute) (hname : r.name = none)
    (hnext : st'.nextRoute = st.nextRoute + 1) (hnames : st'.names = st.names) :
    Registered (routes ++ [r]) st' where
  ids := by
    rw [List.map_append, List.map_singleton, List.nodup_append]
    refine ⟨h.ids, List.nodup_singleton _, ?_⟩
    rintro _ hmem _ hlast rfl
    obtain ⟨x, hx, hxid⟩ := List.mem_map.mp hmem
    have hlt := h.fresh x hx
    rw [hxid, List.mem_singleton.mp hlast, hid] at hlt
    exact Nat.lt_irrefl _ hlt
  fresh x hx := by
    rcases List.mem_append.mp hx with hx | hx
    · rw [hnext]
      exact Nat.lt_succ_of_lt (h.fresh x hx)
    · rw [List.mem_singleton.mp hx, hid, hnext]
      exact Nat.lt_succ_self _
  keys := hnames ▸ h.keys
  labels := by
    have hlabel : r.label? = none := by rw [Route.label?, hname]; rfl
    rw [hnames, List.filterMap_append, List.filterMap_cons_none hlabel, List.filterMap_nil, List.append_nil]
    exact h.labels

theorem call (h : Registered (front ++ r :: back) st) (hcall : Call.Named r st r' st') :
    Registered (front ++ r' :: back) st' := by
  have hids : (front ++ r' :: back).map (·.id) = (front ++ r :: back).map (·.id) := by
    rw [List.map_append, List.map_append, List.map_cons, List.map_cons, hcall.id]
  have hfresh : ∀ x ∈ front ++ r' :: back, x.id < st'.nextRoute := by
    intro x hx
    have hmem : x.id ∈ (front ++ r :: back).map (·.id) := hids ▸ List.mem_map_of_mem hx
    obtain ⟨y, hy, hyid⟩ := List.mem_map.mp hmem
    rw [hcall.nextRoute, ← hyid]
    exact h.fresh y hy
  have hlabels := h.labels
  rw [List.filterMap_append] at hlabels
  cases hcall.naming with
  | same hname hnames =>
    refine ⟨hids ▸ h.ids, hfresh, hnames ▸ h.keys, ?_⟩
    have hlabel : r'.label? = r.label? := by rw [Route.label?, Route.label?, hname, hcall.id]
    rw [hnames, List.filterMap_append]
    simpa only [List.filterMap_cons, hlabel] using hlabels
  | new n hr hfree hname hnames =>
    refine ⟨hids ▸ h.ids, hfresh, ?_, ?_⟩
    · rw [hnames, List.map_cons, List.nodup_cons]
      refine ⟨fun hmem => ?_, h.keys⟩
      obtain ⟨p, hp, hpn⟩ := List.mem_map.mp hmem
      have hne := List.lookup_eq_none_iff.mp hfree p hp
      simp [hpn] at hne
    · have hlabel : r.label? = none := by rw [Route.label?, hr]; rfl
      have hlabel' : r'.label? = some (n, r.id) := by rw [Route.label?, hname, hcall.id]; rfl
      rw [List.filterMap_cons_none hlabel] at hlabels
      rw [hnames, List.filterMap_append, List.filterMap_cons_some hlabel']
      exact (hlabels.cons _).trans List.perm_middle.symm

theorem names_nodup (h : Registered routes st) : (routes.filterMap (·.name)).Nodup := by
  have hnames : routes.filterMap (·.name) = (routes.filterMap Route.label?).map (·.1) := by
    rw [List.map_filterMap]
    exact List.filterMap_congr fun r _ => by simp [Route.label?, Function.comp_def]
  rw [hnames]
  exact (h.labels.map _).nodup_iff.mp h.keys

theorem lookup_eq_some (h : Registered routes st) {n : String} {id : RouteId} :
    st.names.lookup n = some id ↔ ∃ r ∈ routes, r.name = some n ∧ r.id = id := by
  have hmem : (n, id) ∈ st.names ↔ ∃ r ∈ routes, r.name = some n ∧ r.id = id := by
    simp only [h.labels.mem_iff, List.mem_filterMap, Route.label?_eq_some]
  rw [← hmem, List.lookup_eq_some_iff]
  refine ⟨?_, fun hp => ?_⟩
  · rintro ⟨l, l', heq, -⟩
    rw [heq]
    exact List.mem_append_right _ List.mem_cons_self
  · obtain ⟨l, l', heq⟩ := List.append_of_mem hp
    refine ⟨l, l', heq, fun p hpl => bne_iff_ne.mpr ?_⟩
    rintro rfl
    have hkeys := h.keys
    rw [heq, List.map_append, List.nodup_append] at hkeys
    exact hkeys.2.2 _ (List.mem_map_of_mem hpl) _ List.mem_cons_self rfl

theorem filter_name (h : Registered routes st) (hr : r ∈ routes) {n : String} (hn : r.name = some n) :
    routes.filter (fun x => x.name == some n) = [r] := by
  obtain ⟨l, l', rfl⟩ := List.append_of_mem hr
  have hnames := h.names_nodup
  rw [List.filterMap_append, List.filterMap_cons_some hn, List.nodup_middle, List.nodup_cons,
    List.mem_append, List.mem_filterMap, List.mem_filterMap] at hnames
  have hother : ∀ x, x ∈ l ∨ x ∈ l' → ¬ (x.name == some n) = true := by
    intro x hx hname
    exact hnames.1 (hx.imp (fun hx => ⟨x, hx, eq_of_beq hname⟩) fun hx => ⟨x, hx, eq_of_beq hname⟩)
  have hself : (r :: l').filter (fun x => x.name == some n) = r :: l'.filter (fun x => x.name == some n) :=
    List.filter_cons_of_pos (beq_iff_eq.mpr hn)
  rw [List.filter_append, hself, List.filter_eq_nil_iff.mpr fun x hx => hother x (.inl hx),
    List.filter_eq_nil_iff.mpr fun x hx => hother x (.inr hx), List.nil_append]

/-- The registry has a name if and only if exactly one route has it. -/
theorem lookup_iff_filter (h : Registered routes st) {n : String} {id : RouteId} :
    st.names.lookup n = some id ↔ ∃ r, routes.filter (fun x => x.name == some n) = [r] ∧ r.id = id := by
  rw [h.lookup_eq_some]
  constructor
  · rintro ⟨r, hr, hn, hid⟩
    exact ⟨r, h.filter_name hr hn, hid⟩
  · rintro ⟨r, hfilter, hid⟩
    obtain ⟨hr, hn⟩ := List.mem_filter.mp (hfilter ▸ List.mem_singleton_self r)
    exact ⟨r, hr, eq_of_beq hn, hid⟩

theorem named?_eq_some {root R : Router H} (h : Registered root.routes.flatten st) (hR : root.Has R) {n : String}
    {e : Entry H} : R.named? st n = some e ↔ (∃ way, R.Leads way e) ∧ e.route.name = some n := by
  have hids := hR.nodup_ids h.ids
  rw [Router.named?, Option.bind_eq_some_iff]
  constructor
  · rintro ⟨id, hlookup, hfind⟩
    obtain ⟨⟨way, hway⟩, hid⟩ := (Router.find?_eq_some hids).mp hfind
    obtain ⟨r, hr, hn, hrid⟩ := h.lookup_eq_some.mp hlookup
    obtain ⟨front, hfront⟩ := hR.leads hway
    have hsame : e.route = r := List.inj_on_of_nodup_map h.ids hfront.mem_flatten hr (hid.trans hrid.symm)
    exact ⟨⟨way, hway⟩, hsame ▸ hn⟩
  · rintro ⟨⟨way, hway⟩, hn⟩
    obtain ⟨front, hfront⟩ := hR.leads hway
    exact ⟨e.route.id, h.lookup_eq_some.mpr ⟨e.route, hfront.mem_flatten, hn, rfl⟩,
      (Router.find?_eq_some hids).mpr ⟨⟨way, hway⟩, rfl⟩⟩

end Registered

namespace Session

/-- The routes of the routers around, with the mounts through which the work goes on. -/
def around (outer : List (Router H × Route H)) : List (Route H) :=
  outer.reverse.flatMap fun x => x.1.routes.flatten ++ [x.2]

theorem flatten_current (s : Session H) :
    s.current.routes.flatten = s.router.routes.flatten ++ s.opened.elim [] Entry.flatten := by
  obtain ⟨outer, r, opened, st, w⟩ := s
  cases opened with
  | none => exact (List.append_nil _).symm
  | some e => exact Tree.flatten_push _ _

theorem flatten_root (s : Session H) : s.root.routes.flatten = around s.outer ++ s.current.routes.flatten :=
  contribution_root (f := fun r => r.routes.flatten) (g := fun mount => [mount])
    (fun r mount sub => Tree.flatten_push r.routes ⟨mount, some sub⟩) s

theorem flatten_opened {s : Session H} {e : Entry H} (h : s.opened = some e) :
    s.root.routes.flatten =
      (around s.outer ++ s.router.routes.flatten) ++ e.route :: e.sub.elim [] (·.routes.flatten) := by
  rw [flatten_root, flatten_current, h, List.append_assoc]
  rfl

/-- A move that is no call leaves the routes and the names as they are, and may create a route. -/
theorem move_routes (s : Session H) {m : Move H} (hm : ∀ c, m ≠ .call c) :
    (s.move m).setup.names = s.setup.names ∧
    ((s.move m).root.routes.flatten = s.root.routes.flatten ∧ s.setup.nextRoute ≤ (s.move m).setup.nextRoute ∨
      (s.move m).root.routes.flatten =
          s.root.routes.flatten ++ [.new s.current.settings.scope s.setup.nextRoute] ∧
        (s.move m).setup.nextRoute = s.setup.nextRoute + 1) := by
  have hcurrent : ∀ s' : Session H, s'.outer = s.outer → s'.current.routes = s.current.routes →
      s'.root.routes.flatten = s.root.routes.flatten := fun s' houter hroutes => by
    rw [flatten_root, flatten_root, houter, hroutes]
  cases m with
  | close => exact ⟨rfl, .inl ⟨hcurrent _ rfl rfl, le_rfl⟩⟩
  | set x => exact ⟨rfl, .inl ⟨hcurrent _ rfl rfl, le_rfl⟩⟩
  | middleware m => exact ⟨rfl, .inl ⟨hcurrent _ rfl rfl, le_rfl⟩⟩
  | route =>
    refine ⟨rfl, .inr ⟨?_, rfl⟩⟩
    rw [flatten_root, flatten_root, flatten_current, List.append_assoc]
    rfl
  | call c => exact absurd rfl (hm c)
  | enter =>
    obtain ⟨outer, r, opened, st, w⟩ := s
    cases opened with
    | none => exact ⟨rfl, .inl ⟨rfl, le_rfl⟩⟩
    | some e =>
      obtain ⟨mount, sub⟩ := e
      cases sub with
      | none =>
        refine ⟨rfl, .inl ⟨?_, le_rfl⟩⟩
        rw [flatten_root, flatten_root, flatten_current, flatten_current]
        simp [move, around, Entry.flatten, Entry.subrouter, Router.new, Tree.flatten]
      | some sub =>
        refine ⟨rfl, .inl ⟨?_, le_rfl⟩⟩
        rw [flatten_root, flatten_root, flatten_current, flatten_current]
        simp [move, around, Entry.flatten, Entry.subrouter]
  | leave =>
    obtain ⟨outer, r, opened, st, w⟩ := s
    cases outer with
    | nil => exact ⟨rfl, .inl ⟨rfl, le_rfl⟩⟩
    | cons f outer => exact ⟨rfl, .inl ⟨rfl, le_rfl⟩⟩
  | dispatch way req =>
    simp only [move]
    split <;> exact ⟨rfl, .inl ⟨rfl, le_rfl⟩⟩
  | forgetPatterns => exact ⟨rfl, .inl ⟨rfl, le_rfl⟩⟩
  | elsewhere routes routers patterns => exact ⟨rfl, .inl ⟨rfl, Nat.le_add_right _ _⟩⟩

/-- Everything a move can do to the routes of a tree and to what their names and identities depend on. -/
inductive Effect (routes : List (Route H)) (st : Setup) (routes' : List (Route H)) (st' : Setup) : Prop where
  | same (hroutes : routes' = routes) (hnext : st.nextRoute ≤ st'.nextRoute) (hnames : st'.names = st.names)
  | route (scope : Scope) (hroutes : routes' = routes ++ [.new scope st.nextRoute])
    (hnext : st'.nextRoute = st.nextRoute + 1) (hnames : st'.names = st.names)
  | call (c : Call H) (front back : List (Route H)) (r : Route H) (hroutes : routes = front ++ r :: back)
    (hroutes' : routes' = front ++ (c.apply r st).1 :: back) (hsetup : st' = (c.apply r st).2)

theorem move_effect (s : Session H) (m : Move H) :
    Effect s.root.routes.flatten s.setup (s.move m).root.routes.flatten (s.move m).setup := by
  by_cases hm : ∃ c, m = .call c
  · obtain ⟨c, rfl⟩ := hm
    obtain ⟨outer, r, opened, st, w⟩ := s
    cases opened with
    | none => exact .same rfl le_rfl rfl
    | some e =>
      let called : Session H := ⟨outer, r, some { e with route := (c.apply e.route st).1 }, (c.apply e.route st).2, w⟩
      exact .call c _ _ e.route (flatten_opened rfl) (flatten_opened (s := called) rfl) rfl
  · obtain ⟨hnames, ⟨hroutes, hnext⟩ | ⟨hroutes, hnext⟩⟩ := s.move_routes fun c hc => hm ⟨c, hc⟩
    · exact .same hroutes hnext hnames
    · exact .route _ hroutes hnext hnames

end Session

namespace Session.Effect

variable {routes routes' : List (Route H)} {st st' : Setup}

theorem registered (h : Effect routes st routes' st') (hr : Registered routes st) : Registered routes' st' := by
  cases h with
  | same hroutes hnext hnames =>
    subst hroutes
    exact ⟨hr.ids, fun r hmem => Nat.lt_of_lt_of_le (hr.fresh r hmem) hnext, hnames ▸ hr.keys, hnames ▸ hr.labels⟩
  | route scope hroutes hnext hnames =>
    subst hroutes
    exact hr.snoc rfl rfl hnext hnames
  | call c front back r hroutes hroutes' hsetup =>
    subst hroutes hroutes' hsetup
    exact hr.call (c.apply_named r st)

/-- A route stays in the tree and keeps its identity and the name it has. -/
theorem keeps (h : Effect routes st routes' st') {r : Route H} (hr : r ∈ routes) :
    ∃ r' ∈ routes', r'.id = r.id ∧ ∀ n, r.name = some n → r'.name = some n := by
  cases h with
  | same hroutes => exact ⟨r, hroutes ▸ hr, rfl, fun _ hn => hn⟩
  | route scope hroutes => exact ⟨r, hroutes ▸ List.mem_append_left _ hr, rfl, fun _ hn => hn⟩
  | call c front back x hroutes hroutes' hsetup =>
    subst hroutes hroutes'
    have hcall := c.apply_named x st
    rcases List.mem_append.mp hr with hr | hr
    · exact ⟨r, List.mem_append_left _ hr, rfl, fun _ hn => hn⟩
    · rcases List.mem_cons.mp hr with rfl | hr
      · exact ⟨_, List.mem_append_right _ List.mem_cons_self, hcall.id, fun _ hn => hcall.keeps_name hn⟩
      · exact ⟨r, List.mem_append_right _ (List.mem_cons_of_mem _ hr), rfl, fun _ hn => hn⟩

end Session.Effect

namespace Session

theorem run_registered (cache : PatternCache) (history : List (Action H)) :
    Registered ((new cache).run history).root.routes.flatten ((new cache).run history).setup := by
  have hnew : Registered (new (H := H) cache).root.routes.flatten (new (H := H) cache).setup :=
    ⟨List.nodup_nil, List.forall_mem_nil _, List.nodup_nil, .nil⟩
  exact run_keeps (P := fun s => Registered s.root.routes.flatten s.setup)
    (fun s m h => (s.move_effect m).registered h) hnew history

theorem run_keeps_route {s : Session H} {r : Route H} (hr : r ∈ s.root.routes.flatten) (history : List (Action H)) :
    ∃ r' ∈ (s.run history).root.routes.flatten, r'.id = r.id ∧ ∀ n, r.name = some n → r'.name = some n := by
  refine run_keeps (P := fun s => ∃ r' ∈ s.root.routes.flatten, r'.id = r.id ∧ ∀ n, r.name = some n → r'.name = some n)
    ?_ ⟨r, hr, rfl, fun _ hn => hn⟩ history
  rintro s m ⟨x, hx, hid, hname⟩
  obtain ⟨x', hx', hid', hname'⟩ := (s.move_effect m).keeps hx
  exact ⟨x', hx', hid'.trans hid, fun n hn => hname' n (hname n hn)⟩

/-- At every moment of every history of a tree: identities and names are given once; the registry has a name if and
only if exactly one route has it, with the identity of that route; a route keeps its identity and its name from then
on; and every router finds by name the routes that are in it or below it. -/
theorem run_names (cache : PatternCache) (history later : List (Action H)) :
    let s := (new cache).run history
    let routes := s.root.routes.flatten
    (routes.map (·.id)).Nodup ∧ (routes.filterMap (·.name)).Nodup ∧
    (∀ n id, s.setup.names.lookup n = some id ↔
      ∃ r, routes.filter (fun x => x.name == some n) = [r] ∧ r.id = id) ∧
    (∀ r ∈ routes, ∃ r' ∈ ((new cache).run (history ++ later)).root.routes.flatten,
      r'.id = r.id ∧ ∀ n, r.name = some n → r'.name = some n) ∧
    ∀ R, s.root.Has R → ∀ n e, R.named? s.setup n = some e ↔ (∃ way, R.Leads way e) ∧ e.route.name = some n := by
  intro s routes
  have h : Registered routes s.setup := run_registered cache history
  refine ⟨h.ids, h.names_nodup, fun n id => h.lookup_iff_filter, fun r hr => ?_, fun R hR n e => h.named?_eq_some hR⟩
  rw [run_append]
  exact run_keeps_route hr later

/-- A route below a mount that asks for a second name, and later for one more, keeps the first one. -/
theorem run_names_renamed :
    let history : List (Action Nat) := [.move .route, .move (.call (.name "users")), .move .enter, .move .route,
      .move (.call (.name "user")), .move (.call (.name "users"))]
    let s := (new .new).run history
    ∃ e, s.root.Has s.current ∧ s.current.named? s.setup "user" = some e ∧
      e.route.error = some (.routeAlreadyNamed "user" "users") ∧
      ∃ r' ∈ ((new .new).run (history ++ [.move (.call (.name "member"))])).root.routes.flatten,
        r'.id = e.route.id ∧ r'.name = some "user" := by
  intro history s
  obtain ⟨-, -, -, hkeep, hfind⟩ := run_names .new history [.move (.call (.name "member"))]
  obtain ⟨e, he⟩ : ∃ e, s.opened = some e := ⟨_, rfl⟩
  have hbelow : s.root.Has s.current := .through List.mem_cons_self (.self _)
  have hname : e.route.name = some "user" := by
    cases he
    rfl
  have hway : s.current.Leads [] e := by
    cases he
    exact .here List.mem_cons_self
  refine ⟨e, hbelow, (hfind _ hbelow "user" e).mpr ⟨⟨[], hway⟩, hname⟩, ?_, ?_⟩
  · cases he
    rfl
  · obtain ⟨front, hfront⟩ := hbelow.leads hway
    obtain ⟨r', hr', hid, hkept⟩ := hkeep e.route hfront.mem_flatten
    exact ⟨r', hr', hid, hkept "user" hname⟩

end Session

end RequestRouter
