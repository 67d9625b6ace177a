import RequestRouter.Proofs.Router.Names
import RequestRouter.Proofs.Router.Templates
import RequestRouter.Router.Url
/-!
Errors of routes. The first call that fails leaves its error on the route. From then on calls on the route do nothing,
no URL is built from it, and every router above acts as if the route and the routes below it were not there.
-/
namespace RequestRouter

open RequestRouter.Http

variable {H : Type}

/-- An element of a list with what is before it: the first, or one of the others with the first before it. -/
theorem exists_split_cons {α : Type} {P : List α → α → Prop} {d : α} {l : List α} :
    (∃ before c after, d :: l = before ++ c :: after ∧ P before c) ↔
      P [] d ∨ ∃ before c after, l = before ++ c :: after ∧ P (d :: before) c := by
  constructor
  · rintro ⟨_ | ⟨d', before⟩, c, after, heq, h⟩
    · obtain ⟨rfl, -⟩ := List.cons.inj heq
      exact .inl h
    · obtain ⟨rfl, rfl⟩ := List.cons.inj heq
      exact .inr ⟨before, c, after, rfl, h⟩
  · rintro (h | ⟨before, c, after, rfl, h⟩)
    · exact ⟨[], d, l, rfl, h⟩
    · exact ⟨d :: before, c, after, rfl, h⟩

namespace Call

variable {r : Route H} {st : Setup}

theorem apply_of_error (c : Call H) (h : r.error.isSome = true) : c.apply r st = (r, st) := if_pos h

theorem apply_of_no_error (c : Call H) (h : r.error = none) :
    c.apply r st = ({ (c.attempt r st).route with error := (c.attempt r st).fault }, (c.attempt r st).setup) :=
  if_neg (by simp [h])

theorem error_applyAll_iff (h : r.error = none) (calls : List (Call H)) (e : RouteError) :
    (applyAll calls r st).1.error = some e ↔ ∃ before c after, calls = before ++ c :: after ∧
      (applyAll before r st).1.error = none ∧
      (c.attempt (applyAll before r st).1 (applyAll before r st).2).fault = some e := by
  induction calls generalizing r st with
  | nil =>
    refine iff_of_false (fun he => ?_) ?_
    · cases h.symm.trans he
    · rintro ⟨before, c, after, heq, -⟩
      simp at heq
  | cons d calls ih =>
    rw [exists_split_cons, applyAll_cons]
    cases hfault : (d.attempt r st).fault with
    | none =>
      have hnext : (d.apply r st).1.error = none := by rw [apply_of_no_error d h, hfault]
      rw [ih hnext]
      refine (or_iff_right fun hfirst => ?_).symm
      cases hfault.symm.trans hfirst.2
    | some e' =>
      -- The first call fails, and the others change nothing.
      have hnext : (d.apply r st).1.error = some e' := by rw [apply_of_no_error d h, hfault]
      have hstays : ∀ later, (applyAll later (d.apply r st).1 (d.apply r st).2).1.error = some e' := fun later => by
        rw [applyAll_of_error later (by simp [hnext]), hnext]
      rw [hstays]
      constructor
      · rintro ⟨⟩
        exact .inl ⟨h, hfault⟩
      · rintro (⟨-, he⟩ | ⟨before, c, after, -, hbefore, -⟩)
        · exact hfault.symm.trans he
        · cases (hstays before).symm.trans hbefore

end Call

namespace Route

variable {r : Route H} {view : View} {isMount : Bool}

theorem check_of_error (h : r.error.isSome = true) : r.check view isMount = none := if_pos h

theorem admits_of_error (h : r.error.isSome = true) : r.admits view isMount = false := by
  simp [admits, check_of_error h]

theorem missesMethod_of_error (h : r.error.isSome = true) : r.missesMethod view isMount = false := by
  simp [missesMethod, check_of_error h]

theorem url_of_error {e : RouteError} (h : r.error = some e) (pairs : List (String × String)) :
    r.url pairs = .error e ∧ r.urlHost pairs = .error e ∧ r.urlPath pairs = .error e := by
  have hprepare : r.prepare pairs = .error e := by simp [prepare, h]
  simp only [url, urlHost, urlPath, hprepare]
  exact ⟨rfl, rfl, rfl⟩

end Route

/-- The routes without those that have an identity, and without what is below those. -/
def Tree.without (id : RouteId) : Tree H → Tree H
  | nil => nil
  | leaf r rest => if r.id = id then without id rest else leaf r (without id rest)
  | mount r s inner rest =>
    if r.id = id then without id rest else mount r s (without id inner) (without id rest)

/-- The router without the routes that have an identity, and without what is below those. -/
def Router.without (r : Router H) (id : RouteId) : Router H := { r with routes := r.routes.without id }

namespace Tree

variable {id : RouteId} {t : Tree H} {x : Route H}

theorem entries_without (id : RouteId) (t : Tree H) :
    (t.without id).entries =
      (t.entries.filter fun e => e.route.id ≠ id).map fun e => ⟨e.route, e.sub.map (·.without id)⟩ := by
  induction t with
  | nil => rfl
  | leaf r rest ih => by_cases h : r.id = id <;> simp [without, entries, h, ih]
  | mount r s inner rest _ ih => by_cases h : r.id = id <;> simp [without, entries, h, ih, Router.without]

theorem mem_of_mem_without (h : x ∈ (t.without id).flatten) : x ∈ t.flatten := by
  induction t with
  | nil => exact h
  | leaf r rest ih =>
    rw [without] at h
    split at h
    · exact List.mem_cons_of_mem _ (ih h)
    · exact List.mem_cons.mpr ((List.mem_cons.mp h).imp_right ih)
  | mount r s inner rest ihInner ihRest =>
    rw [without] at h
    split at h
    · exact List.mem_cons_of_mem _ (List.mem_append_right _ (ihRest h))
    · rw [flatten, List.mem_cons, List.mem_append] at h ⊢
      exact h.imp_right (Or.imp ihInner ihRest)

theorem exists_of_mem_without (h : x ∈ (t.without id).flatten) :
    ∃ e ∈ t.entries, e.route.id ≠ id ∧ x ∈ e.flatten ∧
      (x = e.route ∨ ∃ sub, e.sub = some sub ∧ x ∈ (sub.without id).routes.flatten) := by
  rw [flatten_eq, entries_without] at h
  obtain ⟨_, hmem, hx⟩ := List.mem_flatMap.mp h
  obtain ⟨⟨route, sub⟩, he, rfl⟩ := List.mem_map.mp hmem
  obtain ⟨he, hid⟩ := List.mem_filter.mp he
  refine ⟨_, he, of_decide_eq_true hid, ?_⟩
  rcases List.mem_cons.mp hx with rfl | hbelow
  · exact ⟨List.mem_cons_self, .inl rfl⟩
  · cases sub with
    | none => cases hbelow
    | some sub => exact ⟨List.mem_cons_of_mem _ (mem_of_mem_without hbelow), .inr ⟨sub, rfl, hbelow⟩⟩

theorem resolve_without (h : ∀ r ∈ t.flatten, r.id = id → r.error.isSome = true) (s : Settings H) (view : View)
    (mismatch : Bool) (w : Wraps H) :
    resolve s view (t.without id) mismatch w = resolve s view t mismatch w := by
  induction t generalizing s mismatch w with
  | nil => rfl
  | leaf r rest ih =>
    obtain ⟨hr, hrest⟩ := List.forall_mem_cons.mp h
    rw [without]
    split
    · rename_i hid
      have herror := hr hid
      rw [resolve_leaf_of_not_admits (Route.admits_of_error herror), Route.missesMethod_of_error herror,
        Bool.or_false]
      exact ih hrest s mismatch w
    · simp only [resolve, ih hrest]
  | mount r below inner rest ihInner ihRest =>
    obtain ⟨hr, hbelow⟩ := List.forall_mem_cons.mp h
    obtain ⟨hinner, hrest⟩ := List.forall_mem_append.mp hbelow
    rw [without]
    split
    · rename_i hid
      have herror := hr hid
      rw [resolve_mount_of_not_admits (Route.admits_of_error herror), Route.missesMethod_of_error herror,
        Bool.or_false]
      exact ihRest hrest s mismatch w
    · simp only [resolve, ihInner hinner, ihRest hrest]

theorem allowed_without (h : ∀ r ∈ t.flatten, r.id = id → r.error.isSome = true) (view : View) (out : List Method) :
    allowed view (t.without id) out = allowed view t out := by
  induction t generalizing out with
  | nil => rfl
  | leaf r rest ih =>
    obtain ⟨hr, hrest⟩ := List.forall_mem_cons.mp h
    rw [without]
    split
    · rename_i hid
      rw [allowed, if_pos (.inr (by simp [Route.check_of_error (hr hid)]))]
      exact ih hrest out
    · simp only [allowed, ih hrest]
  | mount r below inner rest ihInner ihRest =>
    obtain ⟨hr, hbelow⟩ := List.forall_mem_cons.mp h
    obtain ⟨hinner, hrest⟩ := List.forall_mem_append.mp hbelow
    rw [without]
    split
    · rename_i hid
      rw [allowed, if_pos (.inr (by simp [Route.check_of_error (hr hid)]))]
      exact ihRest hrest out
    · simp only [allowed, ihInner hinner, ihRest hrest]

end Tree

namespace Router

variable {r : Router H} {e : Entry H}

theorem Leads.mem_flatten_of_mem {way : List (Route H × Router H)} (h : r.Leads way e) {x : Route H}
    (hx : x ∈ e.flatten) : x ∈ r.routes.flatten := by
  induction h with
  | here he => exact mem_flatten_of_entries he hx
  | through hmount _ ih => exact mem_flatten_of_entries hmount (List.mem_cons_of_mem _ (ih hx))

theorem Leads.not_mem_without {way : List (Route H × Router H)} (h : r.Leads way e)
    (hids : (r.routes.flatten.map (·.id)).Nodup) {x : Route H} (hx : x ∈ e.flatten) :
    x ∉ (r.without e.route.id).routes.flatten := by
  -- One entry of a router has the route, be it there or further below.
  have hone : ∀ {r : Router H}, (r.routes.flatten.map (·.id)).Nodup → ∀ {a b : Entry H},
      a ∈ r.routes.entries → b ∈ r.routes.entries → x ∈ a.flatten → x ∈ b.flatten → a = b := by
    intro r hids a b ha hb hxa hxb
    rw [Tree.flatten_eq, List.map_flatMap] at hids
    exact eq_of_mem_flatMap hids ha hb (List.mem_map_of_mem hxa) (List.mem_map_of_mem hxb)
  induction h with
  | @here r e he =>
    intro hleft
    obtain ⟨e', he', hid, hxe', -⟩ := Tree.exists_of_mem_without hleft
    obtain rfl := hone hids he he' hx hxe'
    exact hid rfl
  | @through r sub mount way e hmount hway ih =>
    intro hleft
    obtain ⟨e', he', -, hxe', hxleft⟩ := Tree.exists_of_mem_without hleft
    have hxsub := hway.mem_flatten_of_mem hx
    obtain rfl := hone hids hmount he' (List.mem_cons_of_mem _ hxsub) hxe'
    rw [Tree.flatten_eq, List.map_flatMap] at hids
    have hnodup := (List.nodup_flatMap.mp hids).1 _ hmount
    rw [Entry.flatten, List.map_cons, List.nodup_cons] at hnodup
    rcases hxleft with rfl | ⟨_, hsub, hleft⟩
    · exact hnodup.1 (List.mem_map_of_mem hxsub)
    · cases hsub
      exact ih hnodup.2 hx hleft

/-- The router acts as if a route and the routes below it were not there: it finds none of them, and neither what it
finds, nor how it fails, nor the methods that would do, nor what it wraps depends on them. -/
structure Ignores (r : Router H) (e : Entry H) : Prop where
  dispatch : ∀ req w, r.dispatch req w = (r.without e.route.id).dispatch req w
  outcome : ∀ req w x, (r.dispatch req w).1.outcome = .ok x → x ∉ e.flatten
  allowedMethods : ∀ req, r.allowedMethods req = (r.without e.route.id).allowedMethods req

/-- A route with an error, and what is below it, is ignored by the router that has it and by the routers above. -/
theorem Leads.ignores {way : List (Route H × Router H)} (h : r.Leads way e)
    (hids : (r.routes.flatten.map (·.id)).Nodup) (herror : e.route.error.isSome = true) : r.Ignores e := by
  have hall : ∀ x ∈ r.routes.flatten, x.id = e.route.id → x.error.isSome = true := by
    intro x hx hid
    rw [List.inj_on_of_nodup_map hids hx h.mem_flatten hid]
    exact herror
  have hdispatch : ∀ req w, r.dispatch req w = (r.without e.route.id).dispatch req w := fun req w =>
    (Tree.resolve_without hall r.settings (.of req) false w).symm
  refine ⟨hdispatch, fun req w x hx hmem => ?_, fun req => ?_⟩
  · rw [hdispatch] at hx
    exact h.not_mem_without hids hmem (mem_flatten_of_dispatch hx)
  · exact congrArg Prod.fst (Tree.allowed_without hall (.of req) []).symm

end Router

namespace Session

theorem run_moves (s : Session H) (ms : List (Move H)) : s.run (ms.map .move) = s.moves ms := List.foldl_map

/-- A route with an error stays as it is, whatever happens to the tree. -/
theorem run_keeps_failed {s : Session H} {r : Route H} (hr : r ∈ s.root.routes.flatten)
    (herror : r.error.isSome = true) (later : List (Action H)) : r ∈ (s.run later).root.routes.flatten := by
  refine run_keeps (P := fun s => r ∈ s.root.routes.flatten) (fun s m hr => ?_) hr later
  cases s.move_effect m with
  | same hroutes => rwa [hroutes]
  | route scope hroutes =>
    rw [hroutes]
    exact List.mem_append_left _ hr
  | call c front back x hroutes hroutes' =>
    rw [hroutes, List.mem_append, List.mem_cons] at hr
    rw [hroutes', List.mem_append, List.mem_cons]
    refine hr.imp_right (Or.imp_left ?_)
    rintro rfl
    rw [c.apply_of_error herror]

/-- What a route with an error comes to: it is still there as it was, calls on it change nothing at all, the routers
that have it or are above ignore it, and instead of URLs it gives its error. -/
structure Contains (s : Session H) (route : Route H) (e : RouteError) : Prop where
  stays : route ∈ s.root.routes.flatten
  calls : ∀ sub, s.opened = some ⟨route, sub⟩ → ∀ c, s.move (.call c) = s
  ignored : ∀ r way sub, s.root.Has r → r.Leads way ⟨route, sub⟩ → r.Ignores ⟨route, sub⟩
  urls : ∀ pairs, route.url pairs = .error e ∧ route.urlHost pairs = .error e ∧ route.urlPath pairs = .error e

theorem contains_of_error {s : Session H} {route : Route H} {e : RouteError}
    (hids : (s.root.routes.flatten.map (·.id)).Nodup) (hr : route ∈ s.root.routes.flatten)
    (herror : route.error = some e) : s.Contains route e where
  stays := hr
  calls := by
    intro sub hopened c
    obtain ⟨outer, r, opened, st, w⟩ := s
    obtain rfl : opened = some ⟨route, sub⟩ := hopened
    simp only [move, c.apply_of_error (show route.error.isSome = true by simp [herror])]
  ignored r way sub hr hway := hway.ignores (hr.nodup_ids hids) (by simp [herror])
  urls := Route.url_of_error herror

/-- The error that calls leave on a route is that of the first call that fails, and without a failure there is none.
From then on the error and the whole route stay as they are, whatever happens to the tree; later calls on the route
change nothing, neither of the route nor of the names and the patterns that the tree shares; every router that has the
route or is above acts as if the route and the routes below it were not there; and the route gives its error in place
of URLs. -/
theorem run_contains_error (cache : PatternCache) (history : List (Action H)) {opened : Entry H}
    (hopened : ((new cache).run history).opened = some opened) (hok : opened.route.error = none)
    (calls : List (Call H)) :
    let s := (new cache).run history
    let made (calls : List (Call H)) := Call.applyAll calls opened.route s.setup
    let configured := s.run (calls.map fun c => .move (.call c))
    configured = { s with opened := some { opened with route := (made calls).1 }, setup := (made calls).2 } ∧
    ∀ e, ((made calls).1.error = some e ↔ ∃ before c after, calls = before ++ c :: after ∧
        (made before).1.error = none ∧ (c.attempt (made before).1 (made before).2).fault = some e) ∧
      ((made calls).1.error = some e → ∀ later, (configured.run later).Contains (made calls).1 e) := by
  intro s made configured
  have hconfigured : configured =
      { s with opened := some { opened with route := (made calls).1 }, setup := (made calls).2 } := by
    rw [← moves_calls s hopened, ← run_moves, List.map_map]
    rfl
  refine ⟨hconfigured, fun e => ⟨Call.error_applyAll_iff hok calls e, fun herror later => ?_⟩⟩
  have hmem : (made calls).1 ∈ configured.root.routes.flatten := by
    rw [flatten_root, flatten_current, hconfigured]
    exact List.mem_append_right _ (List.mem_append_right _ List.mem_cons_self)
  have hids := (run_registered cache (history ++ ((calls.map fun c => .move (.call c)) ++ later))).ids
  rw [run_append, run_append] at hids
  exact contains_of_error hids (run_keeps_failed hmem (by simp [herror]) later) herror

/-- The second list of methods fails after the first one was taken over. The name is not given, and a later route takes
the request that would go to the route below the mount. -/
theorem run_contains_error_mount :
    let calls : List (Call Nat) := [.methods ["get"], .methods ["no method"], .name "users", .handler 1]
    let later : List (Action Nat) := [.move .enter, .move .route, .move (.call (.handler 2)), .move .leave,
      .move (.call .buildOnly), .move .route, .move (.call (.handler 3))]
    let s := (((new .new).run [.move .route]).run (calls.map fun c => .move (.call c))).run later
    let req : Request := .new .get ⟨none, none, "/", none⟩ [] none
    ∃ mount below next, s.root.routes.flatten = [mount, below, next] ∧
      mount.error = some (.invalidMethod "NO METHOD") ∧ mount.methods? = some [.get] ∧ mount.buildOnly = false ∧
      s.setup.names = [] ∧ mount.url [] = .error (.invalidMethod "NO METHOD") ∧
      (s.root.dispatch req .new).1 = .matched next (some 3) [] ∧ s.root.allowedMethods req = [] := by
  intro calls later s req
  let started : Session Nat := (new .new).run [.move .route]
  have hopened : started.opened = some ⟨.new .root 0, none⟩ := rfl
  obtain ⟨-, herror⟩ := run_contains_error .new [.move .route] hopened rfl calls
  have hmade : (Call.applyAll calls (.new .root 0) started.setup).1.error = some (.invalidMethod "NO METHOD") := by
    decide +kernel
  have hcontains := (herror _).2 hmade later
  have hignored := hcontains.ignored s.root [] _ (.self _) (.here List.mem_cons_self)
  refine ⟨_, _, _, rfl, hmade, rfl, rfl, rfl, (hcontains.urls []).1, ?_, ?_⟩
  · rw [hignored.dispatch]
    rfl
  · rw [hignored.allowedMethods]
    rfl

end Session

end RequestRouter
