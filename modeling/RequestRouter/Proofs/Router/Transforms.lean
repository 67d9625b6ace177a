import RequestRouter.Proofs.Router.Bonds
import RequestRouter.Proofs.Router.Calls
import RequestRouter.Proofs.Router.Errors
import RequestRouter.Proofs.Router.Inheritance
import RequestRouter.Proofs.Table.Rules
/-!
Transforms over the history of a tree. Every route has the transforms that calls have registered on it, and a router
hands those of its mount down to its routes, with those of the mounts further out behind them. So the variables of a
match and the variables that a URL is built from go through the same transforms, from the route outwards.
-/
namespace RequestRouter

open RequestRouter.Http

variable {H : Type}

namespace Route

def urlOf (r : Route H) (vars : Vars) : Except RouteError BuiltUrl :=
  (r.host.elim (.ok none) fun t => (t.expand vars.get?).map some).bind fun host =>
    (r.path.elim (.ok "") fun t => r.expandPath t vars).bind fun path =>
      (expandQueries vars r.queries).map fun qs =>
        ⟨host.map fun _ => r.urlScheme, host, path, if qs.isEmpty then none else some ("&".intercalate qs)⟩

def urlHostOf (r : Route H) (vars : Vars) : Except RouteError BuiltUrl :=
  r.host.elim (.error .missingHost) fun t =>
    (t.expand vars.get?).map fun host => ⟨some r.urlScheme, some host, "", none⟩

def urlPathOf (r : Route H) (vars : Vars) : Except RouteError BuiltUrl :=
  r.path.elim (.error .missingPath) fun t => (r.expandPath t vars).map fun path => ⟨none, none, path, none⟩

/-- A route builds nothing once it has an error; else it builds from the variables after its transforms. -/
structure BuildsFrom (r : Route H) (transform : Transform) (pairs : List (String × String)) : Prop where
  url : r.url pairs = r.error.elim (r.urlOf (transform (.ofPairs pairs))) .error
  urlHost : r.urlHost pairs = r.error.elim (r.urlHostOf (transform (.ofPairs pairs))) .error
  urlPath : r.urlPath pairs = r.error.elim (r.urlPathOf (transform (.ofPairs pairs))) .error

theorem buildsFrom_transform (r : Route H) (pairs : List (String × String)) : r.BuildsFrom r.transform pairs := by
  refine ⟨?_, ?_, ?_⟩
  · rw [url_eq, prepare]
    cases r.error <;> rfl
  · rw [Route.urlHost, prepare, urlHostOf]
    cases r.error <;> cases r.host <;> rfl
  · rw [Route.urlPath, prepare, urlPathOf]
    cases r.error <;> cases r.path <;> rfl

end Route

namespace Call

variable {r : Route H} {st : Setup}

def transform? : Call H → Option Transform
  | transform f => some f
  | _ => none

theorem transforms_addQueries (pairs : List (String × String)) :
    (addQueries pairs r st).route.transforms = r.transforms := by
  induction pairs generalizing r st with
  | nil => rfl
  | cons p rest ih =>
    simp only [addQueries]
    split
    · rfl
    · exact ih

theorem transforms_attempt (c : Call H) :
    (c.attempt r st).route.transforms = r.transforms ++ c.transform?.toList := by
  cases c with
  | path t | leading t =>
    simp only [attempt, setPath, transform?]
    split
    · simp
    · split <;> simp
  | host t =>
    simp only [attempt, setHost, transform?]
    split <;> simp
  | methods | headers | headerPatterns =>
    simp only [attempt, transform?, addMatcher]
    split <;> simp
  | queries pairs => simp [attempt, transform?, transforms_addQueries]
  | schemes names =>
    simp only [attempt, addSchemes, addMatcher, transform?]
    split <;> simp
  | name n =>
    simp only [attempt, setName, transform?]
    split
    · simp
    · split <;> simp
  | matcher | buildOnly | handler => simp [attempt, transform?, addMatcher]
  | transform f => rfl

theorem transforms_apply (c : Call H) :
    (c.apply r st).1.transforms = r.transforms ++ if r.error.isSome then [] else c.transform?.toList := by
  rw [apply]
  split
  · simp
  · exact transforms_attempt c

theorem applyAll_plain {calls : List (Call H)} (h : ∀ c ∈ calls, c.transform? = none) :
    (applyAll calls r st).1.transforms = r.transforms ∧ (applyAll calls r st).1.id = r.id ∧
      (applyAll calls r st).2.nextRoute = st.nextRoute := by
  induction calls generalizing r st with
  | nil => exact ⟨rfl, rfl, rfl⟩
  | cons c calls ih =>
    rw [List.forall_mem_cons] at h
    have hnamed := c.apply_named r st
    have htransforms : (c.apply r st).1.transforms = r.transforms := by
      rw [transforms_apply, h.1]
      simp
    obtain ⟨hrest, hid, hnext⟩ := ih h.2
    exact ⟨hrest.trans htransforms, hid.trans hnamed.id, hnext.trans hnamed.nextRoute⟩

end Call

theorem RouteSpec.configure_plain (resolve : String → Option H) (s : RouteSpec) (r : Route H) (st : Setup) :
    (s.configure resolve r st).1.transforms = r.transforms ∧ (s.configure resolve r st).1.id = r.id ∧
      (s.configure resolve r st).2.1.nextRoute = st.nextRoute := by
  rw [configure_eq]
  refine Call.applyAll_plain fun c hc => ?_
  simp only [calls, List.mem_append, Option.mem_toList, Option.map_eq_some_iff, or_assoc,
    List.mem_ite_nil_left, List.mem_ite_nil_right, List.mem_singleton] at hc
  rcases hc with ⟨_, _, rfl⟩ | ⟨_, _, rfl⟩ | ⟨_, _, rfl⟩ | ⟨_, rfl⟩ | ⟨_, rfl⟩ | ⟨_, rfl⟩ | ⟨_, rfl⟩ | ⟨_, rfl⟩ |
    ⟨_, _, rfl⟩ | ⟨_, _, rfl⟩ <;> rfl

theorem Outline.Installs.plain {resolve : String → Option H} {o : Outline} {r : Router H} {st : Setup} {n : Nat}
    {x : Router H × Setup × Except InstallError Nat} (h : o.Installs resolve r st n x) :
    st.nextRoute ≤ x.2.1.nextRoute ∧ ∃ added, x.1.routes.flatten = r.routes.flatten ++ added ∧
      ∀ y ∈ added, y.transforms = [] ∧ st.nextRoute ≤ y.id := by
  have hroute {spec : RouteSpec} {r : Router H} {st st' : Setup} {route : Route H} {e : Option InstallError}
      (h : spec.configure resolve (r.newRoute st).1 (r.newRoute st).2 = (route, st', e)) :
      (route.transforms = [] ∧ st.nextRoute ≤ route.id) ∧ st.nextRoute ≤ st'.nextRoute := by
    obtain ⟨htransforms, hid, hnext⟩ := spec.configure_plain resolve (r.newRoute st).1 (r.newRoute st).2
    rw [h] at htransforms hid hnext
    exact ⟨⟨htransforms, Nat.le_of_eq hid.symm⟩, Nat.le_trans (Nat.le_succ _) (Nat.le_of_eq hnext.symm)⟩
  induction h with
  | nil | conflict => exact ⟨le_rfl, [], (List.append_nil _).symm, List.forall_mem_nil _⟩
  | @failed spec nested rest r st st' n route e _ h =>
    exact ⟨(hroute h).2, [route], Tree.flatten_push .., List.forall_mem_singleton.mpr (hroute h).1⟩
  | @leaf spec rest r st st' n route x _ h _ ih =>
    obtain ⟨hnext, added, hadded, hplain⟩ := ih
    have hle := (hroute h).2
    refine ⟨Nat.le_trans hle hnext, route :: added, ?_, List.forall_mem_cons.mpr ⟨(hroute h).1, fun y hy => ?_⟩⟩
    · rw [hadded, Router.add, Tree.flatten_push, List.append_assoc]
      rfl
    · exact ⟨(hplain y hy).1, Nat.le_trans hle (hplain y hy).2⟩
  | @within spec nested rest r sub st st' st'' n route e _ _ h _ ih =>
    obtain ⟨hnext, added, hadded, hplain⟩ := ih
    have hle := (hroute h).2
    refine ⟨Nat.le_trans hle hnext, route :: added, ?_, List.forall_mem_cons.mpr ⟨(hroute h).1, fun y hy => ?_⟩⟩
    · rw [Router.add, Tree.flatten_push]
      exact congrArg (r.routes.flatten ++ route :: ·) hadded
    · exact ⟨(hplain y hy).1, Nat.le_trans hle (hplain y hy).2⟩
  | @mount spec nested rest r sub st st' st'' n n' route x _ _ h _ _ ihNested ihRest =>
    obtain ⟨hnextNested, below, hbelow, hplainBelow⟩ := ihNested
    obtain ⟨hnext, added, hadded, hplain⟩ := ihRest
    have hle := (hroute h).2
    have hle' : st.nextRoute ≤ st''.nextRoute := Nat.le_trans hle hnextNested
    refine ⟨Nat.le_trans hle' hnext, route :: (below ++ added), ?_,
      List.forall_mem_cons.mpr ⟨(hroute h).1, fun y hy => ?_⟩⟩
    · rw [hadded, Router.add, Tree.flatten_push, List.append_assoc]
      exact congrArg (fun l => r.routes.flatten ++ route :: (l ++ added)) hbelow
    · rcases List.mem_append.mp hy with hy | hy
      · exact ⟨(hplainBelow y hy).1, Nat.le_trans hle (hplainBelow y hy).2⟩
      · exact ⟨(hplain y hy).1, Nat.le_trans hle' (hplain y hy).2⟩

namespace Session

/-- The transform that an action registers on the route with an identity, if it does. Tables register none. -/
def registers (s : Session H) (id : RouteId) : Action H → Option Transform
  | .move (.call c) => if s.opened.any fun e => e.route.id = id ∧ e.route.error.isNone then c.transform? else none
  | _ => none

/-- The transforms that a history registers on the route with an identity, in order. -/
def registered (id : RouteId) : Session H → List (Action H) → List Transform
  | _, [] => []
  | s, a :: history => (s.registers id a).toList ++ registered id (s.perform a) history

theorem registered_append (id : RouteId) (s : Session H) (history later : List (Action H)) :
    s.registered id (history ++ later) = s.registered id history ++ (s.run history).registered id later := by
  induction history generalizing s with
  | nil => rfl
  | cons a history ih => rw [List.cons_append, registered, registered, ih, List.append_assoc, run_cons]

theorem registers_move (s : Session H) (id : RouteId) (m : Move H) :
    s.registers id (.move m) = s.note Call.transform? id m := by
  cases m <;> rfl

abbrev Logs (s : Session H) (log : RouteId → List Transform) : Prop := s.Notes (fun r l => r.transforms = l) log

theorem Logs.perform {s : Session H} {log : RouteId → List Transform} (h : s.Logs log)
    (hids : Registered s.root.routes.flatten s.setup) (a : Action H) :
    (s.perform a).Logs fun id => log id ++ (s.registers id a).toList := by
  cases a with
  | move m =>
    simp only [registers_move]
    refine h.move (fun _ _ => rfl) (fun r st c l herror hr => ?_) hids m
    rw [Call.transforms_apply, herror, hr]
    rfl
  | install table resolve =>
    obtain ⟨hnext, added, hadded, hplain⟩ := (Outline.installs_install resolve table.routes s.current s.setup 0).plain
    have hnone (id : RouteId) : s.registers id (.install table resolve) = none := rfl
    simp only [hnone, Option.toList_none, List.append_nil]
    have hroutes : (s.perform (.install table resolve)).root.routes.flatten = s.root.routes.flatten ++ added := by
      rw [flatten_root, flatten_root, List.append_assoc]
      exact congrArg (around s.outer ++ ·) hadded
    exact h.of_added hroutes hplain hnext

/-- At every moment the routes of a tree have the transforms that the history has registered on them. -/
theorem run_logs (cache : PatternCache) (history : List (Action H)) :
    ((new cache).run history).Logs fun id => (new cache).registered id history := by
  induction history using List.reverseRecOn with
  | nil => exact ⟨List.forall_mem_nil _, fun _ _ => rfl⟩
  | append_singleton history a ih =>
    have hrun : (new cache).run (history ++ [a]) = ((new cache).run history).perform a := run_append _ history [a]
    rw [hrun]
    simpa only [registered_append, registered, List.append_nil] using ih.perform (run_registered cache history) a

/-- A transform is registered late if the mount has its router already. -/
def TransformsLate (s : Session H) (history : List (Action H)) (id : RouteId) : Prop :=
  ∃ before f after, history = before ++ .move (.call (.transform f)) :: after ∧
    (s.run before).CallsMount id (.call (.transform f))

end Session

/-- What routers hand down of the transforms: a router has those of its mount, with those of the mounts further out
behind them, unless some came late. -/
def Bond.ofTransforms (H : Type) (late : RouteId → Prop) : Bond H where
  top scope := scope.transforms = []
  owns scope r := r.scope.transforms = scope.transforms
  mounts r scope := ¬ late r.id → scope.transforms = r.transforms ++ r.scope.transforms

theorem Bond.ofTransforms_stable (late : RouteId → Prop) :
    (ofTransforms H late).Stable fun id c => c.transform? = none ∨ late id where
  root := rfl
  new _ _ := rfl
  enter _ _ _ _ := rfl
  call _ r c st h := (congrArg Scope.transforms (c.apply_named r st).scope).trans h
  late scope r c st hlate h := by
    intro hno
    have hnamed := c.apply_named r st
    rw [hnamed.id] at hno
    have hnone : c.transform? = none := hlate.resolve_right hno
    rw [hnamed.scope, Call.transforms_apply, hnone, h hno]
    simp
  set_top x t h := by cases x <;> exact h
  set_owns x t r h := by cases x <;> exact h
  set_mounts x t r h := by cases x <;> exact h

namespace Router

theorem Bound.transforms_of_leads {late : RouteId → Prop} {r : Router H} (h : r.Bound (.ofTransforms H late))
    {way : List (Route H × Router H)} {e : Entry H} (hway : r.Leads way e) (hlate : ∀ p ∈ way, ¬ late p.1.id) :
    e.route.scope.transforms = (way.map (·.1)).reverse.flatMap (·.transforms) ++ r.settings.scope.transforms := by
  induction hway with
  | here he =>
    obtain ⟨howns, -, -⟩ := h
    exact howns _ he
  | @through r sub mount way e hmount hway ih =>
    obtain ⟨howns, hmounts, hbelow⟩ := h
    rw [List.forall_mem_cons] at hlate
    have hdown : sub.settings.scope.transforms = mount.transforms ++ mount.scope.transforms :=
      hmounts _ hmount sub rfl hlate.1
    have hmountScope : mount.scope.transforms = r.settings.scope.transforms := howns _ hmount
    rw [ih (hbelow _ hmount sub rfl) hlate.2, hdown, hmountScope, List.map_cons, List.reverse_cons,
      List.flatMap_append, List.flatMap_singleton, List.append_assoc]

theorem Leads.mounts_mem_flatten {r : Router H} {way : List (Route H × Router H)} {e : Entry H} (h : r.Leads way e) :
    ∀ p ∈ way, p.1 ∈ r.routes.flatten := by
  induction h with
  | here => exact List.forall_mem_nil _
  | through hmount _ ih =>
    refine List.forall_mem_cons.mpr ⟨mem_flatten_of_entries hmount List.mem_cons_self, fun p hp => ?_⟩
    exact mem_flatten_of_entries hmount (List.mem_cons_of_mem _ (ih p hp))

end Router

namespace Session

/-- What a history makes of the variables of a route below some mounts, the innermost last: it applies the transforms
that were registered on the route, then those of the mounts, from the innermost one outwards. -/
def transformAlong (s : Session H) (history : List (Action H)) (mounts : List (Route H)) (r : Route H) : Transform :=
  fun vars => ((r :: mounts.reverse).flatMap fun x => s.registered x.id history).foldl (fun vs f => f vs) vars

theorem run_transform {cache : PatternCache} {history : List (Action H)} {way : List (Route H × Router H)}
    {e : Entry H} (hway : ((new cache).run history).root.Leads way e)
    (hearly : ∀ p ∈ way, ¬ (new cache).TransformsLate history p.1.id) :
    e.route.transform = (new cache).transformAlong history (way.map (·.1)) e.route := by
  have hlogs := run_logs cache history
  obtain ⟨hbound, htop⟩ := run_bound (Bond.ofTransforms_stable ((new (H := H) cache).TransformsLate history)) cache
    history fun before c after heq id hcalls => by
      cases hc : c.transform? with
      | none => exact .inl rfl
      | some f =>
        obtain rfl : c = .transform f := by
          cases c <;> cases hc
          rfl
        exact .inr ⟨before, f, after, heq, hcalls⟩
  have hscope := hbound.transforms_of_leads hway hearly
  rw [show _ = [] from htop, List.append_nil] at hscope
  have hmounts : (way.map (·.1)).reverse.flatMap (·.transforms) =
      (way.map (·.1)).reverse.flatMap fun x => (new cache).registered x.id history := by
    refine List.flatMap_congr fun x hx => ?_
    obtain ⟨p, hp, rfl⟩ := List.mem_map.mp (List.mem_reverse.mp hx)
    exact hlogs.routes _ (hway.mounts_mem_flatten p hp)
  funext vars
  rw [Route.transform, hscope, hlogs.routes _ hway.mem_flatten, hmounts]
  rfl

/-- Transforms compose from a route outwards, in both directions. Let a route lie below some mounts, each of which had
all its transforms before it got its router. The variables of every match of the route are what its templates have
captured, and its URL, its host and its path are built from the given values, after the same transforms: each one
that was registered on the route, once and in order, then those of the innermost mount, and so on outwards. -/
theorem run_transforms {cache : PatternCache} {history : List (Action H)} {way : List (Route H × Router H)}
    {e : Entry H} (hway : ((new cache).run history).root.Leads way e)
    (hearly : ∀ p ∈ way, ¬ (new cache).TransformsLate history p.1.id) :
    let applied := (new cache).transformAlong history (way.map (·.1)) e.route
    (∀ (R : Router H) (req : Request) (w : Wraps H) (handler : Option H) (vars : Vars),
      (R.dispatch req w).1 = .matched e.route handler vars →
        ∃ captured, e.route.capture (.of req) false = some captured ∧ vars = applied captured) ∧
    ∀ pairs, e.route.BuildsFrom applied pairs := by
  intro applied
  have happlied : e.route.transform = applied := run_transform hway hearly
  refine ⟨fun R req w handler vars h => ?_, fun pairs => happlied ▸ e.route.buildsFrom_transform pairs⟩
  obtain ⟨-, captured, hcheck, rfl⟩ := Tree.of_resolve_eq_matched h
  exact ⟨captured, Route.capture_of_check hcheck, by rw [happlied]⟩

theorem exists_way_opened {s : Session H} {e : Entry H} (he : s.opened = some e) :
    ∃ way, s.root.Leads way e ∧ way.map (·.1) = (s.outer.map (·.2)).reverse := by
  have hcurrent : s.current.Leads [] e := by
    refine .here ?_
    rw [current, he, Option.elim_some, Router.add, Tree.entries_push]
    exact List.mem_append_right _ List.mem_cons_self
  have hall := root_induction (P := fun outer r => ∃ way, r.Leads way e ∧
    (outer.map (·.2)).reverse ++ way.map (·.1) = (s.outer.map (·.2)).reverse) (fun x outer r hx => ?_)
    ⟨[], hcurrent, List.append_nil _⟩
  · exact hall
  · obtain ⟨way, hway, hmounts⟩ := hx
    refine ⟨(x.2, r) :: way, .through ?_ hway, ?_⟩
    · rw [Router.add, Tree.entries_push]
      exact List.mem_append_right _ List.mem_cons_self
    · rw [← hmounts, List.map_cons, List.map_cons, List.reverse_cons, List.append_assoc]
      rfl

/-- A route with two transforms below three mounts with one or two. -/
theorem run_transforms_three_mounts :
    let tag (text : String) : Move Unit := .call (.transform (.ofEdits [.append "id" text]))
    let moves : List (Move Unit) := [.route, tag "-a", tag "-b", .enter, .route, tag "-c", .enter, .route,
      .call (.leading "/users"), tag "-d", .enter, .route, tag "-e", .call (.path "/{id}"), tag "-f"]
    let s := (new .new).run (moves.map .move)
    let req : Request := .new .get ⟨none, none, "/users/7", none⟩ [] none
    ∃ way e handler, s.root.Leads way e ∧ way.length = 3 ∧
      (s.root.dispatch req .new).1 = .matched e.route handler [("id", "7-e-f-d-c-a-b")] ∧
      e.route.urlPath [("id", "7")] = .ok ⟨none, none, "/users/7-e-f-d-c-a-b", none⟩ := by
  intro tag moves s req
  let e : Entry Unit := s.opened.getD ⟨.new .root 0, none⟩
  have hopened : s.opened.isSome = true := by decide +kernel
  have he : s.opened = some e :=
    (Option.some_get hopened).symm.trans (congrArg some (Option.get_eq_getD _))
  have hfound : (s.root.dispatch req .new).1.outcome.toOption.map (·.id) = some e.route.id := by decide +kernel
  have hcapture : e.route.capture (.of req) false = some [("id", "7")] := by decide +kernel
  obtain ⟨way, hway, hmounts⟩ := exists_way_opened he
  have hprompt : Prompt (new .new) moves :=
    ⟨fun _ => id, (prompt_calls rfl [_]).1, (prompt_calls rfl [_]).1, fun _ => id, fun _ => id,
      (prompt_calls rfl [_]).1, fun _ => id, fun _ => id, (prompt_calls rfl [_]).1, (prompt_calls rfl [_]).1,
      fun _ => id, fun _ => id, (prompt_calls rfl [_]).1, (prompt_calls rfl [_]).1, (prompt_calls rfl [_]).1, trivial⟩
  obtain ⟨hmatch, hbuilds⟩ := run_transforms hway fun p _ ⟨before, f, after, heq, hcalls⟩ =>
    not_late_of_prompt hprompt p.1.id ⟨before, _, after, heq, hcalls⟩
  rw [hmounts] at hmatch hbuilds
  have hlength : way.length = 3 := by
    have hmountsLength := congrArg List.length hmounts
    rw [List.length_map, List.length_reverse, List.length_map] at hmountsLength
    exact hmountsLength.trans (by decide +kernel)
  have happlied : (new .new).transformAlong (moves.map .move) (s.outer.map (·.2)).reverse e.route [("id", "7")] =
      [("id", "7-e-f-d-c-a-b")] := by decide +kernel
  obtain ⟨found, hdispatch⟩ : ∃ found, (s.root.dispatch req .new).1 = found := ⟨_, rfl⟩
  rw [hdispatch] at hfound
  cases found with
  | failed _ _ => cases hfound
  | matched route handler vars =>
    have hroute : route = e.route := List.inj_on_of_nodup_map (run_registered .new (moves.map .move)).ids
      (Tree.of_resolve_eq_matched hdispatch).1 hway.mem_flatten (Option.some.inj hfound)
    rw [hroute] at hdispatch
    obtain ⟨captured, hcaptured, hvars⟩ := hmatch s.root req .new handler vars hdispatch
    rw [hcaptured, Option.some_inj] at hcapture
    rw [hvars, hcapture, happlied] at hdispatch
    refine ⟨way, e, handler, hway, hlength, hdispatch, ?_⟩
    rw [(hbuilds [("id", "7")]).urlPath]
    decide +kernel

end Session

end RequestRouter
