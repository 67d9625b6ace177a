import RequestRouter.Proofs.Dispatch.Fallbacks
import RequestRouter.Proofs.Table.Rules
import RequestRouter.Proofs.Table.Steps
/-!
Installed tables have the shape of their rules. A rule without nested rules is a route, a rule with nested rules a
mount with a router of its own, in the order of the table and behind the routes that were there. If the
installation fails, the routes are those of the rules before the faulty one, wherever in the table that one is.
-/
namespace RequestRouter

variable {H : Type}

/-- A rule in its place: the texts of the templates above it, and the rules below it. -/
structure Rule where
  up : Texts
  spec : RouteSpec
  nested : Outline

namespace Outline

/-- All rules, a rule before those nested below it. -/
def flatten (up : Texts) : Outline → List Rule
  | nil => []
  | cons spec nested rest => ⟨up, spec, nested⟩ :: (flatten (spec.texts up) nested ++ flatten up rest)

theorem length_flatten (up : Texts) (o : Outline) : (o.flatten up).length = o.size := by
  induction o generalizing up with
  | nil => rfl
  | cons spec nested rest ihNested ihRest =>
    rw [flatten, size, List.length_cons, List.length_append, ihNested, ihRest]
    omega

/-- The tree has the routes of the rules, in order: with routers of their own for the rules with nested ones, and only
for those. -/
inductive Mirrors (resolve : String → Option H) : Texts → Outline → Tree H → Prop where
  | nil (up : Texts) : Mirrors resolve up nil .nil
  | leaf {up : Texts} {spec : RouteSpec} {rest : Outline} {route : Route H} {t : Tree H}
    (h : spec.Describes resolve up route) (hrest : Mirrors resolve up rest t) :
    Mirrors resolve up (cons spec nil rest) (.leaf route t)
  | mount {up : Texts} {spec : RouteSpec} {nested rest : Outline} {route : Route H} {key : Nat} {inner t : Tree H}
    (hne : nested ≠ nil) (h : spec.Describes resolve up route) (hnested : Mirrors resolve (spec.texts up) nested inner)
    (hrest : Mirrors resolve up rest t) :
    Mirrors resolve up (cons spec nested rest) (.mount route (.new key route.innerScope) inner t)

/-- The tree has the routes of the rules up to the one that fails with `e`. -/
inductive Begins (resolve : String → Option H) (e : InstallError) : Texts → Outline → Tree H → Prop where
  /-- The rule has no route. -/
  | conflict {up : Texts} {spec : RouteSpec} {nested rest : Outline} (h : spec.conflict? nested = some e) :
    Begins resolve e up (cons spec nested rest) .nil
  /-- The rule has a route that was not configured to the end. -/
  | failed {up : Texts} {spec : RouteSpec} {nested rest : Outline} {route : Route H}
    (hfits : spec.conflict? nested = none) (h : spec.Fails resolve up e route) :
    Begins resolve e up (cons spec nested rest) (.leaf route .nil)
  /-- The rule is among the nested ones. -/
  | within {up : Texts} {spec : RouteSpec} {nested rest : Outline} {route : Route H} {key : Nat} {inner : Tree H}
    (hne : nested ≠ nil) (h : spec.Describes resolve up route)
    (hnested : Begins resolve e (spec.texts up) nested inner) :
    Begins resolve e up (cons spec nested rest) (.mount route (.new key route.innerScope) inner .nil)
  | leaf {up : Texts} {spec : RouteSpec} {rest : Outline} {route : Route H} {t : Tree H}
    (h : spec.Describes resolve up route) (hrest : Begins resolve e up rest t) :
    Begins resolve e up (cons spec nil rest) (.leaf route t)
  | mount {up : Texts} {spec : RouteSpec} {nested rest : Outline} {route : Route H} {key : Nat} {inner t : Tree H}
    (hne : nested ≠ nil) (h : spec.Describes resolve up route) (hnested : Mirrors resolve (spec.texts up) nested inner)
    (hrest : Begins resolve e up rest t) :
    Begins resolve e up (cons spec nested rest) (.mount route (.new key route.innerScope) inner t)

/-- What an installation that has counted `n` routes before comes to: the routes that it adds and the count. -/
def Adds (resolve : String → Option H) (up : Texts) (o : Outline) (n : Nat) (added : Tree H) :
    Except InstallError Nat → Prop
  | .ok m => m = n + o.size ∧ o.Mirrors resolve up added
  | .error e => o.Begins resolve e up added

variable {resolve : String → Option H} {o : Outline} {up : Texts}

/-- A router is left with its settings and its routes, and the added routes are behind them. -/
theorem Installs.adds {r : Router H} {st : Setup} {n : Nat} {x : Router H × Setup × Except InstallError Nat}
    (h : o.Installs resolve r st n x) :
    x.1.settings = r.settings ∧ ∃ added : Tree H, x.1.routes.entries = r.routes.entries ++ added.entries ∧
      Adds resolve r.settings.scope.texts o n added x.2.2 := by
  -- a router that was new before the nested rules has their routes and no others
  have hsub {sub : Router H} {scope : Scope} {st : Setup} {P : Tree H → Prop}
      (h : sub.settings = (Router.new (H := H) scope st).1.settings ∧ ∃ added : Tree H,
        sub.routes.entries = (Router.new (H := H) scope st).1.routes.entries ++ added.entries ∧ P added) :
      sub.settings = .new st.nextRouter scope ∧ P sub.routes := by
    obtain ⟨hsettings, added, hentries, hP⟩ := h
    have heq : sub.routes = added := Tree.eq_of_entries hentries
    exact ⟨hsettings, heq ▸ hP⟩
  induction h with
  | nil r st n => exact ⟨rfl, .nil, (List.append_nil _).symm, rfl, .nil _⟩
  | conflict h => exact ⟨rfl, .nil, (List.append_nil _).symm, .conflict h⟩
  | failed hfits h =>
    exact ⟨rfl, .leaf _ .nil, Tree.entries_push .., .failed hfits (RouteSpec.fails_of_configure h)⟩
  | @leaf spec rest r st st' n route x _ h _ ih =>
    obtain ⟨hsettings, added, hentries, hadds⟩ := ih
    have hdesc := RouteSpec.describes_of_configure h
    refine ⟨hsettings, .leaf route added, ?_, ?_⟩
    · rw [hentries, Router.add, Tree.entries_push, List.append_assoc]
      rfl
    · rcases x with ⟨r', st'', e | m⟩
      · exact .leaf hdesc hadds
      · exact ⟨hadds.1.trans (by simp [size]; omega), .leaf hdesc hadds.2⟩
  | @within spec nested rest r sub st st' st'' n route e hne _ h _ ih =>
    obtain ⟨hsettings, hbegins⟩ := hsub ih
    have hdesc := RouteSpec.describes_of_configure h
    refine ⟨rfl, .mount route sub.settings sub.routes .nil, Tree.entries_push .., ?_⟩
    rw [hsettings]
    exact .within hne hdesc (hdesc.texts ▸ hbegins)
  | @mount spec nested rest r sub st st' st'' n n' route x hne _ h _ _ ihNested ihRest =>
    obtain ⟨hsettings, hcount, hmirrors⟩ := hsub ihNested
    obtain ⟨hkeep, added, hentries, hadds⟩ := ihRest
    have hdesc := RouteSpec.describes_of_configure h
    have hnested : nested.Mirrors resolve (spec.texts r.settings.scope.texts) sub.routes := hdesc.texts ▸ hmirrors
    refine ⟨hkeep, .mount route sub.settings sub.routes added, ?_, ?_⟩
    · rw [hentries, Router.add, Tree.entries_push, List.append_assoc]
      rfl
    · rw [hsettings]
      rcases x with ⟨r', st'', e | m⟩
      · exact .mount hne hdesc hnested hadds
      · exact ⟨hadds.1.trans (by rw [hcount, size]; omega), .mount hne hdesc hnested hadds.2⟩

section Flatten

/-- The routes are what the rules say, one by one. -/
abbrev Describe (resolve : String → Option H) : List Rule → List (Route H) → Prop :=
  List.Forall₂ fun p r => p.spec.Describes resolve p.up r

/-- The routes are those of the first rules, and the rule behind them fails with `e`: it has no route, or one that was
not configured to the end. -/
def StopsAt (resolve : String → Option H) (e : InstallError) (rules : List Rule) (routes : List (Route H)) : Prop :=
  ∃ done p more front last, rules = done ++ p :: more ∧ routes = front ++ last ∧ Describe resolve done front ∧
    (p.spec.conflict? p.nested = some e ∧ last = [] ∨
      p.spec.conflict? p.nested = none ∧ ∃ r, last = [r] ∧ p.spec.Fails resolve p.up e r)

theorem Mirrors.describe {t : Tree H} (h : o.Mirrors resolve up t) : Describe resolve (o.flatten up) t.flatten := by
  induction h with
  | nil => exact .nil
  | leaf h _ ih => exact .cons h ih
  | mount _ h _ _ ihNested ihRest => exact .cons h (List.rel_append ihNested ihRest)

namespace StopsAt

variable {e : InstallError} {rules done : List Rule} {routes front : List (Route H)}

theorem behind (h : StopsAt resolve e rules routes) (hdone : Describe resolve done front) :
    StopsAt resolve e (done ++ rules) (front ++ routes) := by
  obtain ⟨done', p, more, front', last, rfl, rfl, hdone', hp⟩ := h
  exact ⟨done ++ done', p, more, front ++ front', last, by simp, by simp, List.rel_append hdone hdone', hp⟩

theorem before (h : StopsAt resolve e rules routes) (later : List Rule) :
    StopsAt resolve e (rules ++ later) routes := by
  obtain ⟨done, p, more, front, last, rfl, rfl, hdone, hp⟩ := h
  exact ⟨done, p, more ++ later, front, last, by simp, rfl, hdone, hp⟩

end StopsAt

theorem Begins.stopsAt {e : InstallError} {t : Tree H} (h : o.Begins resolve e up t) :
    StopsAt resolve e (o.flatten up) t.flatten := by
  induction h with
  | conflict h => exact ⟨[], _, _, [], [], rfl, rfl, .nil, .inl ⟨h, rfl⟩⟩
  | failed hfits h => exact ⟨[], _, _, [], _, rfl, rfl, .nil, .inr ⟨hfits, _, rfl, h⟩⟩
  | within _ h _ ih => simpa [Tree.flatten, Outline.flatten] using (ih.before _).behind (.cons h .nil)
  | leaf h _ ih => exact ih.behind (.cons h .nil)
  | mount _ h hnested _ ih => exact ih.behind (.cons h hnested.describe)

end Flatten

end Outline

/-- Installing a table into a router. The routes and the settings of the router stay as they are, and the added routes
come behind them. An installation that does not fail counts all rules and adds one route for each of them, in the
same order and with the same nesting: without an error, and with the name, the methods, the handler and the texts that
the rule says. An installation that fails has done the same for the rules before the faulty one, which may be nested
at any depth, and has left a route for that one unless its fields contradict each other. -/
theorem RouteTable.install_mirrors (t : RouteTable) (resolve : String → Option H) (r : Router H) (st : Setup) :
    let up := r.settings.scope.texts
    (t.install resolve r st).1.settings = r.settings ∧
    ∃ added : Tree H, (t.install resolve r st).1.routes.entries = r.routes.entries ++ added.entries ∧
      match (t.install resolve r st).2.2 with
      | .ok n => n = t.routes.size ∧ n = added.flatten.length ∧ t.routes.Mirrors resolve up added ∧
          Outline.Describe resolve (t.routes.flatten up) added.flatten
      | .error e => t.routes.Begins resolve e up added ∧
          Outline.StopsAt resolve e (t.routes.flatten up) added.flatten := by
  intro up
  obtain ⟨hsettings, added, hentries, hadds⟩ := (Outline.installs_install resolve t.routes r st 0).adds
  refine ⟨hsettings, added, hentries, ?_⟩
  rw [install]
  generalize (t.routes.install resolve r st 0).2.2 = result at hadds ⊢
  rcases result with e | n
  · exact ⟨hadds, hadds.stopsAt⟩
  · obtain ⟨hcount, hmirrors⟩ := hadds
    have hdescribe := hmirrors.describe
    rw [Nat.zero_add] at hcount
    refine ⟨hcount, ?_, hmirrors, hdescribe⟩
    rw [hcount, ← Outline.length_flatten up]
    exact hdescribe.length_eq

/-- The second rule below the mount is the third of the table, and it fails. -/
example :
    let user : RouteSpec := { RouteSpec.empty with path := some "/users/{id:int}", handler := some "user" }
    let rootless : RouteSpec := { RouteSpec.empty with path := some "users" }
    let api : RouteSpec := { RouteSpec.empty with leading := some "/v1/" }
    let t : RouteTable := ⟨none, .cons api (.cons user .nil (.cons rootless .nil .nil)) .nil⟩
    let x := t.install (fun _ => some 0) (Router.new .root (.new .new)).1 (.new .new)
    x.2.2 = .error (.route "users" (.pathMustStartWithSlash "users")) ∧
      x.1.routes.flatten.map (·.texts.path) = [some "/v1/", some "/v1/users/{id:int}", some "/v1/"] := by
  exact ⟨rfl, rfl⟩

end RequestRouter
