import RequestRouter.Table.Install
/-!
The installation of rules, rule by rule: everything that can become of the first rule, and how the installation goes
on after it.
-/
namespace RequestRouter

variable {H : Type}

namespace Outline

inductive Installs (resolve : String → Option H) :
    Outline → Router H → Setup → Nat → Router H × Setup × Except InstallError Nat → Prop where
  /-- No rule is left. -/
  | nil (r : Router H) (st : Setup) (n : Nat) : Installs resolve nil r st n (r, st, .ok n)
  /-- The first rule does not become a route. -/
  | conflict {spec : RouteSpec} {nested rest : Outline} {r : Router H} {st : Setup} {n : Nat} {e : InstallError}
    (h : spec.conflict? nested = some e) : Installs resolve (cons spec nested rest) r st n (r, st, .error e)
  /-- It becomes a route that cannot be configured. -/
  | failed {spec : RouteSpec} {nested rest : Outline} {r : Router H} {st st' : Setup} {n : Nat} {route : Route H}
    {e : InstallError} (hfits : spec.conflict? nested = none)
    (h : spec.configure resolve (r.newRoute st).1 (r.newRoute st).2 = (route, st', some e)) :
    Installs resolve (cons spec nested rest) r st n (r.add ⟨route, none⟩, st', .error e)
  /-- It becomes a route without a router, and the rules behind it follow. -/
  | leaf {spec : RouteSpec} {rest : Outline} {r : Router H} {st st' : Setup} {n : Nat} {route : Route H}
    {x : Router H × Setup × Except InstallError Nat} (hfits : spec.conflict? nil = none)
    (h : spec.configure resolve (r.newRoute st).1 (r.newRoute st).2 = (route, st', none))
    (hrest : Installs resolve rest (r.add ⟨route, none⟩) st' (n + 1) x) :
    Installs resolve (cons spec nil rest) r st n x
  /-- It becomes a mount, and not all of the rules nested below it can be installed. -/
  | within {spec : RouteSpec} {nested rest : Outline} {r sub : Router H} {st st' st'' : Setup} {n : Nat}
    {route : Route H} {e : InstallError} (hne : nested ≠ nil) (hfits : spec.conflict? nested = none)
    (h : spec.configure resolve (r.newRoute st).1 (r.newRoute st).2 = (route, st', none))
    (hnested : Installs resolve nested (Router.new route.innerScope st').1 (Router.new (H := H) route.innerScope st').2
      (n + 1) (sub, st'', .error e)) :
    Installs resolve (cons spec nested rest) r st n (r.add ⟨route, some sub⟩, st'', .error e)
  /-- It becomes a mount with the rules nested below it, and the rules behind it follow. -/
  | mount {spec : RouteSpec} {nested rest : Outline} {r sub : Router H} {st st' st'' : Setup} {n n' : Nat}
    {route : Route H} {x : Router H × Setup × Except InstallError Nat} (hne : nested ≠ nil)
    (hfits : spec.conflict? nested = none)
    (h : spec.configure resolve (r.newRoute st).1 (r.newRoute st).2 = (route, st', none))
    (hnested : Installs resolve nested (Router.new route.innerScope st').1 (Router.new (H := H) route.innerScope st').2
      (n + 1) (sub, st'', .ok n'))
    (hrest : Installs resolve rest (r.add ⟨route, some sub⟩) st'' n' x) :
    Installs resolve (cons spec nested rest) r st n x

variable {resolve : String → Option H} {o : Outline} {r : Router H} {st : Setup} {n : Nat}

theorem isEmpty_iff : o.isEmpty = true ↔ o = nil := by cases o <;> simp [isEmpty]

theorem installs_install (resolve : String → Option H) (o : Outline) (r : Router H) (st : Setup) (n : Nat) :
    o.Installs resolve r st n (o.install resolve r st n) := by
  induction o generalizing r st n with
  | nil => exact .nil r st n
  | cons spec nested rest ihNested ihRest =>
    rw [install]
    cases hfits : spec.conflict? nested with
    | some e => exact .conflict hfits
    | none =>
      rcases hconf : spec.configure resolve (r.newRoute st).1 (r.newRoute st).2 with ⟨route, st', _ | e⟩
      · by_cases hempty : nested.isEmpty = true
        · obtain rfl := isEmpty_iff.mp hempty
          simp only [hconf, hempty, if_true]
          exact .leaf hfits hconf (ihRest _ _ _)
        · have hne : nested ≠ nil := fun h => hempty (isEmpty_iff.mpr h)
          have hnested := ihNested (Router.new route.innerScope st').1 (Router.new (H := H) route.innerScope st').2
            (n + 1)
          simp only [hconf, hempty, Entry.subrouter]
          rcases hinstall : nested.install resolve (Router.new route.innerScope st').1
            (Router.new (H := H) route.innerScope st').2 (n + 1) with ⟨sub, st'', e | n'⟩
          · exact .within hne hfits hconf (hinstall ▸ hnested)
          · exact .mount hne hfits hconf (hinstall ▸ hnested) (ihRest _ _ _)
      · simp only [hconf]
        exact .failed hfits hconf

theorem installs_iff {x : Router H × Setup × Except InstallError Nat} :
    o.Installs resolve r st n x ↔ o.install resolve r st n = x := by
  refine ⟨fun h => ?_, fun h => h ▸ installs_install resolve o r st n⟩
  induction h with
  | nil => rfl
  | conflict h => simp only [install, h]
  | failed hfits h => simp only [install, hfits, h]
  | leaf hfits h _ ih => simp only [install, hfits, h, isEmpty, if_true, ih]
  | within hne hfits h _ ih =>
    have hempty := mt isEmpty_iff.mp hne
    simp only [install, hfits, h, hempty, Entry.subrouter, ih]
    rfl
  | mount hne hfits h _ _ ihNested ihRest =>
    have hempty := mt isEmpty_iff.mp hne
    simp only [install, hfits, h, hempty, Entry.subrouter, ihNested, ihRest]
    rfl

end Outline

end RequestRouter
