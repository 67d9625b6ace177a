import RequestRouter.Proofs.Router.Conditions
import RequestRouter.Proofs.Table.Steps
/-!
What a table can put into a tree: regular routes, and routers without handlers for failures.
-/
namespace RequestRouter

variable {H : Type}

@[simp] theorem Router.settings_add (r : Router H) (e : Entry H) : (r.add e).settings = r.settings := rfl

namespace Tree

/-- Every route is regular, and no router below the root has a handler for failures. -/
structure Regular (t : Tree H) : Prop where
  route : ∀ r ∈ t.flatten, r.Regular
  noFallback : t.NoFallback

theorem flatten_push (t : Tree H) (e : Entry H) :
    (t.push e).flatten = t.flatten ++ e.route :: (e.sub.elim [] fun sub => sub.routes.flatten) := by
  induction t with
  | nil => rcases h : e.sub <;> simp [push, flatten, h]
  | leaf r rest ih => simp [push, flatten, ih]
  | mount r s inner rest _ ih => simp [push, flatten, ih]

theorem noFallback_push (t : Tree H) (e : Entry H) :
    (t.push e).NoFallback ↔ t.NoFallback ∧ ∀ sub, e.sub = some sub →
      sub.settings.notFound = none ∧ sub.settings.methodNotAllowed = none ∧ sub.routes.NoFallback := by
  induction t with
  | nil => rcases h : e.sub <;> simp [push, NoFallback, h]
  | leaf r rest ih => simp [push, NoFallback, ih]
  | mount r s inner rest _ ih => simp [push, NoFallback, ih, and_assoc]

theorem Regular.push {t : Tree H} (h : t.Regular) {e : Entry H} (hr : e.route.Regular)
    (hs : ∀ sub, e.sub = some sub →
      sub.settings.notFound = none ∧ sub.settings.methodNotAllowed = none ∧ sub.routes.Regular) :
    (t.push e).Regular where
  route := by
    intro r hmem
    rw [flatten_push, List.mem_append, List.mem_cons] at hmem
    rcases hmem with hmem | rfl | hmem
    · exact h.route r hmem
    · exact hr
    · cases he : e.sub with
      | none => simp [he] at hmem
      | some sub =>
        rw [he] at hmem
        exact (hs sub he).2.2.route r hmem
  noFallback := (noFallback_push t e).mpr ⟨h.noFallback, fun sub he =>
    ⟨(hs sub he).1, (hs sub he).2.1, (hs sub he).2.2.noFallback⟩⟩

end Tree

namespace RouteSpec

theorem standard_calls (s : RouteSpec) : ∀ c ∈ (s.calls : List (Call H)), c.Standard := by
  intro c hc
  simp only [calls, List.mem_append, Option.mem_toList, Option.map_eq_some_iff, or_assoc,
    List.mem_ite_nil_left, List.mem_ite_nil_right, List.mem_singleton] at hc
  rcases hc with ⟨_, _, rfl⟩ | ⟨_, _, rfl⟩ | ⟨_, _, rfl⟩ | ⟨_, rfl⟩ | ⟨_, rfl⟩ | ⟨_, rfl⟩ | ⟨_, rfl⟩ |
    ⟨_, rfl⟩ | ⟨_, _, rfl⟩ <;> trivial

theorem methodLists_calls (s : RouteSpec) : ((s.calls : List (Call H)).map Call.methodLists).sum ≤ 1 := by
  have hopt (o : Option String) (f : String → Call H) (hf : ∀ a, (f a).methodLists = 0) :
      (((o.map f).toList).map Call.methodLists).sum = 0 := by cases o <;> simp [hf]
  have hnone (b : Prop) [Decidable b] (c : Call H) (hc : c.methodLists = 0) :
      (((if b then [] else [c])).map Call.methodLists).sum = 0 := by split <;> simp [hc]
  have hbuild : ((if s.buildOnly then [Call.buildOnly (H := H)] else []).map Call.methodLists).sum = 0 := by
    split <;> rfl
  have hmethods : ((if s.methods.isEmpty then [] else [Call.methods (H := H) s.methods]).map
      Call.methodLists).sum ≤ 1 := by split <;> simp [Call.methodLists]
  simp only [calls, List.map_append, List.sum_append, hopt s.host .host fun _ => rfl,
    hopt s.leading .leading fun _ => rfl, hopt s.path .path fun _ => rfl, hopt s.name .name fun _ => rfl,
    hnone _ (.schemes s.schemes) rfl, hnone _ (.headers s.headers) rfl, hnone _ (.queries s.queries) rfl,
    hbuild]
  omega

theorem configure_regular (resolve : String → Option H) (s : RouteSpec) {r : Route H}
    (hr : r.matchers = []) (st : Setup) : (s.configure resolve r st).1.Regular := by
  have hcalls : (Call.applyAll s.calls r st).1.Regular :=
    Call.regular_applyAll (standard_calls s) (methodLists_calls s) hr st
  have hhandler (h : H) : (Call.applyAll (s.calls ++ [.handler h]) r st).1.Regular := by
    refine Call.regular_applyAll ?_ ?_ hr st
    · intro c hc
      rcases List.mem_append.mp hc with hc | hc
      · exact standard_calls s c hc
      · obtain rfl := List.mem_singleton.mp hc
        trivial
    · simpa [Call.methodLists] using methodLists_calls (H := H) s
  simp only [configure]
  split
  · exact hcalls
  · split
    · exact hcalls
    · rename_i h _
      have := hhandler h
      rwa [Call.applyAll, List.foldl_append] at this

end RouteSpec

namespace Outline

/-- Rules keep a tree regular, also when one of them cannot be installed. -/
theorem install_regular {resolve : String → Option H} {o : Outline} {r : Router H} {st : Setup} {n : Nat}
    {x : Router H × Setup × Except InstallError Nat} (hr : r.routes.Regular) (h : o.Installs resolve r st n x) :
    x.1.routes.Regular ∧ x.1.settings = r.settings := by
  have hroute : ∀ {spec : RouteSpec} {r : Router H} {st st' : Setup} {route : Route H} {e : Option InstallError},
      spec.configure resolve (r.newRoute st).1 (r.newRoute st).2 = (route, st', e) → route.Regular := by
    intro spec r st st' route e hconf
    have hregular := spec.configure_regular resolve (r := (r.newRoute st).1) rfl (r.newRoute st).2
    rwa [hconf] at hregular
  have hmount : ∀ {spec : RouteSpec} {r sub : Router H} {st st' : Setup} {route : Route H} {e : Option InstallError},
      r.routes.Regular →
      spec.configure resolve (r.newRoute st).1 (r.newRoute st).2 = (route, st', e) →
      sub.routes.Regular ∧ sub.settings = (Router.new (H := H) route.innerScope st').1.settings →
      (r.add ⟨route, some sub⟩).routes.Regular := by
    intro spec r sub st st' route e hr hconf hsub
    refine hr.push (hroute hconf) ?_
    rintro _ ⟨⟩
    rw [hsub.2]
    exact ⟨rfl, rfl, hsub.1⟩
  have hnew : ∀ (scope : Scope) (st : Setup), (Router.new (H := H) scope st).1.routes.Regular := fun _ _ =>
    ⟨List.forall_mem_nil _, trivial⟩
  induction h with
  | nil | conflict => exact ⟨hr, rfl⟩
  | failed _ hconf => exact ⟨hr.push (hroute hconf) (by simp), rfl⟩
  | leaf _ hconf _ ih => exact ih (hr.push (hroute hconf) (by simp))
  | within _ _ hconf _ ih => exact ⟨hmount hr hconf (ih (hnew _ _)), rfl⟩
  | mount _ _ hconf _ _ ihNested ihRest => exact ihRest (hmount hr hconf (ihNested (hnew _ _)))

end Outline

end RequestRouter
