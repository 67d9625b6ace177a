import RequestRouter.Proofs.Dispatch.Site
/-!
How the check of a route depends on the method of a request. A route whose only conditions on the method are
at most one list of methods accepts a request with exactly the methods that it reports.
-/
namespace RequestRouter

open RequestRouter.Http

variable {H : Type}

def View.withMethod (v : View) (m : Method) : View := { v with request := { v.request with method := m } }

theorem View.of_method (req : Request) (m : Method) :
    View.of { req with method := m } = (View.of req).withMethod m := rfl

namespace Matcher

/-- The condition is not one of the caller's own. -/
def Standard : Matcher → Prop
  | custom _ => False
  | _ => True

theorem judge_method_eq_rejects {mt : Matcher} (h : mt.Standard) (req : Request) (m : Method) :
    mt.judge { req with method := m } = .rejects ↔ mt.judge req = .rejects := by
  cases mt with
  | methods ms => by_cases h₁ : m ∈ ms <;> by_cases h₂ : req.method ∈ ms <;> simp [judge, h₁, h₂]
  | headers hs => rfl
  | headerPatterns hs => rfl
  | schemes ss => rfl
  | custom f => exact h.elim

theorem judge_eq_methodMismatch_iff {mt : Matcher} (h : mt.Standard) (req : Request) :
    mt.judge req = .methodMismatch ↔ ∃ ms, mt.methods? = some ms ∧ req.method ∉ ms := by
  have ofBool (b : Bool) : Verdict.ofBool b ≠ .methodMismatch := by cases b <;> decide
  cases mt with
  | methods ms => simp [judge, methods?]
  | headers hs => simp [judge, methods?, ofBool]
  | headerPatterns hs => simp [judge, methods?, ofBool]
  | schemes ss => simp [judge, methods?, ofBool]
  | custom f => exact h.elim

end Matcher

namespace Tree

theorem mem_addMethods (out ms : List Method) (m : Method) :
    m ∈ addMethods out ms ↔ m ∈ out ∨ m ∈ ms := by
  induction ms generalizing out with
  | nil => simp [addMethods]
  | cons n ms ih =>
    have hstep : addMethods out (n :: ms) =
        addMethods (if out.contains n then out else out ++ [n]) ms := rfl
    rw [hstep, ih]
    by_cases hn : n ∈ out
    · have : m = n → m ∈ out := fun h => h ▸ hn
      simp only [List.contains_iff_mem, hn, if_true, List.mem_cons]
      grind
    · simp [hn, or_assoc]

theorem nodup_addMethods {out : List Method} (h : out.Nodup) (ms : List Method) :
    (addMethods out ms).Nodup := by
  induction ms generalizing out with
  | nil => exact h
  | cons n ms ih =>
    have hstep : (if out.contains n then out else out ++ [n]).Nodup := by
      by_cases hn : n ∈ out
      · simpa [hn] using h
      · have hne : ∀ a ∈ out, a ≠ n := fun a ha he => hn (he ▸ ha)
        simpa [hn, List.nodup_append, h] using hne
    exact ih hstep

end Tree

namespace Route

/-- No condition of the caller's own, and at most one list of methods. -/
structure Regular (r : Route H) : Prop where
  standard : ∀ mt ∈ r.matchers, mt.Standard
  single : (r.matchers.filterMap Matcher.methods?).length ≤ 1

/-- Whether the methods that the route reports, if it reports any, contain `m`. -/
def reports (r : Route H) (m : Method) : Prop := ∀ ms, r.methods? = some ms → m ∈ ms

def AllowsMethod (r : Route H) (m : Method) : Prop := ∀ ms ∈ r.matchers.filterMap Matcher.methods?, m ∈ ms

theorem methods?_eq (r : Route H) :
    r.methods? = match r.matchers.filterMap Matcher.methods? with
      | [] => none
      | lists => some (Tree.addMethods [] lists.flatten) := rfl

theorem Regular.reports_iff {r : Route H} (h : r.Regular) (m : Method) :
    r.reports m ↔ r.AllowsMethod m := by
  have hs := h.single
  rw [reports, AllowsMethod, methods?_eq]
  match hl : r.matchers.filterMap Matcher.methods? with
  | [] => simp
  | [ms] => simp [Tree.mem_addMethods]
  | _ :: _ :: _ => simp [hl] at hs

theorem judge_isSome_iff (r : Route H) (req : Request) :
    (r.judge req).isSome = true ↔ ∀ mt ∈ r.matchers, mt.judge req ≠ .rejects := by
  simp only [judge]
  split <;> simp_all

theorem judge_eq_some_false_iff (r : Route H) (req : Request) :
    r.judge req = some false ↔
      (r.judge req).isSome = true ∧ ∀ mt ∈ r.matchers, mt.judge req ≠ .methodMismatch := by
  simp only [judge]
  split <;> simp_all

/-- With another method the conditions accept a request if they did not reject it before and every list of methods
has that method. -/
theorem judge_method {r : Route H} (h : ∀ mt ∈ r.matchers, mt.Standard) (req : Request) (m : Method) :
    r.judge { req with method := m } = some false ↔ (r.judge req).isSome = true ∧ r.AllowsMethod m := by
  rw [judge_eq_some_false_iff, judge_isSome_iff, judge_isSome_iff]
  refine and_congr ?_ ?_
  · exact forall₂_congr fun mt hm => not_congr (Matcher.judge_method_eq_rejects (h mt hm) req m)
  · constructor
    · intro hno ms hms
      obtain ⟨mt, hmt, he⟩ := List.mem_filterMap.mp hms
      refine Classical.byContradiction fun hm => ?_
      exact hno mt hmt ((Matcher.judge_eq_methodMismatch_iff (h mt hmt) _).mpr ⟨ms, he, hm⟩)
    · intro hall mt hmt hj
      obtain ⟨ms, he, hm⟩ := (Matcher.judge_eq_methodMismatch_iff (h mt hmt) _).mp hj
      exact hm (hall ms (List.mem_filterMap.mpr ⟨mt, hmt, he⟩))

theorem check_eq (r : Route H) (view : View) (isMount : Bool) :
    r.check view isMount = if r.error.isSome then none
      else (r.judge view.request).bind fun mismatch => (r.capture view isMount).map (mismatch, ·) := by
  rw [check]
  cases r.judge view.request <;> cases r.capture view isMount <;> rfl

theorem capture_of_check {r : Route H} {view : View} {isMount mismatch : Bool} {vars : Vars}
    (h : r.check view isMount = some (mismatch, vars)) : r.capture view isMount = some vars := by
  simp only [check_eq, Option.ite_none_left_eq_some, Option.bind_eq_some_iff, Option.map_eq_some_iff] at h
  obtain ⟨-, _, -, found, hfound, heq⟩ := h
  rw [hfound, (Prod.mk.inj heq).2]

theorem check_isSome_iff (r : Route H) (view : View) (isMount : Bool) :
    (r.check view isMount).isSome = true ↔
      r.error = none ∧ (r.judge view.request).isSome = true ∧ (r.capture view isMount).isSome = true := by
  rw [check_eq]
  cases r.error <;> cases r.judge view.request <;> cases r.capture view isMount <;> simp

/-- A route takes a request with another method exactly if it has no part in the failure but the method and every
list of methods has the other method. -/
theorem admits_withMethod {r : Route H} (h : ∀ mt ∈ r.matchers, mt.Standard) (view : View) (m : Method)
    (isMount : Bool) :
    r.admits (view.withMethod m) isMount = true ↔
      ¬ (r.buildOnly = true ∨ (r.check view isMount).isNone = true) ∧ r.AllowsMethod m := by
  have hj : r.judge (view.withMethod m).request = some false ↔ _ := judge_method h view.request m
  have hcapture : r.capture (view.withMethod m) isMount = r.capture view isMount := rfl
  rw [admits_iff, check_eq, hcapture, not_or, Bool.not_eq_true (Option.isNone _),
    Option.isNone_eq_false_iff, check_isSome_iff, Bool.not_eq_true, and_assoc]
  refine and_congr_right fun _ => ?_
  cases he : r.error with
  | some e => simp
  | none =>
    constructor
    · rintro ⟨vars, hc⟩
      obtain ⟨mismatch, hm, hv⟩ := Option.bind_eq_some_iff.mp hc
      obtain ⟨vs, hcap, hp⟩ := Option.map_eq_some_iff.mp hv
      obtain ⟨rfl, rfl⟩ := Prod.mk.inj hp
      obtain ⟨hsome, hallows⟩ := hj.mp hm
      exact ⟨⟨rfl, hsome, by simp [hcap]⟩, hallows⟩
    · rintro ⟨⟨-, hsome, hcap⟩, hallows⟩
      obtain ⟨vars, hv⟩ := Option.isSome_iff_exists.mp hcap
      exact ⟨vars, by simp [hj.mpr ⟨hsome, hallows⟩, hv]⟩

/-- A regular route takes a request with another method exactly if it has no part in the failure but the
method and reports the other method. -/
theorem Regular.admits_withMethod {r : Route H} (h : r.Regular) (view : View) (m : Method)
    (isMount : Bool) :
    r.admits (view.withMethod m) isMount = true ↔
      ¬ (r.buildOnly = true ∨ (r.check view isMount).isNone = true) ∧ r.reports m := by
  rw [Route.admits_withMethod h.standard, h.reports_iff]

end Route

end RequestRouter
