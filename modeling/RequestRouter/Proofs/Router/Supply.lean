import RequestRouter.Proofs.Router.Transforms
/-!
When a URL is built. The slots of the host, the path and the queries of a route are gone through in order, and the
first one without a valid value is the error. The parts of a URL are computations over some of these slots, and two
computations in a row go through the slots of both.
-/
namespace RequestRouter

open RequestRouter.Http

namespace Template

variable {α β : Type} {values values' : String → Option String} {s : Slot} {slots others : List Slot}
  {t : Template} {e : RouteError}

inductive Offends (values : String → Option String) (s : Slot) : RouteError → Prop
  | missing (h : values s.var.name = none) : Offends values s (.missingVariable s.var.name)
  | invalid {v : String} (h : values s.var.name = some v) (hv : s.var.validator.isValid v = false) :
    Offends values s (.invalidVariable s.var.name v s.var.validator.regex.source)

/-- The slots before the faulty one have valid values. -/
def FirstOffence (values : String → Option String) (slots : List Slot) (e : RouteError) : Prop :=
  ∃ front s rest, slots = front ++ s :: rest ∧ (∀ x ∈ front, ∃ v, Supplied values x v) ∧ Offends values s e

theorem supplied_iff : (∃ v, Supplied values s v) ↔ ∀ e, ¬ Offends values s e := by
  constructor
  · rintro ⟨v, hv, hvalid⟩ e (hmissing | ⟨hw, hinvalid⟩)
    · rw [hmissing] at hv
      cases hv
    · obtain rfl := Option.some.inj (hv.symm.trans hw)
      exact Bool.false_ne_true (hinvalid.symm.trans hvalid)
  · intro h
    cases hv : values s.var.name with
    | none => exact absurd (.missing hv) (h _)
    | some v => exact ⟨v, hv, by_contra fun hinvalid => h _ (.invalid hv (Bool.not_eq_true _ ▸ hinvalid))⟩

theorem not_firstOffence_nil : ¬ FirstOffence values [] e := by
  rintro ⟨front, s, rest, heq, -⟩
  simp at heq

theorem firstOffence_cons :
    FirstOffence values (s :: slots) e ↔
      Offends values s e ∨ (∃ v, Supplied values s v) ∧ FirstOffence values slots e := by
  constructor
  · rintro ⟨_ | ⟨x, front⟩, s', rest, heq, hfront, hs⟩
    · obtain ⟨rfl, -⟩ := List.cons_eq_cons.mp heq
      exact .inl hs
    · obtain ⟨rfl, rfl⟩ := List.cons_eq_cons.mp heq
      exact .inr ⟨hfront s List.mem_cons_self, front, s', rest, rfl,
        fun x hx => hfront x (List.mem_cons_of_mem _ hx), hs⟩
  · rintro (hs | ⟨hsupplied, front, s', rest, rfl, hfront, hs⟩)
    · exact ⟨[], s, slots, rfl, fun _ hx => absurd hx List.not_mem_nil, hs⟩
    · exact ⟨s :: front, s', rest, rfl, List.forall_mem_cons.mpr ⟨hsupplied, hfront⟩, hs⟩

theorem firstOffence_append :
    FirstOffence values (slots ++ others) e ↔
      FirstOffence values slots e ∨ (∀ s ∈ slots, ∃ v, Supplied values s v) ∧ FirstOffence values others e := by
  induction slots with
  | nil => simp [not_firstOffence_nil]
  | cons s slots ih =>
    rw [List.cons_append, firstOffence_cons, firstOffence_cons, ih, List.forall_mem_cons]
    tauto

theorem all_supplied_iff : (∀ s ∈ slots, ∃ v, Supplied values s v) ↔ ∀ e, ¬ FirstOffence values slots e := by
  induction slots with
  | nil => simp [not_firstOffence_nil]
  | cons s slots ih =>
    simp only [List.forall_mem_cons, firstOffence_cons, ih, supplied_iff (s := s)]
    exact ⟨fun h e => not_or_intro (h.1 e) fun hs => h.2 e hs.2,
      fun h => ⟨fun e hs => h e (.inl hs), fun e hrest => h e (.inr ⟨fun e hs => h e (.inl hs), hrest⟩)⟩⟩

/-- The computation fails for the first of the slots without a valid value, and for nothing else. -/
def Asks (values : String → Option String) (slots : List Slot) (x : Except RouteError α) : Prop :=
  ∀ e, x = .error e ↔ FirstOffence values slots e

namespace Asks

variable {x : Except RouteError α}

theorem pure (values : String → Option String) (a : α) : Asks values [] (.ok a) :=
  fun _ => iff_of_false (fun h => by cases h) not_firstOffence_nil

theorem exists_eq_ok_iff (h : Asks values slots x) :
    (∃ a, x = .ok a) ↔ ∀ s ∈ slots, ∃ v, Supplied values s v := by
  rw [all_supplied_iff]
  constructor
  · rintro ⟨a, rfl⟩ e he
    cases (h e).mpr he
  · intro hnone
    cases x with
    | ok a => exact ⟨a, rfl⟩
    | error e => exact absurd ((h e).mp rfl) (hnone e)

theorem bind {f : α → Except RouteError β} (hx : Asks values slots x) (hf : ∀ a, Asks values others (f a)) :
    Asks values (slots ++ others) (x.bind f) := by
  intro e
  rw [firstOffence_append, ← hx, ← hx.exists_eq_ok_iff]
  cases x with
  | ok a => simp [Except.bind, hf a e]
  | error e' => simp [Except.bind]

theorem map (hx : Asks values slots x) (f : α → β) : Asks values slots (x.map f) := by
  intro e
  rw [← hx]
  cases x <;> simp [Except.map]

end Asks

def valueFor (values : String → Option String) (s : Slot) : Except RouteError String :=
  match values s.var.name with
  | none => .error (.missingVariable s.var.name)
  | some value =>
    if s.var.validator.isValid value then .ok value
    else .error (.invalidVariable s.var.name value s.var.validator.regex.source)

theorem valueFor_eq_error_iff : valueFor values s = .error e ↔ Offends values s e := by
  unfold valueFor
  constructor
  · intro h
    split at h
    · rename_i hmissing
      obtain rfl := Except.error.inj h
      exact .missing hmissing
    · rename_i value hvalue
      split at h
      · cases h
      · rename_i hinvalid
        obtain rfl := Except.error.inj h
        exact .invalid hvalue (Bool.not_eq_true _ ▸ hinvalid)
  · rintro (hmissing | ⟨hvalue, hinvalid⟩)
    · rw [hmissing]
    · simp only [hvalue, hinvalid, Bool.false_eq_true, if_false]

theorem asks_valueFor (values : String → Option String) (s : Slot) : Asks values [s] (valueFor values s) := by
  intro e
  rw [valueFor_eq_error_iff, firstOffence_cons]
  simp [not_firstOffence_nil]

theorem resolve_cons (values : String → Option String) (s : Slot) (slots : List Slot) :
    resolve values (s :: slots) =
      (valueFor values s).bind fun value => (resolve values slots).map ((s, value) :: ·) := by
  rw [resolve, valueFor]
  cases values s.var.name with
  | none => rfl
  | some value =>
    simp only
    split <;> rfl

theorem asks_resolve (values : String → Option String) (slots : List Slot) :
    Asks values slots (resolve values slots) := by
  induction slots with
  | nil => exact .pure values []
  | cons s slots ih =>
    rw [resolve_cons]
    exact (asks_valueFor values s).bind fun value => ih.map ((s, value) :: ·)

theorem asks_expand (t : Template) (values : String → Option String) : Asks values t.slots (t.expand values) :=
  (asks_resolve values t.slots).map _

theorem resolve_congr (h : ∀ s ∈ slots, values s.var.name = values' s.var.name) :
    resolve values slots = resolve values' slots := by
  induction slots with
  | nil => rfl
  | cons s slots ih =>
    obtain ⟨hs, hslots⟩ := List.forall_mem_cons.mp h
    rw [resolve, resolve, hs, ih hslots]

theorem expand_congr (h : ∀ n ∈ t.varNames, values n = values' n) : t.expand values = t.expand values' := by
  rw [expand, expand, resolve_congr fun s hs => h _ (List.mem_map_of_mem hs)]

end Template

/-- Of a function that is applied to an optional value only its result for that value counts. -/
theorem elim_congr {α β : Type} {o : Option α} {b : β} {f g : α → β} (h : ∀ a ∈ o, f a = g a) :
    o.elim b f = o.elim b g := by
  cases o with
  | none => rfl
  | some a => exact h a rfl

namespace Route

open Template

variable {H : Type} {r : Route H} {vars vars' : Vars} {pairs : List (String × String)} {u : BuiltUrl}

/-- The slots of the host, the path and the queries. -/
def slots (r : Route H) : List Slot := r.templates.flatMap (·.slots)

theorem asks_expandQueries (vars : Vars) (ts : List Template) :
    Asks vars.get? (ts.flatMap (·.slots)) (expandQueries vars ts) := by
  induction ts with
  | nil => exact .pure _ _
  | cons t ts ih => exact (asks_expand t _).bind fun q => ih.map (q :: ·)

theorem expandQueries_congr {ts : List Template}
    (h : ∀ t ∈ ts, t.expand vars.get? = t.expand vars'.get?) :
    expandQueries vars ts = expandQueries vars' ts := by
  induction ts with
  | nil => rfl
  | cons t ts ih =>
    obtain ⟨ht, hts⟩ := List.forall_mem_cons.mp h
    rw [expandQueries, expandQueries, ht, ih hts]

theorem asks_host (r : Route H) (vars : Vars) :
    Asks vars.get? (r.host.toList.flatMap (·.slots))
      (r.host.elim (.ok none) fun t => (t.expand vars.get?).map some) := by
  cases r.host with
  | none => exact .pure _ _
  | some t => simpa using (asks_expand t vars.get?).map some

theorem asks_path (r : Route H) (vars : Vars) :
    Asks vars.get? (r.path.toList.flatMap (·.slots)) (r.path.elim (.ok "") fun t => r.expandPath t vars) := by
  cases r.path with
  | none => exact .pure _ _
  | some t => simpa [expandPath] using (asks_expand t vars.get?).map _

/-- A URL goes through the slots of the host, then through those of the path and of the queries. -/
theorem asks_urlOf (r : Route H) (vars : Vars) : Asks vars.get? r.slots (r.urlOf vars) := by
  rw [slots, templates, List.flatMap_append, List.flatMap_append, List.append_assoc]
  exact (r.asks_host vars).bind fun _ => (r.asks_path vars).bind fun _ =>
    (asks_expandQueries vars r.queries).map _

theorem urlOf_congr (h : ∀ n ∈ r.varNames, vars.get? n = vars'.get? n) :
    r.urlOf vars = r.urlOf vars' ∧ r.urlHostOf vars = r.urlHostOf vars' ∧ r.urlPathOf vars = r.urlPathOf vars' := by
  have hexpand : ∀ t ∈ r.templates, t.expand vars.get? = t.expand vars'.get? := fun t ht =>
    expand_congr fun n hn => h n (List.mem_flatMap.mpr ⟨t, ht, hn⟩)
  have hhost : ∀ t ∈ r.host, t.expand vars.get? = t.expand vars'.get? := fun t ht =>
    hexpand t (List.mem_append_left _ (List.mem_append_left _ (Option.mem_toList.mpr ht)))
  have hpath : ∀ t ∈ r.path, t.expand vars.get? = t.expand vars'.get? := fun t ht =>
    hexpand t (List.mem_append_left _ (List.mem_append_right _ (Option.mem_toList.mpr ht)))
  have hqueries : expandQueries vars r.queries = expandQueries vars' r.queries :=
    expandQueries_congr fun t ht => hexpand t (List.mem_append_right _ ht)
  have hpathText : ∀ t ∈ r.path, r.expandPath t vars = r.expandPath t vars' := fun t ht => by
    rw [expandPath, expandPath, hpath t ht]
  refine ⟨?_, elim_congr fun t ht => by rw [hhost t ht], elim_congr fun t ht => by rw [hpathText t ht]⟩
  rw [urlOf, urlOf, elim_congr fun t ht => congrArg _ (hhost t ht), elim_congr hpathText, hqueries]

theorem parts_of_urlOf (h : r.urlOf vars = .ok u) :
    (r.host.isSome = true → r.urlHostOf vars = .ok ⟨u.scheme, u.host, "", none⟩) ∧
      (r.path.isSome = true → r.urlPathOf vars = .ok ⟨none, none, u.path, none⟩) := by
  obtain ⟨host, hhost, h⟩ := exists_of_bind_eq_ok h
  obtain ⟨path, hpath, h⟩ := exists_of_bind_eq_ok h
  obtain ⟨qs, -, rfl⟩ := exists_of_map_eq_ok h
  constructor
  · intro hsome
    obtain ⟨t, ht⟩ := Option.isSome_iff_exists.mp hsome
    rw [ht] at hhost
    obtain ⟨text, htext, rfl⟩ := exists_of_map_eq_ok hhost
    rw [urlHostOf, ht, Option.elim_some, htext]
    rfl
  · intro hsome
    obtain ⟨t, ht⟩ := Option.isSome_iff_exists.mp hsome
    rw [ht, Option.elim_some] at hpath
    rw [urlPathOf, ht, Option.elim_some, hpath]
    rfl

/-- A URL is built exactly if the route has no error and every variable of its host, path and queries has a valid
value after the transforms. Otherwise the error is that of the route, or else that of the first variable, in this
order, whose value is missing or not valid. Values that agree on the variables of the route after the transforms give
the same URL and the same parts of it, and if the URL is built, its host and its path can be built alone. -/
theorem url_outcome (r : Route H) (pairs others : List (String × String)) :
    let values (pairs : List (String × String)) := (r.transform (.ofPairs pairs)).get?
    ((∃ u, r.url pairs = .ok u) ↔ r.error = none ∧ ∀ s ∈ r.slots, ∃ v, Supplied (values pairs) s v) ∧
      (∀ e, r.url pairs = .error e ↔
        r.error = some e ∨ r.error = none ∧ FirstOffence (values pairs) r.slots e) ∧
      ((∀ n ∈ r.varNames, values pairs n = values others n) →
        r.url pairs = r.url others ∧ r.urlHost pairs = r.urlHost others ∧ r.urlPath pairs = r.urlPath others) ∧
      ∀ u, r.url pairs = .ok u →
        (r.host.isSome = true → r.urlHost pairs = .ok ⟨u.scheme, u.host, "", none⟩) ∧
          (r.path.isSome = true → r.urlPath pairs = .ok ⟨none, none, u.path, none⟩) := by
  intro values
  have h := r.buildsFrom_transform pairs
  have h' := r.buildsFrom_transform others
  have hasks := r.asks_urlOf (r.transform (.ofPairs pairs))
  rw [h.url, h.urlHost, h.urlPath, h'.url, h'.urlHost, h'.urlPath]
  cases r.error with
  | some e => simp
  | none =>
    simp only [Option.elim_none, true_and, reduceCtorEq, false_or]
    exact ⟨hasks.exists_eq_ok_iff, hasks, urlOf_congr, fun u => parts_of_urlOf⟩

/-- Of a host, a path and a query, the host misses its variable while the value for the path is not valid. With
both given, and the one of the query left to a transform, a further value changes nothing. -/
theorem url_outcome_three_templates :
    let start : Router Unit × Setup := Router.ofConfig ⟨false, false, false, true⟩
    let calls : List (Call Unit) := [.host "{sub}.example.com", .path "/u/{id:[0-9]+}", .queries [("q", "{term}")],
      .transform (.ofEdits [.default "term" "all"])]
    let r : Route Unit := (Call.applyAll calls (start.1.newRoute start.2).1 (start.1.newRoute start.2).2).1
    let given := [("sub", "api"), ("id", "7")]
    FirstOffence (r.transform (.ofPairs [("id", "x")])).get? r.slots (.missingVariable "sub") ∧
      r.url (given ++ [("zone", "eu")]) = .ok ⟨some "http", some "api.example.com", "/u/7", some "q=all"⟩ ∧
      r.urlHost (given ++ [("zone", "eu")]) = .ok ⟨some "http", some "api.example.com", "", none⟩ ∧
      r.urlPath (given ++ [("zone", "eu")]) = .ok ⟨none, none, "/u/7", none⟩ := by
  intro start calls r given
  have herror : r.error.isNone = true := by decide +kernel
  have hmissing : r.url [("id", "x")] = .error (.missingVariable "sub") := by decide +kernel
  have hfirst := (((url_outcome r [("id", "x")] []).2.1 _).mp hmissing).resolve_left
    (by simp [Option.isNone_iff_eq_none.mp herror])
  have hagrees : ∀ n ∈ r.varNames, (r.transform (.ofPairs (given ++ [("zone", "eu")]))).get? n =
      (r.transform (.ofPairs given)).get? n := by
    decide +kernel
  have hu : r.url given = .ok ⟨some "http", some "api.example.com", "/u/7", some "q=all"⟩ := by decide +kernel
  obtain ⟨hurl, hhost, hpath⟩ := (url_outcome r (given ++ [("zone", "eu")]) given).2.2.1 hagrees
  obtain ⟨hostAlone, pathAlone⟩ := (url_outcome r given []).2.2.2 _ hu
  have hboth : r.host.isSome = true ∧ r.path.isSome = true := by decide +kernel
  exact ⟨hfirst.2, hurl.trans hu, hhost.trans (hostAlone hboth.1), hpath.trans (pathAlone hboth.2)⟩

end Route

end RequestRouter
