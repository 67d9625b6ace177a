import Mathlib.Data.List.Nodup
import Mathlib.Data.List.TakeWhile
import RequestRouter.Proofs.Router.Origins
import RequestRouter.Proofs.Router.RoundTrip
/-!
The variables of a route. Calls of which none fails leave no name twice, a template that extends another one has all
of its variables, and a match keeps every value that a template takes out of the request.
-/
namespace RequestRouter

open RequestRouter.Text RequestRouter.Http

variable {H : Type}

namespace Cut

/-- The names of the variables in the spans. -/
def names (cut : Cut) : List String := cut.spans.map fun span => String.ofList (Form.cut ':' span.2).1

theorem names_join (a b : Cut) : (a.join b).names = a.names ++ b.names := by
  obtain ⟨_ | ⟨⟨before, span⟩, rest⟩, tail⟩ := b <;> simp [join, names]

theorem names_eq_nil {s : List Char} (ho : '{' ∉ s) (hc : '}' ∉ s) :
    ∃ cut, ofChars? s = some cut ∧ cut.names = [] := by
  have hscan : ∀ before : List Char, scan 0 before [] s = some ⟨[], before.reverse ++ s⟩ := by
    induction s with
    | nil => simp [scan]
    | cons c s ih =>
      rw [List.mem_cons, not_or] at ho hc
      intro before
      rw [scan_zero_char _ _ _ (Ne.symm ho.1) (Ne.symm hc.1), ih ho.2 hc.2]
      simp
  exact ⟨_, hscan [], rfl⟩

end Cut

namespace Template

variable {t parent : Template} {front back : List Char}

theorem Made.exists_names (h : t.Made) : ∃ cut, Cut.ofChars? t.body = some cut ∧ t.varNames = cut.names := by
  obtain ⟨cut, hcut, hslots⟩ := h.cut
  have hmap : ∀ {spans : List (List Char × List Char)} {slots : List Slot},
      List.Forall₂ (Slot.Made t.kind) spans slots →
        slots.map (·.var.name) = spans.map fun span => String.ofList (Form.cut ':' span.2).1 := by
    intro spans slots hall
    induction hall with
    | nil => rfl
    | cons hs _ ih => rw [List.map_cons, List.map_cons, hs.var.name, ih]
  exact ⟨cut, hcut, hmap hslots⟩

theorem Made.varNames_behind (h : t.Made) (hp : parent.Made) (hbody : t.body = front ++ parent.body) :
    ∀ n ∈ parent.varNames, n ∈ t.varNames := by
  obtain ⟨cut, hcut, hnames⟩ := h.exists_names
  obtain ⟨a, ha, hparent⟩ := hp.exists_names
  obtain ⟨b, -, rfl⟩ := Cut.exists_join (hbody ▸ hcut) ha
  rw [hnames, hparent, Cut.names_join]
  exact fun n hn => List.mem_append_right _ hn

/-- So has a template that begins with another one, also without plain text at the end of that one. -/
theorem Made.varNames_before (h : t.Made) (hp : parent.Made) {plain : List Char} (ho : '{' ∉ plain)
    (hc : '}' ∉ plain) (hparent : parent.body = front ++ plain) (hbody : t.body = front ++ back) :
    ∀ n ∈ parent.varNames, n ∈ t.varNames := by
  obtain ⟨cut, hcut, hnames⟩ := h.exists_names
  obtain ⟨a, ha, hparentNames⟩ := hp.exists_names
  obtain ⟨b, hb, hbnames⟩ := Cut.names_eq_nil ho hc
  obtain ⟨c, hfront, rfl⟩ := Cut.exists_join (hparent ▸ ha) hb
  rw [hbody, Cut.ofChars?_append hfront] at hcut
  obtain ⟨d, -, rfl⟩ := Option.map_eq_some_iff.mp hcut
  rw [hnames, hparentNames, Cut.names_join, Cut.names_join, hbnames, List.append_nil]
  exact fun n hn => List.mem_append_left _ hn

theorem body_eq_source (h : t.kind ≠ .query) : t.body = t.source.toList := by
  rw [body, splitKey, if_neg h]

end Template

theorem Call.exists_slashes (s : List Char) :
    ∃ slashes, s = trimSlashes s ++ slashes ∧ ∀ c ∈ slashes, c = '/' := by
  refine ⟨(s.reverse.takeWhile (· == '/')).reverse, ?_, fun c hc => ?_⟩
  · rw [trimSlashes, ← List.reverse_append, List.takeWhile_append_dropWhile, List.reverse_reverse]
  · exact eq_of_beq (List.mem_takeWhile_imp (p := (· == '/')) (List.mem_reverse.mp hc))

namespace Scope

def templates (s : Scope) : List Template := s.host.toList ++ s.path.toList ++ s.queries

/-- The variables that the routes of a router begin with. -/
def varNames (s : Scope) : List String := s.templates.flatMap Template.varNames

structure SameTemplates (s s' : Scope) : Prop where
  host : s.host = s'.host
  path : s.path = s'.path
  queries : s.queries = s'.queries

namespace SameTemplates

variable {s s' s'' : Scope}

theorem rfl {s : Scope} : SameTemplates s s := ⟨.refl _, .refl _, .refl _⟩

theorem trans (h : s.SameTemplates s') (h' : s'.SameTemplates s'') : s.SameTemplates s'' :=
  ⟨h.host.trans h'.host, h.path.trans h'.path, h.queries.trans h'.queries⟩

theorem varNames_eq (h : s.SameTemplates s') : s.varNames = s'.varNames := by
  rw [varNames, varNames, templates, templates, h.host, h.path, h.queries]

end SameTemplates

end Scope

theorem Configured.varNames_subset {scope : Scope} {id : RouteId} {r : Route H} {st : Setup}
    (h : Configured (.new scope id) r st) (hs : scope.Valid) : ∀ n ∈ scope.varNames, n ∈ r.varNames := by
  intro n hn
  obtain ⟨t, ht, hn⟩ := List.mem_flatMap.mp hn
  rw [Scope.templates, List.mem_append, List.mem_append, Option.mem_toList, Option.mem_toList] at ht
  have hmem : ∀ t' ∈ r.templates, n ∈ t'.varNames → n ∈ r.varNames :=
    fun t' ht' hn' => List.mem_flatMap.mpr ⟨t', ht', hn'⟩
  rcases ht with (ht | ht) | ht
  · obtain ⟨hparent, hkind⟩ := hs.host t ht
    rcases h.host with heq | ⟨t', label, ht', hcompiled, hk, hsource⟩
    · exact hmem t (by simp [Route.templates, heq, Route.new, Option.mem_def.mp ht]) hn
    · refine hmem t' (by simp [Route.templates, ht']) ?_
      have hbody : t'.body = (label ++ ".").toList ++ t.body := by
        rw [Template.body_eq_source (by simp [hk]), Template.body_eq_source (by simp [hkind]), hsource]
        simp [Route.new, Option.mem_def.mp ht, String.toList_append]
      exact hcompiled.made.varNames_behind hparent.made hbody n hn
  · obtain ⟨hparent, hkind⟩ := hs.path t ht
    rcases h.path with heq | ⟨t', text, ht', hcompiled, hk, hsource⟩
    · exact hmem t (by simp [Route.templates, heq, Route.new, Option.mem_def.mp ht]) hn
    · refine hmem t' (by simp [Route.templates, ht']) ?_
      have hkq : t.kind ≠ .query := by rcases hkind with hk | hk <;> simp [hk]
      have hkq' : t'.kind ≠ .query := by rcases hk with hk | hk <;> simp [hk]
      obtain ⟨slashes, hslashes, hplain⟩ := Call.exists_slashes t.source.toList
      have hbody : t'.body = Call.trimSlashes t.source.toList ++ text.toList := by
        rw [Template.body_eq_source hkq', hsource]
        simp [Call.fullPath, Route.new, Option.mem_def.mp ht, String.toList_append]
      exact hcompiled.made.varNames_before hparent.made (fun hc => absurd (hplain _ hc) (by decide))
        (fun hc => absurd (hplain _ hc) (by decide)) ((Template.body_eq_source hkq).trans hslashes) hbody n hn
  · obtain ⟨own, hqueries, -⟩ := h.queries
    refine hmem t ?_ hn
    rw [Route.templates, hqueries]
    exact List.mem_append_right _ (List.mem_append_left _ ht)

namespace Route

theorem firstRepeated_eq_none {seen names : List String} :
    firstRepeated seen names = none ↔ names.Nodup ∧ ∀ n ∈ names, n ∉ seen := by
  induction names generalizing seen with
  | nil => simp [firstRepeated]
  | cons n ns ih =>
    rw [firstRepeated, List.nodup_cons, List.forall_mem_cons]
    by_cases hn : n ∈ seen
    · simp [hn]
    · rw [if_neg (by simpa using hn), ih]
      simp only [List.mem_cons, not_or, hn, not_false_eq_true, true_and]
      constructor
      · rintro ⟨hnodup, hall⟩
        exact ⟨⟨fun hmem => (hall n hmem).1 rfl, hnodup⟩, fun m hm => (hall m hm).2⟩
      · rintro ⟨⟨hmem, hnodup⟩, hall⟩
        exact ⟨hnodup, fun m hm => ⟨fun heq => hmem (heq ▸ hm), hall m hm⟩⟩

theorem repeatedVar?_eq_none {r : Route H} : r.repeatedVar? = none ↔ r.varNames.Nodup := by
  rw [repeatedVar?, Option.map_eq_none_iff, firstRepeated_eq_none]
  simp

end Route

namespace Call

variable {r : Route H} {st : Setup}

theorem addQueries_nodup (pairs : List (String × String)) (hok : (addQueries pairs r st).fault = none) :
    (addQueries pairs r st).route.varNames.Nodup := by
  induction pairs generalizing r st with
  | nil => exact Route.repeatedVar?_eq_none.mp hok
  | cons p rest ih =>
    simp only [addQueries] at hok ⊢
    split at hok
    · cases hok
    · exact ih hok

/-- A call that does not fail keeps the names of variables distinct. -/
theorem attempt_nodup (h : r.varNames.Nodup) (c : Call H) (hok : (c.attempt r st).fault = none) :
    (c.attempt r st).route.varNames.Nodup := by
  cases c with
  | path t | leading t =>
    simp only [attempt, setPath] at hok ⊢
    split at hok
    · cases hok
    · rename_i hslash
      rw [if_neg hslash]
      split at hok
      · cases hok
      · exact Route.repeatedVar?_eq_none.mp hok
  | host t =>
    simp only [attempt, setHost] at hok ⊢
    split at hok
    · cases hok
    · exact Route.repeatedVar?_eq_none.mp hok
  | queries pairs => exact addQueries_nodup pairs hok
  | methods names | headers names | headerPatterns names =>
    simp only [attempt]
    split <;> exact h
  | schemes names =>
    simp only [attempt, addSchemes, addMatcher]
    split <;> exact h
  | name n =>
    simp only [attempt, setName]
    split
    · exact h
    · split <;> exact h
  | matcher | transform | buildOnly | handler => exact h

end Call

namespace Vars

variable {vars : Vars} {pairs : List (String × String)}

theorem put_of_not_mem {name : String} (h : name ∉ vars.names) (value : String) :
    vars.put name value = vars ++ [(name, value)] := by
  induction vars with
  | nil => rfl
  | cons p vars ih =>
    rw [names, List.map_cons, List.mem_cons, not_or] at h
    rw [put, if_neg (Ne.symm h.1), ih h.2, List.cons_append]

theorem putAll_of_nodup (h : (vars.names ++ pairs.map (·.1)).Nodup) : vars.putAll pairs = vars ++ pairs := by
  induction pairs generalizing vars with
  | nil => exact (List.append_nil vars).symm
  | cons p pairs ih =>
    rw [List.map_cons, List.nodup_middle, List.nodup_cons, List.mem_append, not_or] at h
    have hnames : (vars.put p.1 p.2).names = vars.names ++ [p.1] := by
      rw [put_of_not_mem h.1.1, names, List.map_append]
      rfl
    have hnodup : ((vars.put p.1 p.2).names ++ pairs.map (·.1)).Nodup := by
      rw [hnames, List.append_assoc, List.singleton_append, List.nodup_middle, List.nodup_cons, List.mem_append]
      exact ⟨fun hmem => hmem.elim h.1.1 h.1.2, h.2⟩
    rw [putAll_cons, ih hnodup, put_of_not_mem h.1.1, List.append_assoc, List.singleton_append]

theorem ofPairs_of_nodup (h : (pairs.map (·.1)).Nodup) : ofPairs pairs = pairs := putAll_of_nodup h

theorem selects_ofPairs (h : (pairs.map (·.1)).Nodup) {part : List (String × String)} (hpart : ∀ p ∈ part, p ∈ pairs) :
    (ofPairs pairs).Selects (part.map (·.1)) part :=
  ⟨rfl, fun p hp => get?_putAll_of_mem h (hpart p hp)⟩

end Vars

namespace Template

variable {t : Template} {regex : RequestRouter.Regex} {text : String} {vs : List (String × String)}

theorem names_of_capturesWith (h : t.capturesWith regex text = some vs) : vs.map (·.1) = t.varNames := by
  obtain ⟨found, -, hvalues⟩ := Option.bind_eq_some_iff.mp h
  have hall := values_eq_some.mp hvalues
  have hmap : ∀ {slots : List Slot} {ws : List (String × String)},
      List.Forall₂ (Captured found text.toList) slots ws → ws.map (·.1) = slots.map (·.var.name) := by
    intro slots ws hall
    induction hall with
    | nil => rfl
    | cons hw _ ih => rw [List.map_cons, List.map_cons, hw.1, ih]
  exact hmap hall

end Template

namespace Route

theorem exists_of_queries {view : View} {queries : List Template} {found : List (List (String × String))}
    (h : (queries.mapM fun t : Template => do t.captures (← view.queryValue? (t.queryKey.getD ""))) = some found) :
    found.flatten.map (·.1) = queries.flatMap Template.varNames ∧
      ∀ t ∈ queries, ∃ value vs, view.queryValue? (t.queryKey.getD "") = some value ∧ t.captures value = some vs ∧
        vs.map (·.1) = t.varNames ∧ ∀ p ∈ vs, p ∈ found.flatten := by
  induction queries generalizing found with
  | nil =>
    obtain rfl : [] = found := Option.some.inj h
    exact ⟨rfl, List.forall_mem_nil _⟩
  | cons t queries ih =>
    rw [List.mapM_cons] at h
    obtain ⟨vs, hvs, h⟩ := Option.bind_eq_some_iff.mp h
    obtain ⟨rest, hrest, h⟩ := Option.bind_eq_some_iff.mp h
    obtain rfl : vs :: rest = found := Option.some.inj h
    obtain ⟨value, hvalue, hcaptures⟩ := Option.bind_eq_some_iff.mp hvs
    obtain ⟨hnames, hall⟩ := ih hrest
    have hvsNames := Template.names_of_capturesWith hcaptures
    refine ⟨by rw [List.flatten_cons, List.map_append, hvsNames, hnames, List.flatMap_cons],
      List.forall_mem_cons.mpr ⟨⟨value, vs, hvalue, hcaptures, hvsNames, fun p hp => ?_⟩, fun q hq => ?_⟩⟩
    · exact List.mem_append_left _ hp
    · obtain ⟨value', vs', hvalue', hcaptures', hnames', hmem⟩ := hall q hq
      exact ⟨value', vs', hvalue', hcaptures', hnames', fun p hp => List.mem_append_right _ (hmem p hp)⟩

theorem exists_of_capture {r : Route H} {view : View} {isMount : Bool} {vars : Vars}
    (h : r.capture view isMount = some vars) :
    ∃ fromHost fromPath fromQueries,
      (r.host.elim (some []) fun t =>
        if isMount then t.capturesSuffix (view.hostFor t) else t.captures (view.hostFor t)) = some fromHost ∧
      (r.path.elim (some []) fun t => t.captures (view.path r.scope.useEncodedPath)) = some fromPath ∧
      (r.queries.mapM fun t : Template => do t.captures (← view.queryValue? (t.queryKey.getD ""))) =
        some fromQueries ∧
      vars = Vars.ofPairs (fromHost ++ fromPath ++ fromQueries.flatten) := by
  have hcapture : r.capture view isMount =
      (r.host.elim (some []) fun t =>
        if isMount then t.capturesSuffix (view.hostFor t) else t.captures (view.hostFor t)).bind fun fromHost =>
      (r.path.elim (some []) fun t => t.captures (view.path r.scope.useEncodedPath)).bind fun fromPath =>
      (r.queries.mapM fun t : Template => do t.captures (← view.queryValue? (t.queryKey.getD ""))).bind
        fun fromQueries => some (Vars.ofPairs (fromHost ++ fromPath ++ fromQueries.flatten)) := by
    unfold capture
    cases r.host <;> cases r.path <;> cases isMount <;> rfl
  rw [hcapture] at h
  obtain ⟨fromHost, hhost, h⟩ := Option.bind_eq_some_iff.mp h
  obtain ⟨fromPath, hpath, h⟩ := Option.bind_eq_some_iff.mp h
  obtain ⟨fromQueries, hqueries, h⟩ := Option.bind_eq_some_iff.mp h
  exact ⟨fromHost, fromPath, fromQueries, hhost, hpath, hqueries, (Option.some.inj h).symm⟩

/-- The names of the variables of a match are those of the route, and every template finds its own values among
them. -/
structure Finds (r : Route H) (view : View) (isMount : Bool) (vars : Vars) : Prop where
  names : vars.names = r.varNames
  host : ∀ t, r.host = some t → ∃ vs,
    (if isMount then t.capturesSuffix (view.hostFor t) else t.captures (view.hostFor t)) = some vs ∧
      vars.Selects t.varNames vs
  path : ∀ t, r.path = some t → ∃ vs, t.captures (view.path r.scope.useEncodedPath) = some vs ∧
    vars.Selects t.varNames vs
  queries : ∀ t ∈ r.queries, ∃ value vs, view.queryValue? (t.queryKey.getD "") = some value ∧
    t.captures value = some vs ∧ vars.Selects t.varNames vs

theorem capture_finds {r : Route H} (hdistinct : r.varNames.Nodup) {view : View} {isMount : Bool} {vars : Vars}
    (h : r.capture view isMount = some vars) : r.Finds view isMount vars := by
  obtain ⟨fromHost, fromPath, fromQueries, hhost, hpath, hqueries, rfl⟩ := exists_of_capture h
  obtain ⟨hqueryNames, hqueryAll⟩ := exists_of_queries hqueries
  have hhostNames : fromHost.map (·.1) = r.host.toList.flatMap Template.varNames := by
    cases hr : r.host with
    | none =>
      rw [hr] at hhost
      cases hhost
      rfl
    | some t =>
      rw [hr] at hhost
      have hnames : fromHost.map (·.1) = t.varNames := by
        cases isMount <;> exact Template.names_of_capturesWith hhost
      rw [hnames, Option.toList_some, List.flatMap_singleton]
  have hpathNames : fromPath.map (·.1) = r.path.toList.flatMap Template.varNames := by
    cases hr : r.path with
    | none =>
      rw [hr] at hpath
      cases hpath
      rfl
    | some t =>
      rw [hr] at hpath
      rw [Template.names_of_capturesWith hpath, Option.toList_some, List.flatMap_singleton]
  have hnames : (fromHost ++ fromPath ++ fromQueries.flatten).map (·.1) = r.varNames := by
    rw [List.map_append, List.map_append, hhostNames, hpathNames, hqueryNames, varNames, templates,
      List.flatMap_append, List.flatMap_append]
  have hnodup : ((fromHost ++ fromPath ++ fromQueries.flatten).map (·.1)).Nodup := hnames ▸ hdistinct
  have hselects : ∀ {names : List String} {vs : List (String × String)}, vs.map (·.1) = names →
      (∀ p ∈ vs, p ∈ fromHost ++ fromPath ++ fromQueries.flatten) →
      (Vars.ofPairs (fromHost ++ fromPath ++ fromQueries.flatten)).Selects names vs := by
    rintro _ vs rfl hmem
    exact Vars.selects_ofPairs hnodup hmem
  refine ⟨?_, fun t ht => ?_, fun t ht => ?_, fun t ht => ?_⟩
  · rw [Vars.ofPairs_of_nodup hnodup]
    exact hnames
  · rw [ht] at hhost hhostNames
    rw [Option.toList_some, List.flatMap_singleton] at hhostNames
    exact ⟨fromHost, hhost, hselects hhostNames fun p hp => List.mem_append_left _ (List.mem_append_left _ hp)⟩
  · rw [ht] at hpath hpathNames
    rw [Option.toList_some, List.flatMap_singleton] at hpathNames
    exact ⟨fromPath, hpath, hselects hpathNames fun p hp => List.mem_append_left _ (List.mem_append_right _ hp)⟩
  · obtain ⟨value, vs, hvalue, hcaptures, hvs, hmem⟩ := hqueryAll t ht
    exact ⟨value, vs, hvalue, hcaptures, hselects hvs fun p hp => List.mem_append_right _ (hmem p hp)⟩

end Route

end RequestRouter
