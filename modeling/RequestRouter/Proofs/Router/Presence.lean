import RequestRouter.Proofs.Pattern.Grammar
import RequestRouter.Proofs.Pattern.Unique
import RequestRouter.Proofs.Regex.Words
import RequestRouter.Proofs.Router.Variables
/-!
Queries that ask for a key alone, and queries that bind whatever its value is. Both look at the first value of the
key. The pattern that stands for any value reads no line feed, so that they accept exactly the values without one.
-/
namespace RequestRouter

open RequestRouter.Http RequestRouter.Text RequestRouter.Regex RequestRouter.Regex.Expr

/-- What the values of a query are read by unless a constraint says something else. -/
def anything : Pattern := upTo (plus (one (.compl (.single '\n'))) true) 1 true

theorem read?_anything : read? TemplateKind.query.defaultPattern.toList = some anything := by decide +kernel

theorem accepts_anything {w : List Char} : anything.Accepts w ↔ '\n' ∉ w := by
  have hstar : anything.Accepts w ↔ ∀ c ∈ w, (CharSet.compl (.single '\n')).mem c = true := accepts_star_one
  have hmem (c : Char) : (CharSet.compl (.single '\n')).mem c = true ↔ c ≠ '\n' := by
    rw [CharSet.mem, Bool.not_eq_true', Bool.eq_false_iff]
    exact not_congr (CharSet.mem_single '\n' c)
  rw [hstar]
  simp only [hmem]
  exact ⟨fun h hn => h _ hn rfl, fun h c hc heq => h (heq ▸ hc)⟩

namespace Template

variable {cache : PatternCache} {options : TemplateOptions} {k name : String} {t : Template}

theorem search_anything {e : Pattern} {text : List Char}
    (he : ∀ i j, e.Spans text i j ↔ anything.Spans text i j) :
    ((concat [look .textStart, e, look .textEnd]).search text).isSome = true ↔ '\n' ∉ text := by
  rw [search_isSome_iff, ← accepts_anything, ← spans_whole]
  simp only [spans_textStart, spans_concat_cons (e := e), spans_textEnd, he]
  constructor
  · rintro ⟨i, j, rfl, k, hspans, rfl, rfl⟩
    exact hspans
  · intro hspans
    exact ⟨0, _, rfl, _, hspans, rfl, rfl⟩

/-- The name of a variable: braces in it are balanced, and it ends before a colon. -/
structure IsName (name : String) : Prop where
  nonempty : name ≠ ""
  colon : ':' ∉ name.toList
  balanced : Balanced name.toList

theorem IsName.cuts (hname : IsName name) :
    (⟨[([], name.toList)], []⟩ : Cut).Cuts ('{' :: name.toList ++ ['}']) :=
  ⟨by simp [Cut.toChars], by simp [Braceless], by simpa using hname.balanced, Braceless.nil⟩

theorem IsName.wellFormed (hname : IsName name) : WellFormed Regex.compile? [] [([], name.toList)] := by
  obtain ⟨hspan, hconstraint⟩ := span_unconstrained hname.colon
  refine wellFormed_cons.mpr ⟨⟨?_, List.not_mem_nil, ?_⟩, wellFormed_nil⟩
  · rw [hspan, String.ofList_toList]
    exact hname.nonempty
  · rw [hconstraint]
    rintro p ⟨⟩

theorem isValid_of_unconstrained {span : List Char} {x : Variable} (h : x.Made .query span)
    (hconstraint : constraint? span = none) (v : String) : x.validator.isValid v = true ↔ '\n' ∉ v.toList := by
  have hread : read? x.pattern.toList = some anything := by
    rw [h.pattern, hconstraint]
    exact read?_anything
  rw [Validator.isValid, Bool.and_eq_true, isMatch_anchored h.regex hread, accepts_anything]
  refine and_iff_left ?_
  rw [Validator.acceptsExtra, h.extra, hconstraint]
  rfl

theorem query_pattern {source : String} {cut : Cut} {e : Pattern} {pattern : String} (hc : cache.Faithful)
    (hcuts : cut.Cuts (bodyOf .query source)) (ht : (compile source .query options cache).1 = .ok t)
    (hpattern : patternOf .query options source cut = pattern.toList)
    (he : read? ('^' :: pattern.toList) = some (concat [look .textStart, e, look .textEnd]))
    (hspans : ∀ text i j, e.Spans text i j ↔ anything.Spans text i j) (v : String) :
    (t.regex.search v).isSome = true ↔ '\n' ∉ v.toList := by
  have hread := (read?_of_compile? (compile_pattern hc hcuts ht)).1
  rw [hpattern, String.toList_ofList, he] at hread
  rw [Regex.search, ← Option.some_inj.mp hread]
  exact search_anything (hspans _)

theorem compile_presence (hc : cache.Faithful) (hk : '=' ∉ k.toList) (options : TemplateOptions) :
    ∃ t, (compile k .query options cache).1 = .ok t ∧ t.queryKey = some k ∧ t.varNames = [] ∧
      ∀ v, t.captures v = if '\n' ∈ v.toList then none else some [] := by
  have hbody : bodyOf .query k = [] := by rw [bodyOf, bodyOf_key hk]
  have hcuts : (⟨[], []⟩ : Cut).Cuts (bodyOf .query k) := by
    rw [hbody]
    exact ⟨rfl, by simp, by simp, Braceless.nil⟩
  have hpattern : patternOf .query options k ⟨[], []⟩ = ".*$".toList := by
    simp [patternOf, Cut.core, Cut.assembled, hbody, Regex.literal, literalText, TemplateKind.defaultPattern]
  have hwhole : WholeFits Regex.compile? .query ".*$".toList := by decide +kernel
  obtain ⟨t, ht⟩ := (compile_ok_iff hc).mpr ⟨_, hcuts, wellFormed_nil, hpattern ▸ hwhole⟩
  have hslots : t.slots = [] := (Except.ok.inj (compile_slots hcuts ht)).symm
  have hsearch := query_pattern hc hcuts ht hpattern (e := anything) (by decide +kernel) fun _ _ _ => Iff.rfl
  obtain ⟨rfl, hkind, -, ⟨_, hbuilt⟩, -⟩ := compile_built hc (Prod.ext ht rfl)
  refine ⟨t, ht, ?_, ?_, fun v => ?_⟩
  · rw [hbuilt.queryKey, hkind, bodyOf_key hk, Option.map_some, String.ofList_toList]
  · rw [varNames, hslots]
    rfl
  · have hv := hsearch v
    rw [captures, capturesWith, hslots]
    split
    · rename_i hmem
      have hnone : t.regex.search v = none := by
        rw [← Option.not_isSome_iff_eq_none, hv]
        exact fun h => h hmem
      rw [hnone]
      rfl
    · rename_i hmem
      obtain ⟨found, hfound⟩ := Option.isSome_iff_exists.mp (hv.mpr hmem)
      rw [hfound]
      rfl

/-- A query of which the value is a variable binds every value without a line feed to it. -/
theorem compile_binding (hc : cache.Faithful) (hk : '=' ∉ k.toList) (hname : IsName name)
    (options : TemplateOptions) :
    ∃ t, (compile (k ++ "=" ++ ("\x7b" ++ name ++ "\x7d")) .query options cache).1 = .ok t ∧
      t.queryKey = some k ∧ t.varNames = [name] ∧
      ∀ v, t.captures v = if '\n' ∈ v.toList then none else some [(name, v)] := by
  generalize hsource : k ++ "=" ++ ("\x7b" ++ name ++ "\x7d") = source
  have hsplit : splitKey .query source.toList = (some k.toList, '{' :: name.toList ++ ['}']) := by
    rw [← hsource, ← bodyOf_pair hk]
    simp
  have hbody : bodyOf .query source = '{' :: name.toList ++ ['}'] := by rw [bodyOf, hsplit]
  have hcuts : (⟨[([], name.toList)], []⟩ : Cut).Cuts (bodyOf .query source) := by
    rw [hbody]
    exact hname.cuts
  obtain ⟨hspan, hconstraint⟩ := span_unconstrained hname.colon
  rw [String.ofList_toList] at hspan
  have hpattern : patternOf .query options source ⟨[([], name.toList)], []⟩ = "(?P<v0>.*)$".toList := by
    simp [patternOf, Cut.core, Cut.assembled, hbody, groupText, hconstraint, constraintPattern, Regex.literal,
      literalText, TemplateKind.defaultPattern]
  have hwhole : WholeFits Regex.compile? .query "(?P<v0>.*)$".toList := by decide +kernel
  obtain ⟨t, ht⟩ := (compile_ok_iff hc).mpr ⟨_, hcuts, hname.wellFormed, hpattern ▸ hwhole⟩
  have hsearch := query_pattern hc hcuts ht hpattern (e := capture "v0" anything) (by decide +kernel)
    fun _ _ _ => spans_capture
  have hslots := compile_slots hcuts ht
  have hgives := givesBack_of_compile hcuts ht
  obtain ⟨rfl, hkind, -, ⟨_, hbuilt⟩, -⟩ := compile_built hc (Prod.ext ht rfl)
  have hkey : t.queryKey = some k := by
    rw [hbuilt.queryKey, hkind, hsplit, Option.map_some, String.ofList_toList]
  have hnames : t.varNames = [name] := by rw [hgives.names, List.map_singleton, hspan]
  obtain ⟨s, hs, hsname⟩ := List.map_eq_singleton_iff.mp hnames
  obtain ⟨cut, hcut, hall⟩ := hbuilt.made.cut
  rw [hkind] at hcut hall
  obtain rfl := Option.some_inj.mp (hcut.symm.trans (Cut.ofChars?_eq_some.mpr hcuts))
  rw [hs] at hall
  obtain ⟨hmade, -⟩ := List.forall₂_cons.mp hall
  have hq : t.KeyValue k s := ⟨hkey, hs, hmade.before, compile_tail hcuts ht⟩
  have hplain : t.PlainVars := by
    rw [PlainVars, hkind, constraints, hcut]
    simp [hconstraint, Plain]
  refine ⟨t, ht, hkey, hnames, fun v => ?_⟩
  split
  · rename_i hmem
    have hnone : t.regex.search v = none := by
      rw [← Option.not_isSome_iff_eq_none, hsearch]
      exact fun h => h hmem
    rw [captures, capturesWith, hnone]
    rfl
  · rename_i hmem
    have hvalid := (isValid_of_unconstrained hmade.var hconstraint v).mpr hmem
    rw [hbuilt.made.captures_query hkind hplain hq hvalid, hsname]

end Template

theorem Scope.templates_eq_nil {scope : Scope} :
    scope.templates = [] ↔ scope.host = none ∧ scope.path = none ∧ scope.queries = [] := by
  simp [Scope.templates]

section Routes

variable {H : Type} {scope : Scope} {st : Setup} {id : RouteId} {k : String} {t : Template}

def Route.ofQuery (scope : Scope) (id : RouteId) (t : Template) : Route H := { Route.new scope id with queries := [t] }

theorem Call.apply_queries (hscope : scope.templates = []) {value : String}
    (ht : (Template.compile (querySource k value) .query ⟨scope.strictSlash, scope.useEncodedPath⟩ st.cache).1 =
      .ok t) (hnames : t.varNames.Nodup) :
    (apply (.new scope id : Route H) st (.queries [(k, value)])).1 = .ofQuery scope id t := by
  obtain ⟨hhost, hpath, hqueries⟩ := Scope.templates_eq_nil.mp hscope
  have hcompile : (Call.compile (.new scope id : Route H) st (querySource k value) .query).1 = .ok t := ht
  have hvars : (Route.ofQuery scope id t : Route H).varNames = t.varNames := by
    simp [Route.varNames, Route.templates, Route.ofQuery, Route.new, hhost, hpath]
  have hrepeated := Route.repeatedVar?_eq_none.mpr (hvars.symm ▸ hnames)
  simp only [apply, attempt, addQueries]
  cases hresult : Call.compile (.new scope id : Route H) st (querySource k value) .query with
  | mk r st' =>
    rw [hresult] at hcompile
    cases hcompile
    have hroute : { (Route.new scope id : Route H) with queries := (Route.new scope id : Route H).queries ++ [t] } =
        .ofQuery scope id t := by simp [Route.ofQuery, Route.new, hqueries]
    simp only [hroute, hrepeated]
    exact hroute

theorem Route.check_ofQuery (hscope : scope.templates = []) (hkey : t.queryKey = some k) (view : View)
    (isMount : Bool) :
    (Route.ofQuery scope id t : Route H).check view isMount =
      (view.queryValue? k).bind fun v => (t.captures v).map fun vars => (false, Vars.ofPairs vars) := by
  obtain ⟨hhost, hpath, -⟩ := Scope.templates_eq_nil.mp hscope
  have hcapture : (Route.ofQuery scope id t : Route H).capture view isMount =
      (view.queryValue? k).bind fun v => (t.captures v).map Vars.ofPairs := by
    simp only [Route.capture, Route.ofQuery, Route.new, hhost, hpath, List.mapM_cons, List.mapM_nil, hkey,
      Option.getD_some]
    cases view.queryValue? k with
    | none => rfl
    | some v => cases hv : t.captures v <;> simp [hv]
  rw [Route.check, hcapture]
  cases view.queryValue? k with
  | none => rfl
  | some v => cases hv : t.captures v <;> simp [hv, Route.ofQuery, Route.new, Route.judge]

namespace Route

/-- The route that one call with a key and a template for its values sets up. -/
def queried (scope : Scope) (id : RouteId) (st : Setup) (k value : String) : Route H :=
  (Call.apply (.new scope id) st (.queries [(k, value)])).1

/-- The first value of a parameter, unless it has a line feed. -/
def firstLine? (req : Request) (k : String) : Option String :=
  ((View.of req).queryValue? k).filter fun v => !v.toList.contains '\n'

/-- A query without a value accepts a request if the key is there and its first value has no line feed, and a query
whose value is a variable binds that value to it. -/
theorem check_queried (hscope : scope.templates = []) (hc : st.cache.Faithful) (hk : '=' ∉ k.toList)
    {name : String} (hname : Template.IsName name) (req : Request) (isMount : Bool) :
    (queried scope id st k "" : Route H).check (.of req) isMount =
      (firstLine? req k).map (fun _ => (false, .ofPairs [])) ∧
    (queried scope id st k ("\x7b" ++ name ++ "\x7d") : Route H).check (.of req) isMount =
      (firstLine? req k).map fun v => (false, .ofPairs [(name, v)]) := by
  have hfirst (f : String → Option (List (String × String))) (g : String → List (String × String))
      (hf : ∀ v, f v = if '\n' ∈ v.toList then none else some (g v)) :
      (((View.of req).queryValue? k).bind fun v => (f v).map fun vars => (false, Vars.ofPairs vars)) =
        (firstLine? req k).map fun v => (false, Vars.ofPairs (g v)) := by
    rw [firstLine?]
    cases (View.of req).queryValue? k with
    | none => rfl
    | some v => by_cases hmem : '\n' ∈ v.toList <;> simp [hf, hmem, Option.filter]
  constructor
  · obtain ⟨t, ht, hkey, hnames, hcaptures⟩ :=
      Template.compile_presence hc hk ⟨scope.strictSlash, scope.useEncodedPath⟩
    have hsource : Call.querySource k "" = k := by simp [Call.querySource]
    rw [← hsource] at ht
    rw [queried, Call.apply_queries hscope ht (hnames.symm ▸ List.nodup_nil), check_ofQuery hscope hkey]
    exact hfirst _ (fun _ => []) hcaptures
  · obtain ⟨t, ht, hkey, hnames, hcaptures⟩ :=
      Template.compile_binding hc hk hname ⟨scope.strictSlash, scope.useEncodedPath⟩
    have hsource : Call.querySource k ("\x7b" ++ name ++ "\x7d") = k ++ "=" ++ ("\x7b" ++ name ++ "\x7d") := by
      simp [Call.querySource]
    rw [← hsource] at ht
    rw [queried, Call.apply_queries hscope ht (hnames.symm ▸ List.nodup_singleton name), check_ofQuery hscope hkey]
    exact hfirst _ (fun v => [(name, v)]) hcaptures

/-- Two values of one key, the first of them with encoded characters. -/
theorem check_queried_two_values :
    let req : Request := .new .get ⟨none, none, "/s", some "x=1&q=a%2Fb+c&q="⟩ [] none
    (queried .root 0 (.new .new) "q" "" : Route Unit).check (.of req) false = some (false, .ofPairs []) ∧
    (queried .root 0 (.new .new) "q" "{term}" : Route Unit).check (.of req) false =
      some (false, .ofPairs [("term", "a/b c")]) := by
  intro req
  have hname : Template.IsName "term" := ⟨by decide, by decide, by decide⟩
  have hchecks := @check_queried Unit .root (.new .new) 0 "q" rfl PatternCache.faithful_new (by decide) _ hname req
    false
  have hvalue : firstLine? req "q" = some "a/b c" := by decide +kernel
  rwa [hvalue] at hchecks

/-- With an encoded line feed in its value the key is there, and neither route accepts the request. -/
theorem check_queried_line_feed :
    let req : Request := .new .get ⟨none, none, "/s", some "debug=a%0Ab"⟩ [] none
    (View.of req).queryValue? "debug" = some "a\nb" ∧
      (queried .root 0 (.new .new) "debug" "" : Route Unit).check (.of req) false = none ∧
      (queried .root 0 (.new .new) "debug" "{v}" : Route Unit).check (.of req) false = none := by
  decide +kernel

end Route

end Routes

end RequestRouter
