import RequestRouter.Config
import RequestRouter.Proofs.Pattern.Unique
import RequestRouter.Proofs.Router.Building
import RequestRouter.Proofs.Text.Coding
import RequestRouter.Router.Dispatch
/-!
The way from variables to a URL and back. A request for a URL that a route built comes to that route, which
takes from it the variables that the URL was built from.
-/
namespace RequestRouter

open RequestRouter.Text RequestRouter.Http

variable {H : Type}

namespace Vars

def Selects (vars : Vars) (names : List String) (found : List (String × String)) : Prop :=
  found.map (·.1) = names ∧ ∀ p ∈ found, vars.get? p.1 = some p.2

namespace Selects

variable {vars : Vars} {names names' : List String} {found found' : List (String × String)}

theorem append (h : vars.Selects names found) (h' : vars.Selects names' found') :
    vars.Selects (names ++ names') (found ++ found') := by
  refine ⟨by rw [List.map_append, h.1, h'.1], fun p hp => ?_⟩
  exact (List.mem_append.mp hp).elim (h.2 p) (h'.2 p)

theorem get?_putAll (h : vars.Selects names found) (base : Vars) (name : String) :
    (putAll base found).get? name = if name ∈ names then vars.get? name else base.get? name := by
  induction found generalizing names base with
  | nil =>
    obtain rfl : [] = names := h.1
    simp [putAll]
  | cons p found ih =>
    obtain ⟨rfl, hall⟩ := h
    have hrest : vars.Selects (found.map (·.1)) found := ⟨rfl, fun q hq => hall q (List.mem_cons_of_mem _ hq)⟩
    rw [putAll_cons, ih hrest, get?_put, List.map_cons]
    by_cases hname : name = p.1
    · simp [hname, hall p List.mem_cons_self]
    · have hmem : name ∈ p.1 :: found.map (·.1) ↔ name ∈ found.map (·.1) := by simp [hname]
      simp only [hmem, if_neg hname]

theorem get?_ofPairs (h : vars.Selects names found) (name : String) :
    (ofPairs found).get? name = if name ∈ names then vars.get? name else none :=
  h.get?_putAll [] name

end Selects

end Vars

namespace Template

variable {vars : Vars} {t : Template} {ts : List Template}

theorem selects_zip {slots : List Slot} {vs : List String} (h : List.Forall₂ (Supplied vars.get?) slots vs) :
    vars.Selects (slots.map (·.var.name)) ((slots.map (·.var.name)).zip vs) := by
  induction h with
  | nil => exact ⟨rfl, nofun⟩
  | @cons s v slots vs hv _ ih =>
    have hone : vars.Selects [s.var.name] [(s.var.name, v)] :=
      ⟨rfl, fun p hp => List.mem_singleton.mp hp ▸ hv.1⟩
    exact hone.append ih

/-- The parameter that a query `key={var}` builds: its key with the value of its variable. -/
def Param (vars : Vars) (t : Template) (p : String × String) : Prop :=
  ∃ s, t.KeyValue p.1 s ∧ Supplied vars.get? s p.2

def paramText (p : String × String) : List Char :=
  Percent.encode p.1.toList ++ '=' :: Percent.encode p.2.toList

theorem exists_params (hmade : ∀ t ∈ ts, t.Made ∧ t.kind = .query)
    (hkey : ∀ t ∈ ts, ∃ key s, t.KeyValue key s) {qs : List String}
    (h : List.Forall₂ (fun t q => t.expand vars.get? = .ok q) ts qs) :
    ∃ ps, List.Forall₂ (Param vars) ts ps ∧ qs.map (·.toList) = ps.map paramText := by
  induction h with
  | nil => exact ⟨[], .nil, rfl⟩
  | @cons t q ts qs he _ ih =>
    rw [List.forall_mem_cons] at hmade hkey
    obtain ⟨ps, hps, htexts⟩ := ih hmade.2 hkey.2
    obtain ⟨htmade, hkind⟩ := hmade.1
    obtain ⟨key, s, hs⟩ := hkey.1
    obtain ⟨v, hv, htext⟩ := htmade.expand_query hkind hs he
    refine ⟨(key, v) :: ps, .cons ⟨s, hs, hv⟩ hps, ?_⟩
    rw [List.map_cons, List.map_cons, htext, htexts]
    rfl

theorem params_keys {ps : List (String × String)} (h : List.Forall₂ (Param vars) ts ps) :
    ts.map (·.queryKey) = ps.map fun p => some p.1 := by
  induction h with
  | nil => rfl
  | cons hp _ ih =>
    obtain ⟨s, hs, -⟩ := hp
    rw [List.map_cons, List.map_cons, hs.key, ih]

theorem lookup_of_mem {ps : List (String × String)} (hn : (ps.map (·.1)).Nodup) {key value : String}
    (h : (key, value) ∈ ps) : ps.lookup key = some value := by
  induction ps with
  | nil => cases h
  | cons p ps ih =>
    rw [List.map_cons, List.nodup_cons] at hn
    rcases List.mem_cons.mp h with rfl | h
    · simp
    · have hne : key ≠ p.1 := by
        rintro rfl
        exact hn.1 (List.mem_map.mpr ⟨_, h, rfl⟩)
      rw [List.lookup_cons, beq_false_of_ne hne]
      exact ih hn.2 h

theorem captures_params {view : View} (hn : (view.query.map (·.1)).Nodup)
    (hmade : ∀ t ∈ ts, t.Made ∧ t.kind = .query) (hplain : ∀ t ∈ ts, t.PlainVars)
    {ps : List (String × String)} (h : List.Forall₂ (Param vars) ts ps) (hps : ∀ p ∈ ps, p ∈ view.query) :
    ∃ found, ts.mapM (fun t => do t.captures (← view.queryValue? (t.queryKey.getD ""))) = some found ∧
      vars.Selects (ts.flatMap varNames) found.flatten := by
  induction h with
  | nil => exact ⟨[], rfl, rfl, nofun⟩
  | @cons t p ts ps hp _ ih =>
    obtain ⟨found, hfound, hselects⟩ := ih (fun t ht => hmade t (List.mem_cons_of_mem _ ht))
      (fun t ht => hplain t (List.mem_cons_of_mem _ ht)) (fun p hp => hps p (List.mem_cons_of_mem _ hp))
    obtain ⟨s, hs, hsupplied⟩ := hp
    obtain ⟨htmade, hkind⟩ := hmade t List.mem_cons_self
    have hvalue : view.queryValue? (t.queryKey.getD "") = some p.2 := by
      rw [hs.key]
      exact lookup_of_mem hn (hps p List.mem_cons_self)
    have hcaptures := htmade.captures_query hkind (hplain t List.mem_cons_self) hs hsupplied.2
    refine ⟨[(s.var.name, p.2)] :: found, ?_, ?_⟩
    · rw [List.mapM_cons, hvalue, hfound]
      simp [hcaptures]
    · have hone : vars.Selects t.varNames [(s.var.name, p.2)] := by
        refine ⟨by simp [varNames, hs.slots], fun q hq => ?_⟩
        rw [List.mem_singleton.mp hq]
        exact hsupplied.1
      exact hone.append hselects

end Template

theorem View.query_of_params {req : Request} {qs : List String} {ps : List (String × String)}
    (hquery : req.uri.query = if qs.isEmpty then none else some ("&".intercalate qs))
    (htexts : qs.map (·.toList) = ps.map Template.paramText) : (View.of req).query = ps := by
  cases qs with
  | nil =>
    obtain rfl : ps = [] := by simpa using htexts.symm
    simp [View.of, hquery]
  | cons q qs =>
    have hne : ps.map (fun p => (p.1.toList, p.2.toList)) ≠ [] := by
      intro hnil
      rw [List.map_eq_nil_iff.mp hnil] at htexts
      cases htexts
    have hcoded : ps.map Template.paramText = (ps.map fun p => (p.1.toList, p.2.toList)).map
        fun p => Percent.encode p.1 ++ '=' :: Percent.encode p.2 := by
      rw [List.map_map]
      rfl
    have hparse := Form.parse_encode _ hne
    rw [← hcoded, ← htexts] at hparse
    have htext : ("&".intercalate (q :: qs)).toList = ['&'].intercalate ((q :: qs).map (·.toList)) :=
      String.toList_intercalate
    have hview : (View.of req).query = (Form.parse ("&".intercalate (q :: qs)).toList).map fun p =>
        (String.ofList p.1, String.ofList p.2) := by
      simp only [View.of, hquery]
      rfl
    rw [hview, htext, hparse, List.map_map]
    refine (List.map_congr_left fun p _ => ?_).trans (List.map_id ps)
    simp

namespace Route

/-- The route looks at nothing but the path and the query of a request, and the values in its URLs can be told
apart: there is a slash between any two variables of the path, every query is a key with one variable, and no
variable has a pattern of its own. -/
structure Reversible (r : Route H) (t : Template) : Prop where
  error : r.error = none
  buildOnly : r.buildOnly = false
  host : r.host = none
  path : r.path = some t
  kind : t.kind = .path
  slash : ∀ s ∈ t.slots.tail, '/' ∈ s.before
  queries : ∀ q ∈ r.queries, ∃ key s, q.KeyValue key s
  keys : (r.queries.map (·.queryKey)).Nodup
  plain : ∀ t ∈ r.templates, t.PlainVars
  matchers : r.matchers = []
  transforms : r.transforms = []

variable {r : Route H} {t : Template} {pairs : List (String × String)} {u : BuiltUrl}

theorem transform_eq_self (h : r.transforms = []) (hscope : r.scope.transforms = []) (vars : Vars) :
    r.transform vars = vars := by
  simp [transform, h, hscope]

theorem Reversible.url_eq_ok (h : r.Reversible t) (henc : r.scope.useEncodedPath = false)
    (hscope : r.scope.transforms = []) (hu : r.url pairs = .ok u) :
    ∃ path qs, t.expand (Vars.ofPairs pairs).get? = .ok path ∧
      List.Forall₂ (fun t q => t.expand (Vars.ofPairs pairs).get? = .ok q) r.queries qs ∧
      u.path = Path.encode path ∧ u.query = if qs.isEmpty then none else some ("&".intercalate qs) := by
  have hb := url_builds hu
  rw [transform_eq_self h.transforms hscope] at hb
  obtain ⟨path, he, hpath⟩ := hb.path t h.path
  obtain ⟨qs, hqs, hquery⟩ := hb.queries
  exact ⟨path, qs, he, hqs, by simpa [henc] using hpath, hquery⟩

theorem Reversible.capture_url {st : Setup} (h : r.Reversible t) (hc : Compiled r.scope r st)
    (henc : r.scope.useEncodedPath = false) (hscope : r.scope.transforms = []) (hu : r.url pairs = .ok u)
    {req : Request} (hpath : req.uri.path = u.path) (hquery : req.uri.query = u.query) :
    ∃ found, r.capture (.of req) false = some (.ofPairs found) ∧
      (Vars.ofPairs pairs).Selects r.varNames found := by
  obtain ⟨path, qs, he, hqs, hupath, huquery⟩ := h.url_eq_ok henc hscope hu
  have hmem : t ∈ r.templates := by simp [templates, h.path]
  have hplain : ∀ q ∈ r.queries, q.PlainVars := fun q hq => h.plain q (by simp [templates, hq])
  obtain ⟨vs, hvs, hfromPath⟩ := (hc.path t h.path).1.captures_path h.kind (h.plain t hmem) h.slash he
  obtain ⟨ps, hps, htexts⟩ := Template.exists_params hc.queries h.queries hqs
  have hviewQuery : (View.of req).query = ps := View.query_of_params (hquery.trans huquery) htexts
  have hviewPath : (View.of req).path r.scope.useEncodedPath = path := by
    rw [henc]
    simp [View.path, View.of, hpath, hupath, Path.decode_encode]
  have hkeys : (ps.map (·.1)).Nodup := by
    have hall := h.keys
    rw [Template.params_keys hps] at hall
    simpa [List.Nodup, List.pairwise_map] using hall
  obtain ⟨fromQueries, hfromQueries, hselects⟩ := Template.captures_params (hviewQuery ▸ hkeys) hc.queries
    hplain hps fun p hp => hviewQuery ▸ hp
  refine ⟨t.varNames.zip vs ++ fromQueries.flatten, ?_, ?_⟩
  · simp only [capture, h.host, h.path, hviewPath, hfromPath, hfromQueries]
    rfl
  · have hnames : r.varNames = t.varNames ++ r.queries.flatMap Template.varNames := by
      simp [varNames, templates, h.host, h.path]
    rw [hnames]
    exact (Template.selects_zip hvs).append hselects

end Route

namespace Router

/-- A request for a URL of the only route of a router comes to that route, with the variables that the URL was
built from. -/
theorem dispatch_url {router : Router H} {strict : Bool} (hroutes : router.routes = .nil)
    (hscope : router.settings.scope = { Scope.root with strictSlash := strict }) {st : Setup}
    (hcache : st.cache.Faithful) {calls : List (Call H)} {r : Route H}
    (hr : (Call.applyAll calls (router.newRoute st).1 (router.newRoute st).2).1 = r) {t : Template}
    (h : r.Reversible t) {pairs : List (String × String)} {u : BuiltUrl} (hu : r.url pairs = .ok u)
    {req : Request} (hpath : req.uri.path = u.path) (hquery : req.uri.query = u.query) (w : Wraps H) :
    ∃ handler vars, ((router.add ⟨r, none⟩).dispatch req w).1 = .matched r handler vars ∧
      ∀ name, vars.get? name = if name ∈ r.varNames then (Vars.ofPairs pairs).get? name else none := by
  have hnew : Compiled router.settings.scope (router.newRoute st).1 (router.newRoute st).2 :=
    .new (by rw [hscope]; rfl) (by rw [hscope]; rfl) (by rw [hscope]; rfl) _ hcache
  have hcompiled := Call.applyAll_compiled hnew calls (by rw [hr, h.error])
  rw [hr] at hcompiled
  have henc : r.scope.useEncodedPath = false := by
    rw [hcompiled.scope, hscope]
    rfl
  have htransforms : r.scope.transforms = [] := by
    rw [hcompiled.scope, hscope]
    rfl
  obtain ⟨found, hfound, hselects⟩ :=
    h.capture_url (hcompiled.scope ▸ hcompiled) henc htransforms hu hpath hquery
  have hjudge : r.judge (View.of req).request = some false := by simp [Route.judge, h.matchers]
  have hcheck : r.check (.of req) false = some (false, .ofPairs found) := by
    simp [Route.check, h.error, hjudge, hfound]
  obtain ⟨handler, hfinish⟩ := router.settings.finish_matched r r.handler (.ofPairs found) w
  refine ⟨handler, .ofPairs found, ?_, hselects.get?_ofPairs⟩
  simp only [dispatch, add, hroutes, Tree.push, Tree.resolve, h.buildOnly, hcheck,
    Route.transform_eq_self h.transforms htransforms]
  exact hfinish

/-- The values hold a space, a percent sign and a plus sign, and the router is strict about slashes. -/
theorem dispatch_url_coded :
    ∃ (r : Route Unit) (u : BuiltUrl) (req : Request),
      r.url [("dir", "a b"), ("name", "50%"), ("term", "c+d")] = .ok u ∧
      Request.ofTexts? "GET" u.toText [] none = some req ∧
      ∃ handler vars, (((Router.ofConfig ⟨true, false, false, true⟩).1.add ⟨r, none⟩).dispatch req .new).1 =
          .matched r handler vars ∧ vars.get? "name" = some "50%" ∧ vars.get? "term" = some "c+d" := by
  let start : Router Unit × Setup := Router.ofConfig ⟨true, false, false, true⟩
  let calls : List (Call Unit) := [.path "/files/{dir}/raw/{name}", .queries [("find", "{term}")]]
  let r : Route Unit := (Call.applyAll calls (start.1.newRoute start.2).1 (start.1.newRoute start.2).2).1
  let u : BuiltUrl := ⟨none, none, "/files/a%20b/raw/50%25", some "find=c%2Bd"⟩
  let req : Request := .new .get ⟨none, none, u.path, u.query⟩ [] none
  have hpath : (r.path.any fun t => decide (t.kind = .path ∧ ∀ s ∈ t.slots.tail, '/' ∈ s.before)) = true := by
    decide +kernel
  obtain ⟨t, ht, hshape⟩ := (Option.any_eq_true _ _).mp hpath
  obtain ⟨hkind, hslash⟩ := of_decide_eq_true hshape
  have hrest : r.error = none ∧ r.buildOnly = false ∧ r.host = none ∧
      (∀ q ∈ r.queries, ∃ key s, q.KeyValue key s) ∧ (r.queries.map (·.queryKey)).Nodup ∧
      (∀ t ∈ r.templates, t.PlainVars) ∧ r.matchers.isEmpty = true ∧ r.transforms.isEmpty = true := by
    decide +kernel
  obtain ⟨herror, hbuild, hhost, hqueries, hkeys, hplain, hmatchers, htransforms⟩ := hrest
  have hr : r.Reversible t := ⟨herror, hbuild, hhost, ht, hkind, hslash, hqueries, hkeys, hplain,
    List.isEmpty_iff.mp hmatchers, List.isEmpty_iff.mp htransforms⟩
  have hu : r.url [("dir", "a b"), ("name", "50%"), ("term", "c+d")] = .ok u := by decide +kernel
  have hreq : Request.ofTexts? "GET" u.toText [] none = some req := by decide +kernel
  have hroutes : start.1.routes = .nil := rfl
  have hcalls : (Call.applyAll calls (start.1.newRoute start.2).1 (start.1.newRoute start.2).2).1 = r := rfl
  have hsent : req.uri.path = u.path := rfl
  obtain ⟨handler, vars, hmatched, hvars⟩ :=
    dispatch_url hroutes rfl PatternCache.faithful_new hcalls hr hu hsent rfl .new
  have hnames : "name" ∈ r.varNames ∧ "term" ∈ r.varNames := by decide +kernel
  refine ⟨r, u, req, hu, hreq, handler, vars, hmatched, ?_, ?_⟩
  · rw [hvars, if_pos hnames.1]
    decide
  · rw [hvars, if_pos hnames.2]
    decide

end Router

end RequestRouter
