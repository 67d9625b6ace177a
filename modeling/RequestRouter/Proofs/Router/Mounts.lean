import RequestRouter.Proofs.Dispatch.Site
import RequestRouter.Proofs.Pattern.Language
import RequestRouter.Proofs.Pattern.Unique
import RequestRouter.Proofs.Router.Templates
/-!
Mounts and the routes below them. The templates of a route below a mount extend those of the mount, so that a
request for the route comes through the mount.
-/
namespace RequestRouter

open RequestRouter.Http RequestRouter.Regex RequestRouter.Regex.Expr

variable {H : Type}

namespace Template

variable {outer inner : Template}

theorem PlainVars.onTheirOwn {t : Template} (h : t.PlainVars) : t.OnTheirOwn :=
  fun c hc => (h c hc).selfContained.onItsOwn

theorem captures_of_prefix (ho : outer.IsCompiled) (hi : inner.IsCompiled) (hok : outer.kind = .leading)
    (hik : inner.kind = .path ∨ inner.kind = .leading) (hoown : outer.OnTheirOwn) (hrule : outer.RuleFree)
    (hiown : inner.OnTheirOwn) (hsource : outer.source.toList <+: inner.core) {text : String}
    (h : (inner.captures text).isSome = true) : (outer.captures text).isSome = true := by
  obtain ⟨a, ha⟩ := ho.built
  obtain ⟨cut, hcut⟩ := hi.built
  have hoq : outer.kind ≠ .query := by simp [hok]
  have hiq : inner.kind ≠ .query := by rcases hik with hik | hik <;> simp [hik]
  obtain ⟨rest, hrest⟩ := hsource
  have hchars := ha.ofChars
  rw [core_eq (by simp [hok]) hoq] at hchars
  have hjoin := hcut.ofChars
  rw [← hrest, Cut.ofChars?_append hchars] at hjoin
  obtain ⟨b, -, rfl⟩ := Option.map_eq_some_iff.mp hjoin
  have hspans {k : Nat} (hk : (a.join b).Spans inner.kind text.toList 0 k) :
      ∃ k, a.Spans outer.kind text.toList 0 k := by
    have hpath : (a.join b).Spans .path text.toList 0 k := by
      rcases hik with hik | hik
      · rwa [hik] at hk
      · rwa [hik, Cut.spans_leading] at hk
    obtain ⟨m, hm, -⟩ := (Cut.spans_join a b).mp hpath
    exact ⟨m, by rwa [hok, Cut.spans_leading]⟩
  obtain ⟨k, hk, -⟩ := (hcut.search_isSome hiq (hcut.onItsOwn hiown)).mp (search_of_capturesWith h)
  obtain ⟨m, hm⟩ := hspans hk
  exact ha.capturesWith_of_search hrule
    ((ha.search_isSome hoq (ha.onItsOwn hoown)).mpr ⟨m, hm, .inl hok⟩)

variable {text : String}

/-- The cut of a host that a mount starts with is the end of the cut of a host with more labels. -/
theorem exists_label (ho : outer.IsCompiled) (hi : inner.IsCompiled) (hok : outer.kind = .host)
    (hik : inner.kind = .host) {label : String} (hsource : inner.source = label ++ "." ++ outer.source) :
    ∃ a b : Cut, outer.Built a ∧ inner.Built ((b.join ⟨[], ['.']⟩).join a) := by
  obtain ⟨a, ha⟩ := ho.built
  obtain ⟨cut, hcut⟩ := hi.built
  have hchars := ha.ofChars
  rw [core_eq (by simp [hok]) (by simp [hok])] at hchars
  have hjoin := hcut.ofChars
  rw [core_eq (by simp [hik]) (by simp [hik]), hsource, String.toList_append, String.toList_append] at hjoin
  obtain ⟨front, hfront, rfl⟩ := Cut.exists_join hjoin hchars
  obtain ⟨b, -, rfl⟩ := Cut.exists_join hfront (rfl : Cut.ofChars? ".".toList = some ⟨[], ['.']⟩)
  exact ⟨a, b, ha, hcut⟩

/-- A host matches up to the end of the text, from its beginning or, for a mount, from any label. -/
theorem Built.spans_host {t : Template} {cut : Cut} (h : t.Built cut) (hk : t.kind = .host)
    (hown : t.OnTheirOwn) {isMount : Bool}
    (hcaptures : (if isMount then t.capturesSuffix text else t.captures text).isSome = true) :
    ∃ i, cut.Spans t.kind text.toList i text.toList.length := by
  cases isMount with
  | false =>
    obtain ⟨k, hk', hends⟩ := (h.search_isSome (by simp [hk]) (h.onItsOwn hown)).mp
      (search_of_capturesWith hcaptures)
    obtain rfl := (ends_host hk (hk'.le_length (Nat.zero_le _))).mp hends
    exact ⟨0, hk'⟩
  | true =>
    obtain ⟨i, k, -, hcut⟩ := (h.search_suffix hk (h.onItsOwn hown)).mp (search_of_capturesWith hcaptures)
    exact ⟨k, hcut⟩

theorem capturesSuffix_of_captures (ho : outer.IsCompiled) (hok : outer.kind = .host)
    (hoown : outer.OnTheirOwn) (hrule : outer.RuleFree) (h : (outer.captures text).isSome = true) :
    (outer.capturesSuffix text).isSome = true := by
  obtain ⟨a, ha⟩ := ho.built
  obtain ⟨k, hk, hends⟩ := (ha.search_isSome (by simp [hok]) (ha.onItsOwn hoown)).mp
    (search_of_capturesWith h)
  obtain rfl := (ends_host hok (hk.le_length (Nat.zero_le _))).mp hends
  exact ha.capturesWith_of_search hrule ((ha.search_suffix hok (ha.onItsOwn hoown)).mpr
    ⟨0, 0, spans_labelStart.mpr (.inl ⟨rfl, rfl⟩), hk⟩)

theorem capturesSuffix_of_label (ho : outer.IsCompiled) (hi : inner.IsCompiled) (hok : outer.kind = .host)
    (hik : inner.kind = .host) {label : String} (hsource : inner.source = label ++ "." ++ outer.source)
    (hoown : outer.OnTheirOwn) (hrule : outer.RuleFree) (hiown : inner.OnTheirOwn) {isMount : Bool}
    (h : (if isMount then inner.capturesSuffix text else inner.captures text).isSome = true) :
    (outer.capturesSuffix text).isSome = true := by
  obtain ⟨a, b, ha, hcut⟩ := exists_label ho hi hok hik hsource
  obtain ⟨i, hspans⟩ := hcut.spans_host hik hiown h
  obtain ⟨k, hfront, hend⟩ := (Cut.spans_join _ a).mp hspans
  obtain ⟨m, -, ⟨⟨rest, hrest⟩, rfl⟩⟩ := (Cut.spans_join b _).mp hfront
  rw [hik] at hrest hend
  have hdot : text.toList[m]? = some '.' := (getElem?_of_drop hrest.symm).1
  have hend : a.Spans outer.kind text.toList (m + 1) text.toList.length := by
    rw [hok]
    exact hend
  exact ha.capturesWith_of_search hrule ((ha.search_suffix hok (ha.onItsOwn hoown)).mpr
    ⟨m, m + 1, spans_labelStart.mpr (.inr ⟨rfl, hdot⟩), hend⟩)

theorem ignoresPort_of_label (ho : outer.IsCompiled) (hi : inner.IsCompiled) (hok : outer.kind = .host)
    (hik : inner.kind = .host) {label : String} (hsource : inner.source = label ++ "." ++ outer.source)
    (h : inner.ignoresPort = true) : outer.ignoresPort = true := by
  obtain ⟨a, b, ha, hcut⟩ := exists_label ho hi hok hik hsource
  have hportless := (hcut.ignoresPort_iff.mp h).2
  rw [hik] at hportless
  refine ha.ignoresPort_iff.mpr ⟨hok, ?_⟩
  rw [hok]
  exact hportless.of_join

end Template

/-- The templates that a router hands down are compiled. -/
structure Scope.IsCompiled (s : Scope) : Prop where
  host : ∀ t, s.host = some t → t.IsCompiled ∧ t.kind = .host
  path : ∀ t, s.path = some t → t.IsCompiled ∧ (t.kind = .path ∨ t.kind = .leading)

theorem Scope.isCompiled_of_none {s : Scope} (hhost : s.host = none) (hpath : s.path = none) :
    s.IsCompiled where
  host := fun _ ht => nomatch hhost.symm.trans ht
  path := fun _ ht => nomatch hpath.symm.trans ht

theorem Configured.innerScope {scope : Scope} {id : RouteId} {r : Route H} {st : Setup}
    (h : Configured (.new scope id) r st) (hs : scope.IsCompiled) : r.innerScope.IsCompiled where
  host := by
    intro t ht
    rcases h.host with heq | ⟨t', label, ht', hcompiled, hkind, -⟩
    · exact hs.host t (heq.symm.trans ht)
    · obtain rfl := Option.some_inj.mp (ht.symm.trans ht')
      exact ⟨hcompiled, hkind⟩
  path := by
    intro t ht
    rcases h.path with heq | ⟨t', text, ht', hcompiled, hkind, -⟩
    · exact hs.path t (heq.symm.trans ht)
    · obtain rfl := Option.some_inj.mp (ht.symm.trans ht')
      exact ⟨hcompiled, hkind⟩

namespace Route

def hostAccepts (r : Route H) (view : View) (isMount : Bool) : Prop :=
  ∀ t, r.host = some t →
    ((if isMount then t.capturesSuffix (view.hostFor t) else t.captures (view.hostFor t))).isSome = true

def pathAccepts (r : Route H) (view : View) : Prop :=
  ∀ t, r.path = some t → (t.captures (view.path r.scope.useEncodedPath)).isSome = true

def queriesAccept (r : Route H) (view : View) : Prop :=
  ∀ t ∈ r.queries, ((view.queryValue? (t.queryKey.getD "")).bind t.captures).isSome = true

theorem isSome_mapM_iff {α β : Type} (f : α → Option β) (xs : List α) :
    (xs.mapM f).isSome = true ↔ ∀ x ∈ xs, (f x).isSome = true := by
  induction xs with
  | nil => simp
  | cons x xs ih =>
    rw [List.mapM_cons, List.forall_mem_cons, ← ih]
    cases f x <;> cases xs.mapM f <;> simp

theorem capture_isSome_iff (r : Route H) (view : View) (isMount : Bool) :
    (r.capture view isMount).isSome = true ↔
      r.hostAccepts view isMount ∧ r.pathAccepts view ∧ r.queriesAccept view := by
  have hqueries : (r.queries.mapM fun t : Template => do
      t.captures (← view.queryValue? (t.queryKey.getD ""))).isSome = true ↔ r.queriesAccept view :=
    isSome_mapM_iff _ r.queries
  rw [← hqueries, capture, hostAccepts, pathAccepts]
  cases r.host <;> cases r.path <;> cases isMount <;>
    simp [Option.isSome_iff_exists, Option.bind_eq_some_iff]

end Route

/-- The conditions under which a route below a mount adds to the templates of the mount and takes nothing away
from them. The constraints of both are patterns on their own. Behind a prefix that ends in a slash the path of
the route has that slash too, also without the final slash that it need not have. Both look at the same form
of the path. A port in the labels of the route is also one for the mount. -/
structure Route.Extends (mount child : Route H) : Prop where
  mountOwn : ∀ t ∈ mount.host.toList ++ mount.path.toList, t.OnTheirOwn ∧ t.RuleFree
  childOwn : ∀ t ∈ child.host.toList ++ child.path.toList, t.OnTheirOwn
  slash : ∀ outer ∈ mount.path, ∀ inner ∈ child.path, outer.hasTrailingSlash = true →
    outer.source.toList <+: inner.core
  encoded : mount.path.isSome = true → child.scope.useEncodedPath = mount.scope.useEncodedPath
  port : ∀ outer ∈ mount.host, ∀ inner ∈ child.host, outer.ignoresPort = true → inner.ignoresPort = true

namespace Route

variable {mount child : Route H} {st : Setup} {view : View} {isMount : Bool}

theorem prefix_core {outer inner : Template} {text : String} (hik : inner.kind ≠ .query)
    (hsource : inner.source = String.ofList (Call.trimSlashes outer.source.toList) ++ text)
    (hslash : outer.hasTrailingSlash = true → outer.source.toList <+: inner.core) :
    outer.source.toList <+: inner.core := by
  by_cases htrailing : outer.hasTrailingSlash = true
  · exact hslash htrailing
  · have hlast : outer.source.toList.getLast? ≠ some '/' := by
      simpa [Template.hasTrailingSlash] using htrailing
    have hbody : inner.body = outer.source.toList ++ text.toList := by
      rw [Template.body, Template.splitKey, if_neg hik, hsource, String.toList_append, String.toList_ofList,
        Call.trimSlashes_eq hlast]
    rw [Template.core]
    split
    · rename_i hdrops
      have htext : text.toList ≠ [] := by
        intro hnil
        have hend := hdrops.2
        rw [hbody, hnil, List.append_nil] at hend
        exact hlast hend
      rw [hbody, List.dropLast_append_of_ne_nil htext]
      exact List.prefix_append _ _
    · rw [hbody]
      exact List.prefix_append _ _

/-- A route that calls have made of a route of a router below a mount, for a request that its templates
accept: the templates of the mount accept it. -/
theorem capture_mount (hmount : mount.innerScope.IsCompiled) (hkind : ∀ t ∈ mount.path, t.kind = .leading)
    {start : Route H} (hhost : start.host = mount.host) (hpath : start.path = mount.path)
    (hqueries : start.queries = mount.queries) (hscopeHost : start.scope.host = mount.host)
    (hscopePath : start.scope.path = mount.path) (hchild : Configured start child st)
    (h : mount.Extends child) (hcapture : (child.capture view isMount).isSome = true) :
    (mount.capture view true).isSome = true := by
  rw [capture_isSome_iff] at hcapture ⊢
  obtain ⟨hhostAccepts, hpathAccepts, hqueriesAccept⟩ := hcapture
  refine ⟨?_, ?_, ?_⟩
  · intro outer houter
    obtain ⟨hoc, hok⟩ := hmount.host outer houter
    obtain ⟨hoown, hrule⟩ := h.mountOwn outer (by simp [houter])
    rcases hchild.host with heq | ⟨inner, label, hinner, hic, hik, hsource⟩
    · have hsame := hhostAccepts outer (by rw [heq, hhost, houter])
      cases isMount with
      | true => exact hsame
      | false => exact Template.capturesSuffix_of_captures hoc hok hoown hrule hsame
    · rw [hscopeHost, houter] at hsource
      have hiown := h.childOwn inner (by simp [hinner])
      have hport : view.hostFor inner = view.hostFor outer := by
        have hiff : inner.ignoresPort = outer.ignoresPort := Bool.eq_iff_iff.mpr
          ⟨Template.ignoresPort_of_label hoc hic hok hik hsource, h.port outer houter inner hinner⟩
        simp only [View.hostFor, hiff]
      have haccepts := hhostAccepts inner hinner
      rw [hport] at haccepts
      exact Template.capturesSuffix_of_label hoc hic hok hik hsource hoown hrule hiown haccepts
  · intro outer houter
    have hencoded := h.encoded (by rw [houter]; rfl)
    rcases hchild.path with heq | ⟨inner, text, hinner, hic, hik, hsource⟩
    · have hsame := hpathAccepts outer (by rw [heq, hpath, houter])
      rwa [hencoded] at hsame
    · rw [Call.fullPath, hscopePath, houter] at hsource
      obtain ⟨hoc, -⟩ := hmount.path outer houter
      obtain ⟨hoown, hrule⟩ := h.mountOwn outer (by simp [houter])
      have hiq : inner.kind ≠ .query := by rcases hik with hik | hik <;> simp [hik]
      have hprefix := prefix_core hiq hsource (h.slash outer houter inner hinner)
      have haccepts := hpathAccepts inner hinner
      rw [hencoded] at haccepts
      exact Template.captures_of_prefix hoc hic (hkind outer houter) hik hoown hrule
        (h.childOwn inner (by simp [hinner])) hprefix haccepts
  · obtain ⟨own, hown, -⟩ := hchild.queries
    intro t ht
    refine hqueriesAccept t ?_
    rw [hown, hqueries]
    exact List.mem_append_left own ht

end Route

namespace Router

/-- A mount does not hide a route of the router below it whose templates extend those of the mount: a request
that the templates of the route accept is accepted by the templates of the mount, so a mount without further
conditions lets it through. The mount may be a route of the root or of any router below mounts, and the router
below it may have other flags. -/
theorem mount_admits_extending {scope : Scope} (hscope : scope.IsCompiled) (id : RouteId) {st : Setup}
    (hst : st.cache.Faithful) (calls : List (Call H)) {mount : Route H}
    (hmount : (Call.applyAll calls (.new scope id) st).1 = mount) (hmountOk : mount.error = none)
    (hkind : ∀ t ∈ mount.path, t.kind = .leading) (sub : Router H) (strict skip encoded : Bool)
    (hsub : sub.settings.scope = { mount.innerScope with
      strictSlash := strict, skipClean := skip, useEncodedPath := encoded }) {st' : Setup}
    (hst' : st'.cache.Faithful) (childCalls : List (Call H)) {child : Route H}
    (hchild : (Call.applyAll childCalls (sub.newRoute st').1 (sub.newRoute st').2).1 = child)
    (hchildOk : child.error = none) (h : mount.Extends child) (req : Request) (isMount : Bool)
    (hcapture : (child.capture (.of req) isMount).isSome = true) :
    (mount.capture (.of req) true).isSome = true ∧
      (mount.matchers = [] → mount.buildOnly = false → mount.admits (.of req) true = true) := by
  have hconfigured := Call.applyAll_configured (.refl (.new scope id) hst) calls (by rw [hmount, hmountOk])
  rw [hmount] at hconfigured
  have hstart : Configured (sub.newRoute st').1 (sub.newRoute st').1 (sub.newRoute st').2 := .refl _ hst'
  have hbelow := Call.applyAll_configured hstart childCalls (by rw [hchild, hchildOk])
  rw [hchild] at hbelow
  have hmountCapture := Route.capture_mount (hconfigured.innerScope hscope) hkind
    (congrArg Scope.host hsub) (congrArg Scope.path hsub) (congrArg Scope.queries hsub)
    (congrArg Scope.host hsub) (congrArg Scope.path hsub) hbelow h hcapture
  refine ⟨hmountCapture, fun hmatchers hbuild => ?_⟩
  obtain ⟨vars, hvars⟩ := Option.isSome_iff_exists.mp hmountCapture
  refine (Route.admits_iff mount _ true).mpr ⟨hbuild, vars, ?_⟩
  simp [Route.check, hmountOk, Route.judge, hmatchers, hvars]

/-- A mount with a host, a prefix and a query, above a route with one more label and a path. -/
theorem mount_admits_extending_all_templates :
    let mount : Route Nat := (Call.applyAll
      [.host "example.com", .leading "/api/{version:int}", .queries [("key", "{key}")]]
      (.new .root 0) (.new .new)).1
    let sub : Router Nat := ⟨.new 1 { mount.innerScope with strictSlash := true }, .nil⟩
    let child : Route Nat := (Call.applyAll [.host "{shop}", .path "/items/{item}"]
      (sub.newRoute (.new .new)).1 (sub.newRoute (.new .new)).2).1
    let req : Request := .new .get ⟨none, none, "/api/2/items/7/", some "key=a"⟩
      [(⟨"host"⟩, "books.example.com:80")] none
    mount.Extends child ∧ (child.capture (.of req) false).isSome = true ∧
      mount.admits (.of req) true = true := by
  intro mount sub child req
  have hfacts : (mount.error = none ∧ child.error = none ∧ (∀ t ∈ mount.path, t.kind = .leading)) ∧
      (child.scope.useEncodedPath = mount.scope.useEncodedPath ∧
        (∀ outer ∈ mount.path, outer.hasTrailingSlash = false) ∧
        ∀ inner ∈ child.host, inner.ignoresPort = true) ∧
      ((∀ t ∈ mount.host.toList ++ mount.path.toList, t.PlainVars ∧ t.RuleFree) ∧
        ∀ t ∈ child.host.toList ++ child.path.toList, t.PlainVars) ∧
      mount.matchers.isEmpty = true ∧ mount.buildOnly = false ∧
      (child.capture (.of req) false).isSome = true := by
    decide +kernel
  obtain ⟨hok, ⟨hflag, hslash, hport⟩, hplain, hmatchers, hbuild, hcapture⟩ := hfacts
  have h : mount.Extends child :=
    ⟨fun t ht => ⟨(hplain.1 t ht).1.onTheirOwn, (hplain.1 t ht).2⟩, fun t ht => (hplain.2 t ht).onTheirOwn,
      fun outer houter _ _ hends => by simp [hslash outer houter] at hends, fun _ => hflag,
      fun _ _ inner hinner _ => hport inner hinner⟩
  have hcaches : (Setup.new .new).cache.Faithful := PatternCache.faithful_new
  have hadmits := mount_admits_extending (Scope.isCompiled_of_none rfl rfl) 0 hcaches _ rfl hok.1 hok.2.2 sub
    true false false rfl hcaches _ rfl hok.2.1 h req false hcapture
  exact ⟨h, hcapture, hadmits.2 (List.isEmpty_iff.mp hmatchers) hbuild⟩

/-- What a route may do that keeps a mount from letting its requests through: leave out the final slash of a
prefix, look at another form of the path, name a port that is not one for the mount, or have a constraint that
is no pattern on its own. -/
theorem mount_hides_child :
    let mount (calls : List (Call Nat)) : Route Nat := (Call.applyAll calls (.new .root 0) (.new .new)).1
    let child (m : Route Nat) (encoded : Bool) (calls : List (Call Nat)) : Route Nat :=
      (Call.applyAll calls (.new { m.innerScope with useEncodedPath := encoded } 1) (.new .new)).1
    let hides (m c : Route Nat) (path host : String) : Bool :=
      let view : View := .of (.new .get ⟨none, none, path, none⟩ [(⟨"host"⟩, host)] none)
      m.error.isNone && c.error.isNone && (c.capture view false).isSome && (m.capture view true).isNone
    let slash := mount [.leading "/api/"]
    let coded := mount [.leading "/a%20b"]
    let port := mount [.host "{site:example:80}"]
    let part := mount [.leading "/api"]
    hides slash (child slash false [.path ""]) "/api" "" = true ∧
      hides coded (child coded true [.path "/x"]) "/a%20b/x" "" = true ∧
      hides port (child port false [.host "a:b"]) "/" "a:b.example:80" = true ∧
      hides part (child part false [.path "/{x:a)|(b}"]) "/zb" "" = true := by
  decide +kernel

end Router

end RequestRouter
