import RequestRouter.Proofs.Http.Components
import RequestRouter.Proofs.Router.Building
/-!
A built URL is read back with the parts it was built from, unless a part holds a character that ends it. Encoded
paths and encoded values of queries hold none; hosts, paths that routes see as they are sent, and the literal
text of queries are put out as they are.
-/
namespace RequestRouter

open RequestRouter.Http RequestRouter.Text

namespace BuiltUrl

variable {u : BuiltUrl} {uri : Uri}

/-- The target has the parts of the URL; behind a host no path is the root. -/
structure IsReadAs (u : BuiltUrl) (uri : Uri) : Prop where
  scheme : uri.scheme = u.scheme
  authority : uri.authority = u.host
  path : uri.path = if u.path.isEmpty ∧ u.host.isSome then "/" else u.path
  query : uri.query = u.query

instance : Decidable (u.IsReadAs uri) :=
  decidable_of_iff (uri.scheme = u.scheme ∧ uri.authority = u.host ∧
      uri.path = (if u.path.isEmpty ∧ u.host.isSome then "/" else u.path) ∧ uri.query = u.query)
    ⟨fun ⟨hs, ha, hp, hq⟩ => ⟨hs, ha, hp, hq⟩, fun ⟨hs, ha, hp, hq⟩ => ⟨hs, ha, hp, hq⟩⟩

/-- No part of the URL holds a character that ends it. -/
structure Clear (u : BuiltUrl) : Prop where
  scheme : ∀ x, u.scheme = some x → '/' ∉ x.toList
  host : ∀ x, u.host = some x → ∀ c ∈ x.toList, Uri.endsAuthority c = false
  path : Uri.PathClear u.path.toList (u.query.map String.toList)

theorem toUri_eq_ok (h : u.toUri = .ok uri) : Uri.ofChars? u.toText.toList = some uri := by
  rw [toUri] at h
  cases hread : Uri.ofString? u.toText with
  | none => simp [hread] at h
  | some uri' =>
    rw [hread] at h
    obtain rfl : uri' = uri := Except.ok.inj h
    rw [Uri.ofString?] at hread
    split at hread
    · exact hread
    · cases hread

theorem toList_pathText (u : BuiltUrl) :
    (u.path ++ u.query.elim "" ("?" ++ ·)).toList = Uri.pathText u.path.toList (u.query.map String.toList) := by
  rw [Uri.pathText]
  cases u.query <;> simp [String.toList_append]

theorem ofList_query (u : BuiltUrl) : (u.query.map String.toList).map String.ofList = u.query := by
  cases u.query <;> simp

theorem isReadAs_iff_of_noHost (hhost : u.host = none) (hscheme : u.scheme = none)
    (hr : Path.Rooted u.path.toList) (h : u.toUri = .ok uri) : u.IsReadAs uri ↔ u.Clear := by
  have hread := toUri_eq_ok h
  have htext : u.toText.toList = Uri.pathText u.path.toList (u.query.map String.toList) := by
    rw [toText, hhost, Option.elim_none, String.empty_append, toList_pathText]
  rw [htext] at hread
  have hpath := (Uri.ofPath?_of_ofChars? hr hread).2
  have hiff := Uri.ofPath?_eq_iff hpath
  obtain ⟨hno, hnoAuthority⟩ := Uri.scheme_of_ofPath? hpath
  rw [String.ofList_toList, ofList_query] at hiff
  constructor
  · rintro ⟨-, -, hp, hq⟩
    rw [hhost, Option.isSome_none, if_neg (fun h => Bool.noConfusion h.2)] at hp
    refine ⟨fun x hx => ?_, fun x hx => ?_, hiff.mp ⟨hp, hq⟩⟩
    · cases hscheme.symm.trans hx
    · cases hhost.symm.trans hx
  · rintro ⟨-, -, hclear⟩
    obtain ⟨hp, hq⟩ := hiff.mpr hclear
    refine ⟨hno.trans hscheme.symm, hnoAuthority.trans hhost.symm, ?_, hq⟩
    rw [hhost, Option.isSome_none, if_neg (fun h => Bool.noConfusion h.2), hp]

theorem isReadAs_iff_of_host {scheme host : String} (hhost : u.host = some host) (hscheme : u.scheme = some scheme)
    (hlower : lowerAscii scheme = scheme) (hr : Path.Rooted u.path.toList) (h : u.toUri = .ok uri) :
    u.IsReadAs uri ↔ u.Clear := by
  have hread := toUri_eq_ok h
  by_cases hslash : '/' ∈ scheme.toList
  · refine iff_of_false (fun hsame => ?_) fun hclear => hclear.scheme scheme hscheme hslash
    exact Uri.slash_not_mem_scheme hread scheme (hsame.scheme.trans hscheme) hslash
  · have htext : u.toText.toList = scheme.toList ++ ("://".toList ++
        (host.toList ++ Uri.pathText u.path.toList (u.query.map String.toList))) := by
      rw [toText, hhost, hscheme, ← toList_pathText]
      simp [String.toList_append]
    have hmap : scheme.toList.map Char.toLower = scheme.toList := by
      rw [← String.toList_ofList (l := scheme.toList.map Char.toLower)]
      exact congrArg String.toList hlower
    rw [htext] at hread
    have habsolute := Uri.ofAbsolute?_of_ofChars? hslash hmap hread
    have hiff := Uri.ofAbsolute?_eq_iff hr habsolute
    have hown := Uri.scheme_of_ofAbsolute? habsolute
    have hpath : (if u.path.isEmpty ∧ u.host.isSome then "/" else u.path) =
        if u.path.toList.isEmpty then "/" else String.ofList u.path.toList := by
      rw [hhost, String.ofList_toList]
      simp
    rw [String.ofList_toList] at hown
    rw [← hpath, String.ofList_toList, ofList_query] at hiff
    constructor
    · rintro ⟨-, ha, hp, hq⟩
      obtain ⟨hopen, hclear⟩ := hiff.mp ⟨ha.trans hhost, hp, hq⟩
      refine ⟨fun x hx => ?_, fun x hx => ?_, hclear⟩
      · obtain rfl := Option.some.inj (hscheme.symm.trans hx)
        exact hslash
      · obtain rfl := Option.some.inj (hhost.symm.trans hx)
        exact hopen
    · rintro ⟨-, hopen, hclear⟩
      obtain ⟨ha, hp, hq⟩ := hiff.mpr ⟨hopen host hhost, hclear⟩
      exact ⟨hown.trans hscheme.symm, ha.trans hhost.symm, hp, hq⟩

end BuiltUrl

theorem Path.Rooted.encodeChars {s : List Char} (h : Path.Rooted s) : Path.Rooted (Path.encodeChars s) := by
  cases s with
  | nil => exact .inl rfl
  | cons c s =>
    obtain rfl : c = '/' := h.head_eq
    rw [Path.encodeChars_eq]
    exact .inr rfl

/-- Parts put together hold only what the parts and the separator hold. -/
theorem not_mem_intercalate {c : Char} {sep : List Char} {parts : List (List Char)} (hsep : c ∉ sep)
    (h : ∀ part ∈ parts, c ∉ part) : c ∉ sep.intercalate parts := by
  induction parts with
  | nil => exact List.not_mem_nil
  | cons part parts ih =>
    rw [List.forall_mem_cons] at h
    cases parts with
    | nil => simpa using h.1
    | cons next parts =>
      rw [List.intercalate_cons_cons, List.append_assoc, List.mem_append, List.mem_append]
      exact not_or.mpr ⟨h.1, not_or.mpr ⟨hsep, ih h.2⟩⟩

theorem Template.IsCompiled.hash_not_mem {t : Template} {values : String → Option String} {text : String}
    (h : t.IsCompiled) (hk : t.kind = .query) (hplain : '#' ∉ t.literals) (he : t.expand values = .ok text) :
    '#' ∉ text.toList := by
  have hcoded : ∀ s, '#' ∉ Percent.encode s := fun s => Percent.not_mem_encode (by decide) (by decide)
  obtain ⟨key, -, htext | ⟨-, -, htext⟩⟩ := h.toList_expand hk he
  · rw [htext, List.mem_append, List.mem_cons, not_or, not_or]
    exact ⟨hcoded _, by decide, fun hmem => hplain (mem_literals_of_mem_codedText (by decide) (by decide) hmem)⟩
  · rw [htext]
    exact hcoded _

namespace Route

variable {H : Type} {r : Route H} {vars : Vars} {u : BuiltUrl}

/-- What the route puts out as it is does not end the part where it stands: there is no slash in the scheme, no
slash or mark in the host, and no mark in a path that is not encoded. -/
structure Clear (r : Route H) (vars : Vars) : Prop where
  scheme : r.host.isSome = true → '/' ∉ r.urlScheme.toList
  host : ∀ t, r.host = some t → ∀ c ∈ t.valueText vars.get?, Uri.endsAuthority c = false
  path : r.scope.useEncodedPath = true → ∀ t, r.path = some t →
    '?' ∉ t.valueText vars.get? ∧ '#' ∉ t.valueText vars.get?

namespace Builds

theorem path_text (hb : r.Builds vars u) (hv : r.innerScope.Valid) {t : Template} (ht : r.path = some t) :
    u.path.toList = if r.scope.useEncodedPath then t.valueText vars.get?
      else Path.encodeChars (t.valueText vars.get?) := by
  obtain ⟨hcompiled, hkind⟩ := hv.path t ht
  have hk : t.kind ≠ .query := by rcases hkind with hkind | hkind <;> simp [hkind]
  obtain ⟨text, he, hpath⟩ := hb.path t ht
  have htext := hcompiled.made.toList_expand hk he
  rw [hpath]
  split
  · exact htext
  · rw [Path.encode, String.toList_ofList, htext]

theorem rooted_path (hb : r.Builds vars u) (hv : r.innerScope.Valid) : Path.Rooted u.path.toList := by
  cases hpath : r.path with
  | none => exact .inl (by rw [hb.noPath hpath]; rfl)
  | some t =>
    obtain ⟨hcompiled, hkind⟩ := hv.path t hpath
    have hrooted := hcompiled.rooted_valueText hkind (hv.rooted t hpath) vars.get?
    rw [hb.path_text hv hpath]
    split
    · exact hrooted
    · exact hrooted.encodeChars

theorem path_clear_iff (hb : r.Builds vars u) (hv : r.innerScope.Valid) :
    ('?' ∉ u.path.toList ∧ '#' ∉ u.path.toList) ↔ (r.scope.useEncodedPath = true → ∀ t, r.path = some t →
      '?' ∉ t.valueText vars.get? ∧ '#' ∉ t.valueText vars.get?) := by
  cases hpath : r.path with
  | none =>
    rw [hb.noPath hpath]
    simp
  | some t =>
    have htext := hb.path_text hv hpath
    by_cases hencoded : r.scope.useEncodedPath = true
    · rw [htext, if_pos hencoded]
      simp [hencoded]
    · have hpathChar : ∀ c ∈ u.path.toList, c ≠ '#' ∧ c ≠ '?' := by
        intro c hc
        have hcoded : c ∈ (Path.encode (String.ofList (t.valueText vars.get?))).toList := by
          rw [htext, if_neg hencoded] at hc
          rwa [Path.encode, String.toList_ofList, String.toList_ofList]
        exact Uri.ne_of_isPathChar (Path.isPathChar_encode hcoded)
      exact iff_of_true ⟨fun h => (hpathChar _ h).2 rfl, fun h => (hpathChar _ h).1 rfl⟩
        fun h => absurd h hencoded

theorem hash_not_mem_query (hb : r.Builds vars u) (hv : r.innerScope.Valid)
    (hplain : ∀ t ∈ r.queries, '#' ∉ t.literals) :
    ∀ x, u.query.map String.toList = some x → '#' ∉ x := by
  obtain ⟨qs, hqs, hquery⟩ := hb.queries
  intro x hx
  rw [hquery] at hx
  split at hx
  · cases hx
  · obtain rfl := Option.some.inj hx
    rw [String.toList_intercalate]
    refine not_mem_intercalate (by decide) fun part hpart => ?_
    obtain ⟨q, hq, rfl⟩ := List.mem_map.mp hpart
    obtain ⟨i, hi, rfl⟩ := List.getElem_of_mem hq
    have hlen : i < r.queries.length := hqs.length_eq.symm ▸ hi
    obtain ⟨hcompiled, hkind⟩ := hv.queries _ (List.getElem_mem hlen)
    exact hcompiled.hash_not_mem hkind (hplain _ (List.getElem_mem hlen)) (hqs.get hlen hi)

theorem clear_iff (hb : r.Builds vars u) (hv : r.innerScope.Valid)
    (hplain : ∀ t ∈ r.queries, '#' ∉ t.literals) : u.Clear ↔ r.Clear vars := by
  have hquery := hb.hash_not_mem_query hv hplain
  cases hhost : r.host with
  | none =>
    have hnone := hb.noHost hhost
    have hscheme := hb.scheme
    rw [hnone] at hscheme
    constructor
    · rintro ⟨-, -, hpath, -⟩
      exact ⟨by simp [hhost], by simp [hhost], (hb.path_clear_iff hv).mp hpath⟩
    · rintro ⟨-, -, hpath⟩
      exact ⟨by simp [hscheme], by simp [hnone], (hb.path_clear_iff hv).mpr hpath, hquery⟩
  | some t =>
    obtain ⟨text, hsome, he⟩ := hb.host t hhost
    obtain ⟨hcompiled, hkind⟩ := hv.host t hhost
    have htext := hcompiled.made.toList_expand (by simp [hkind]) he
    have hscheme := hb.scheme
    rw [hsome] at hscheme
    constructor
    · rintro ⟨hslash, hopen, hpath, -⟩
      refine ⟨fun _ => hslash _ hscheme, ?_, (hb.path_clear_iff hv).mp hpath⟩
      rintro t' ht'
      obtain rfl := Option.some.inj (hhost.symm.trans ht')
      exact htext ▸ hopen text hsome
    · rintro ⟨hslash, hopen, hpath⟩
      refine ⟨fun x hx => ?_, fun x hx => ?_, (hb.path_clear_iff hv).mpr hpath, hquery⟩
      · obtain rfl := Option.some.inj (hscheme.symm.trans hx)
        exact hslash (by simp [hhost])
      · obtain rfl := Option.some.inj (hsome.symm.trans hx)
        exact htext ▸ hopen t hhost

end Builds

/-- A built URL that can be read has its own scheme, host, path and query exactly if the route puts out nothing
as it is that ends a part. So no value of a query, and no value of a path that is encoded, comes to stand in
another part. -/
theorem url_read_back (hr : r.Arises) (hplain : ∀ t ∈ r.queries, '#' ∉ t.literals)
    {pairs : List (String × String)} (hu : r.url pairs = .ok u) {uri : Uri} (huri : u.toUri = .ok uri) :
    u.IsReadAs uri ↔ r.Clear (r.transform (.ofPairs pairs)) := by
  have hb := url_builds hu
  have hv := hr.valid
  rw [← hb.clear_iff hv hplain]
  cases hhost : r.host with
  | none =>
    have hnone := hb.noHost hhost
    exact BuiltUrl.isReadAs_iff_of_noHost hnone (by rw [hb.scheme, hnone]; rfl) (hb.rooted_path hv) huri
  | some t =>
    obtain ⟨text, hsome, -⟩ := hb.host t hhost
    have hlower : lowerAscii r.urlScheme = r.urlScheme := by
      rw [urlScheme]
      cases hscheme : r.buildScheme with
      | none => decide
      | some x => exact hv.buildScheme x hscheme
    exact BuiltUrl.isReadAs_iff_of_host hsome (by rw [hb.scheme, hsome]; rfl) hlower (hb.rooted_path hv) huri

/-- Marks in the values of a path and of a query. -/
theorem url_read_back_marks :
    ∃ (r : Route Unit) (u : BuiltUrl) (uri : Uri), r.Arises ∧
      r.url [("h", "api"), ("x", "a?b#c"), ("v", "d&e#/f")] = .ok u ∧ u.toUri = .ok uri ∧ u.IsReadAs uri ∧
      uri = ⟨some "https", some "api.example.com", "/a%3Fb%23c", some "q=d%26e%23%2Ff"⟩ := by
  let r : Route Unit := (Call.applyAll [.schemes ["HTTPS"], .host "{h}.example.com", .path "/{x}",
    .queries [("q", "{v}")]] (.new .root 0) (.new .new)).1
  let pairs := [("h", "api"), ("x", "a?b#c"), ("v", "d&e#/f")]
  let uri : Uri := ⟨some "https", some "api.example.com", "/a%3Fb%23c", some "q=d%26e%23%2Ff"⟩
  let u : BuiltUrl := ⟨uri.scheme, uri.authority, uri.path, uri.query⟩
  have hr : r.Arises := ⟨_, .root false false false, _, _, _, PatternCache.faithful_new, rfl⟩
  have hfacts : (∀ t ∈ r.queries, '#' ∉ t.literals) ∧ r.url pairs = .ok u ∧ u.toUri = .ok uri ∧
      '/' ∉ r.urlScheme.toList ∧ r.scope.useEncodedPath = false ∧
      (r.host.all fun t => (t.valueText (r.transform (.ofPairs pairs)).get?).all (!Uri.endsAuthority ·)) = true := by
    decide +kernel
  obtain ⟨hplain, hu, huri, hscheme, hdecoded, hhost⟩ := hfacts
  have hopen : ∀ t, r.host = some t →
      ∀ c ∈ t.valueText (r.transform (.ofPairs pairs)).get?, Uri.endsAuthority c = false := by
    intro t ht c hc
    rw [ht, Option.all_some, List.all_eq_true] at hhost
    simpa using hhost c hc
  have hclear : r.Clear (r.transform (.ofPairs pairs)) :=
    ⟨fun _ => hscheme, hopen, fun hencoded => absurd hencoded (by simp [hdecoded])⟩
  exact ⟨r, u, uri, hr, hu, huri, (url_read_back hr hplain hu huri).mpr hclear, rfl⟩

/-- Values that end the part where they stand: a slash in a host begins the path, a number sign in a host hides
the path, and a mark in a path that is not encoded begins the query. -/
theorem url_read_back_moved :
    let named : Route Unit :=
      (Call.applyAll [.host "{h}.example.com", .path "/x"] (.new .root 0) (.new .new)).1
    let raw : Route Unit :=
      (Call.applyAll [.path "/{x}"] (.new { Scope.root with useEncodedPath := true } 0) (.new .new)).1
    let moved (r : Route Unit) (pairs : List (String × String)) (uri : Uri) : Prop :=
      ∃ u, r.url pairs = .ok u ∧ u.toUri = .ok uri ∧ ¬ u.IsReadAs uri
    named.Arises ∧ raw.Arises ∧
      moved named [("h", "a/b")] ⟨some "http", some "a", "/b.example.com/x", none⟩ ∧
      moved named [("h", "a#b")] ⟨some "http", some "a", "/", none⟩ ∧
      moved raw [("x", "a?b")] ⟨none, none, "/a", some "b"⟩ := by
  intro named raw moved
  refine ⟨⟨_, .root false false false, _, _, _, PatternCache.faithful_new, rfl⟩,
    ⟨_, .root false false true, _, _, _, PatternCache.faithful_new, rfl⟩, ?slash, ?sign, ?mark⟩
  case slash => exact ⟨⟨some "http", some "a/b.example.com", "/x", none⟩, by decide +kernel⟩
  case sign => exact ⟨⟨some "http", some "a#b.example.com", "/x", none⟩, by decide +kernel⟩
  case mark => exact ⟨⟨none, none, "/a?b", none⟩, by decide +kernel⟩

end Route

end RequestRouter
