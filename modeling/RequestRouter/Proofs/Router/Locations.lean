import RequestRouter.Handler
import RequestRouter.Proofs.Router.Cleaning
import RequestRouter.Proofs.Router.Origins
/-!
The locations of redirects. A location never begins with two slashes, so that no redirect leads to another host, and
it is always a header value, so that every redirect says where to go.
-/
namespace RequestRouter

open RequestRouter.Http RequestRouter.Text

variable {H : Type}

def Answer.location? : Answer H → Option String
  | .redirect location => some location
  | _ => none

theorem Answer.eq_redirect {a : Answer H} {location : String} (h : a.location? = some location) :
    a = .redirect location := by
  cases a <;> cases h
  rfl

def Path.NamesHost (s : List Char) : Prop := "//".toList <+: s

namespace Path

variable {s : List Char}

theorem namesHost_iff : NamesHost s ↔ ∃ rest, s = '/' :: '/' :: rest :=
  exists_congr fun _ => eq_comm

theorem NamesHost.mono {t : List Char} (h : NamesHost s) (hs : s <+: t) : NamesHost t := h.trans hs

theorem exists_ofSegments_eq {segs : List (List Char)} (hne : segs ≠ []) (hsegs : ∀ s ∈ segs, IsSegment s) :
    ∃ c more, c ≠ '/' ∧ ofSegments segs = '/' :: c :: more := by
  obtain ⟨first, segs, rfl⟩ := List.exists_cons_of_ne_nil hne
  obtain ⟨hfirst, -, -, hslash⟩ := hsegs first List.mem_cons_self
  obtain ⟨c, first, rfl⟩ := List.exists_cons_of_ne_nil hfirst
  exact ⟨c, first ++ ofSegments segs, (List.ne_of_not_mem_cons hslash).symm, rfl⟩

theorem Canonical.not_namesHost (h : Canonical s) : ¬ NamesHost s := by
  rw [namesHost_iff]
  rintro ⟨rest, hrest⟩
  rcases canonical_iff.mp h with rfl | ⟨segs, hne, hsegs, heq⟩
  · cases hrest
  · obtain ⟨c, more, hc, hbegins⟩ := exists_ofSegments_eq hne hsegs
    rcases heq with rfl | rfl <;>
    · rw [hbegins] at hrest
      cases hrest
      exact hc rfl

theorem eq_of_encodePathChar_append {c : Char} {t : List Char} (h : encodePathChar c ++ s = '/' :: t) :
    c = '/' ∧ s = t := by
  by_cases hc : c = '/'
  · rw [encodePathChar, if_pos hc] at h
    exact ⟨hc, (List.cons.inj h).2⟩
  · obtain ⟨d, more, hd⟩ := List.exists_cons_of_ne_nil (Percent.encodeChar_ne_nil c)
    rw [encodePathChar, if_neg hc, hd] at h
    obtain rfl : d = '/' := (List.cons.inj h).1
    have hmem : '/' ∈ Percent.encode [c] := by
      rw [Percent.encode, List.flatMap_singleton, hd]
      exact List.mem_cons_self
    exact absurd hmem (Percent.not_mem_encode (by decide) (by decide))

theorem namesHost_of_encodeChars (h : NamesHost (encodeChars s)) : NamesHost s := by
  rw [encodeChars_eq] at h
  obtain ⟨rest, h⟩ := namesHost_iff.mp h
  match s with
  | [] => cases h
  | [c] =>
    obtain ⟨-, h⟩ := eq_of_encodePathChar_append h
    cases h
  | c :: d :: s =>
    obtain ⟨hc, hrest⟩ := eq_of_encodePathChar_append h
    obtain ⟨hd, -⟩ := eq_of_encodePathChar_append hrest
    exact namesHost_iff.mpr ⟨s, by rw [hc, hd]⟩

theorem decodeChars_cons_slash (s : List Char) : decodeChars ('/' :: s) = '/' :: decodeChars s := by
  rw [decodeChars, Percent.decode?_cons_slash, decodeChars]
  cases Percent.decode? s <;> rfl

/-- Two slashes at the beginning are still there after decoding. -/
theorem NamesHost.decode {path : String} (h : NamesHost path.toList) : NamesHost (decode path).toList := by
  obtain ⟨rest, hrest⟩ := namesHost_iff.mp h
  rw [Path.decode, String.toList_ofList, hrest, decodeChars_cons_slash, decodeChars_cons_slash]
  exact namesHost_iff.mpr ⟨_, rfl⟩

end Path

/-- The path to which a router sends a request: the canonical form of its path, put on the wire, or the path as it was
sent, with the end that the route wants. -/
inductive Router.SendsTo (r : Router H) (req : Request) (w : Wraps H) : String → Prop
  | cleaned (hlooked : ¬ CleaningExempt r.settings.scope req)
      (hclean : Path.clean (req.pathFor r.settings.scope) ≠ req.pathFor r.settings.scope) :
      SendsTo r req w (r.settings.scope.wire (Path.clean (req.pathFor r.settings.scope)))
  | turned {route : Route H} {slash : Bool}
      (hclean : CleaningExempt r.settings.scope req ∨
        Path.clean (req.pathFor r.settings.scope) = req.pathFor r.settings.scope)
      (hroute : (r.dispatch req w).1.outcome = .ok route) (hwants : route.Wants slash)
      (hends : req.uri.path.toList.getLast? = some '/' ↔ slash = false) (hne : turned slash req.uri.path ≠ "") :
      SendsTo r req w (turned slash req.uri.path)

namespace Router

variable {r : Router H} {req : Request} {location : String} {w : Wraps H}

theorem cleanRedirect_eq_none {scope : Scope} :
    cleanRedirect scope req = none ↔
      CleaningExempt scope req ∨ Path.clean (req.pathFor scope) = req.pathFor scope := by
  rw [cleanRedirect_eq]
  split
  · simp [*]
  · split <;> simp [*]

theorem answer_eq_redirect_iff :
    (r.answer req w).1 = .redirect location ↔ ∃ path, r.SendsTo req w path ∧ location = withQuery path req := by
  constructor
  · intro h
    rcases answer_eq_redirect h with hclean | ⟨hclean, route, hroute, hslash⟩
    · rw [cleanRedirect_eq] at hclean
      split at hclean
      · cases hclean
      · rename_i hlooked
        split at hclean
        · cases hclean
        · rename_i hne
          exact ⟨_, .cleaned hlooked hne, (Option.some.inj hclean).symm⟩
    · obtain ⟨slash, hwants, hends, hne, rfl⟩ := slashRedirect_eq_some.mp hslash
      exact ⟨_, .turned (cleanRedirect_eq_none.mp hclean) hroute hwants hends hne, rfl⟩
  · rintro ⟨path, hsends, rfl⟩
    cases hsends with
    | cleaned hlooked hne => rw [answer, cleanRedirect_eq, if_neg hlooked, if_neg hne]
    | turned hclean hroute hwants hends hne =>
      exact answer_of_clean (cleanRedirect_eq_none.mpr hclean) hroute
        (slashRedirect_eq_some.mpr ⟨_, hwants, hends, hne, rfl⟩)

end Router

section Locations

variable {req : Request} {path : String}

theorem namesHost_of_withQuery (h : Path.NamesHost (withQuery path req).toList) : Path.NamesHost path.toList := by
  rw [Request.toList_withQuery] at h
  obtain ⟨rest, h⟩ := Path.namesHost_iff.mp h
  rw [Path.namesHost_iff]
  match hpath : path.toList with
  | [] | [c] => cases hquery : req.uri.query <;> simp [hpath, hquery] at h
  | c :: d :: s =>
    rw [hpath] at h
    cases h
    exact ⟨s, rfl⟩

/-- Turning the end of a path makes no second slash at its beginning, unless a slash is added to the root. -/
theorem namesHost_of_turned {slash : Bool} (h : Path.NamesHost (turned slash path).toList)
    (hends : path.toList.getLast? = some '/' ↔ slash = false) : Path.NamesHost path.toList := by
  cases slash with
  | false =>
    rw [turned_false, String.toList_ofList] at h
    exact h.mono (Call.isPrefix_trimSlashes _)
  | true =>
    rw [turned_true, Path.toList_append_slash] at h
    obtain ⟨rest, h⟩ := Path.namesHost_iff.mp h
    rw [Path.namesHost_iff]
    match hpath : path.toList with
    | [] => simp [hpath] at h
    | [c] =>
      rw [hpath] at h hends
      cases h
      exact absurd (hends.mp rfl) (by decide)
    | c :: d :: s =>
      rw [hpath] at h
      cases h
      exact ⟨s, rfl⟩

theorem namesHost_of_wire {scope : Scope} (h : Path.NamesHost (scope.wire path).toList) :
    Path.NamesHost path.toList := by
  rw [Scope.wire] at h
  split at h
  · exact h
  · rw [Path.encode, String.toList_ofList] at h
    exact Path.namesHost_of_encodeChars h

theorem namesHost_pathFor (scope : Scope) (h : Path.NamesHost req.uri.path.toList) :
    Path.NamesHost (req.pathFor scope).toList := by
  by_cases hencoded : scope.useEncodedPath = true
  · rwa [show req.pathFor scope = req.uri.path from if_pos hencoded]
  · rw [show req.pathFor scope = Path.decode req.uri.path from if_neg hencoded]
    exact h.decode

end Locations

namespace Router

variable {r : Router H} {req : Request} {location : String} {w : Wraps H}

/-- A path that is not cleaned does not begin with two slashes. -/
theorem not_namesHost_of_clean {scope : Scope} (hskip : scope.skipClean = false) (hmethod : req.method ≠ .connect)
    (h : CleaningExempt scope req ∨ Path.clean (req.pathFor scope) = req.pathFor scope) :
    ¬ Path.NamesHost req.uri.path.toList := by
  intro hhost
  rcases h with hexempt | hclean
  · obtain ⟨rest, hrest⟩ := Path.namesHost_iff.mp hhost
    have hslash : req.uri.path.toList.head? = some '/' := by rw [hrest]; rfl
    exact not_exempt hskip hmethod hslash hexempt
  · have hcanonical := Path.canonical_clean (req.pathFor scope)
    rw [hclean] at hcanonical
    exact hcanonical.not_namesHost (namesHost_pathFor scope hhost)

/-- No redirect leads to another host: a location never begins with two slashes. The path is compared with its
canonical form as routes see it, and the slash at its end is turned in the form in which it was sent. -/
theorem answer_redirect_stays (hskip : r.settings.scope.skipClean = false) (hmethod : req.method ≠ .connect)
    (h : (r.answer req w).1 = .redirect location) : ¬ "//".toList <+: location.toList := by
  intro hhost
  obtain ⟨path, hsends, rfl⟩ := answer_eq_redirect_iff.mp h
  have hpath : Path.NamesHost path.toList := namesHost_of_withQuery hhost
  cases hsends with
  | cleaned => exact (Path.canonical_clean _).not_namesHost (namesHost_of_wire hpath)
  | turned hclean _ _ hends =>
    exact not_namesHost_of_clean hskip hmethod hclean (namesHost_of_turned hpath hends)

/-- A path that is seen with two slashes is cleaned, and a path below a mount gets its final slash. -/
theorem answer_redirect_stays_decoded :
    let scope : Scope := { Scope.root with strictSlash := true }
    let made (scope : Scope) (calls : List (Call Nat)) : Route Nat :=
      (Call.applyAll calls (.new scope 0) (.new .new)).1
    let mount := made scope [.leading "/café"]
    let r : Router Nat := ⟨.new 0 scope,
      .mount mount (.new 1 mount.innerScope) (.leaf (made mount.innerScope [.path "/{name}/"]) .nil) .nil⟩
    let req (path : String) : Request := .new .get ⟨none, none, path, some "/"⟩ [] none
    ((r.answer (req "/%2Fexample.com") .new).1 = .redirect "/example.com?/" ∧
        ¬ "//".toList <+: "/example.com?/".toList) ∧
      (r.answer (req "/caf%C3%A9/%C3%A9") .new).1 = .redirect "/caf%C3%A9/%C3%A9/?/" ∧
        ¬ "//".toList <+: "/caf%C3%A9/%C3%A9/?/".toList := by
  intro scope made mount r req
  have hlocations : (r.answer (req "/%2Fexample.com") .new).1.location? = some "/example.com?/" ∧
      (r.answer (req "/caf%C3%A9/%C3%A9") .new).1.location? = some "/caf%C3%A9/%C3%A9/?/" := by
    decide +kernel
  have hcleaned := Answer.eq_redirect hlocations.1
  have hturned := Answer.eq_redirect hlocations.2
  exact ⟨⟨hcleaned, answer_redirect_stays rfl (by decide) hcleaned⟩,
    hturned, answer_redirect_stays rfl (by decide) hturned⟩

end Router

section Values

def Http.Visible (c : Char) : Prop := 0x80 ≤ c.toNat ∨ 0x21 ≤ c.toNat ∧ c.toNat < 0x7F

variable {c : Char} {req : Request} {path : String}

theorem Http.visible_of_isPathChar (h : Uri.isPathChar c = true) : Visible c := by
  simp only [Uri.isPathChar, Bool.or_eq_true, Bool.and_eq_true, decide_eq_true_eq] at h
  exact h.imp_right And.left

theorem Http.visible_of_isQueryChar (h : Uri.isQueryChar c = true) : Visible c := by
  simp only [Uri.isQueryChar, Bool.or_eq_true, Bool.and_eq_true, decide_eq_true_eq] at h
  exact h.imp_right And.left

theorem Http.isHeaderValue_of_visible {s : String} (h : ∀ c ∈ s.toList, Visible c) : isHeaderValue s = true := by
  rw [isHeaderValue, List.all_eq_true]
  intro c hc
  have hrange : 32 ≤ c.toNat ∧ c.toNat ≠ 127 := by
    rcases h c hc with h | h <;> omega
  simp [hrange]

theorem Http.Headers.getAll_put (hs : Headers) (name : HeaderName) (value : String) :
    (hs.put name value).getAll name = [value] := by
  have hothers : getAll (hs.filter fun h => h.1 ≠ name) name = [] := by
    rw [getAll, List.filterMap_eq_nil_iff]
    intro h hmem
    rw [if_neg (by simpa using (List.mem_filter.mp hmem).2)]
  rw [put, getAll, List.filterMap_append, ← getAll, hothers]
  simp

/-- A path with the query of a sound request is a header value, whatever lies beyond ASCII in it. -/
theorem Request.Sound.isHeaderValue (h : req.Sound) (hpath : ∀ c ∈ path.toList, Uri.isPathChar c = true) :
    isHeaderValue (withQuery path req) = true := by
  apply isHeaderValue_of_visible
  intro c hc
  rw [Request.toList_withQuery] at hc
  rcases List.mem_append.mp hc with hc | hc
  · exact visible_of_isPathChar (hpath c hc)
  · cases hquery : req.uri.query with
    | none => simp [hquery] at hc
    | some q =>
      rw [hquery] at hc
      rcases List.mem_cons.mp hc with rfl | hc
      · exact .inr (by decide)
      · exact visible_of_isQueryChar (h.query q hquery c hc)

theorem Response.getAll_redirect (res : Response) (location : String) (status : Nat) :
    (res.redirect location status).headers.getAll ⟨"location"⟩ =
      if isHeaderValue location then [location] else res.headers.getAll ⟨"location"⟩ := by
  rw [redirect]
  split
  · exact Headers.getAll_put _ _ _
  · rfl

end Values

namespace Router

variable {r : Router H} {req : Request} {w : Wraps H}

theorem SendsTo.isPathChar {path : String} (h : r.SendsTo req w path) (hs : req.Sound) :
    ∀ c ∈ path.toList, Uri.isPathChar c = true := by
  cases h with
  | cleaned => exact hs.wire_clean _
  | turned => exact hs.turned _

end Router

namespace Service

variable {service : Service} {r : Router Handler} {ex : Exchange} {w : Wraps Handler} {location : String}

theorem serve_of_redirect (h : (r.answer ex.request w).1 = .redirect location) :
    (service.serve r ex w).1.response = ex.response.redirect location 308 := by
  rw [serve]
  rcases hanswer : r.answer ex.request w with ⟨a, req, w'⟩
  obtain rfl : a = .redirect location := by rw [← h, hanswer]
  rfl

theorem run_of_redirect {index : Nat} (hr : service[index]? = some r)
    (h : (r.answer ex.request w).1 = .redirect location) (fuel : Nat) :
    (service.run (fuel + 1) (.router index) ex w).1.response = ex.response.redirect location 308 := by
  rw [run, hr]
  dsimp only
  rcases hanswer : r.answer ex.request w with ⟨a, req, w'⟩
  obtain rfl : a = .redirect location := by rw [← h, hanswer]
  rfl

/-- Every redirect says where to go: the response to the request has status 308, no body, and one location, which is
the path to which the router sends the request, with the query of the request. A location that is no header value would
be left out, but no target that can be read leads to such a location. It does not matter whether the router serves by
itself or as a handler of another one. -/
theorem serve_redirect (h : (r.answer ex.request w).1 = .redirect location) :
    let served := (service.serve r ex w).1.response
    (∃ path, r.SendsTo ex.request w path ∧ location = path ++ ex.request.uri.query.elim "" ("?" ++ ·)) ∧
      served.status = 308 ∧ served.body = "" ∧
      (∀ target, Uri.ofString? target = some ex.request.uri →
        served.headers.getAll ⟨"location"⟩ = [location]) ∧
      served.headers.getAll ⟨"location"⟩ =
        (if isHeaderValue location then [location] else ex.response.headers.getAll ⟨"location"⟩) ∧
      ∀ index fuel, service[index]? = some r →
        (service.run (fuel + 1) (.router index) ex w).1.response = served := by
  intro served
  obtain ⟨path, hsends, rfl⟩ := Router.answer_eq_redirect_iff.mp h
  have hserved : served = ex.response.redirect (withQuery path ex.request) 308 := serve_of_redirect h
  have hlocation := Response.getAll_redirect ex.response (withQuery path ex.request) 308
  rw [← hserved] at hlocation
  refine ⟨⟨path, hsends, rfl⟩, ?_, ?_, fun target htarget => ?_, hlocation, fun index fuel hr => ?_⟩
  · rw [hserved, Response.redirect]
  · rw [hserved, Response.redirect]
  · have hs : ex.request.Sound := Request.sound_of_ofString? htarget ex.request
    rw [hlocation, if_pos (hs.isHeaderValue (hsends.isPathChar hs))]
  · exact (run_of_redirect hr h fuel).trans hserved.symm

/-- Paths and queries beyond ASCII, which are not encoded: one path is cleaned, and one gets a final slash. -/
theorem serve_redirect_beyond_ascii :
    let scope : Scope := { Scope.root with strictSlash := true, useEncodedPath := true }
    let route : Route Handler := (Call.applyAll [.path "/{name}/"] (.new scope 0) (.new .new)).1
    let r : Router Handler := ⟨.new 0 scope, .leaf route .nil⟩
    let served (uri : Uri) : Response := (serve [] r ⟨.new .get uri [] none, .empty⟩ .new).1.response
    ∃ doubled short, Uri.ofString? "/é//b?ü" = some doubled ∧ Uri.ofString? "/é?ü" = some short ∧
      (served doubled).status = 308 ∧ (served doubled).headers.getAll ⟨"location"⟩ = ["/é/b?ü"] ∧
      (served short).status = 308 ∧ (served short).headers.getAll ⟨"location"⟩ = ["/é/?ü"] := by
  intro scope route r served
  let doubled : Uri := ⟨none, none, "/é//b", some "ü"⟩
  let short : Uri := ⟨none, none, "/é", some "ü"⟩
  have htargets : Uri.ofString? "/é//b?ü" = some doubled ∧ Uri.ofString? "/é?ü" = some short := by decide +kernel
  have hlocations : (r.answer (.new .get doubled [] none) .new).1.location? = some "/é/b?ü" ∧
      (r.answer (.new .get short [] none) .new).1.location? = some "/é/?ü" := by
    decide +kernel
  obtain ⟨-, hstatus, -, hlocation, -⟩ := @serve_redirect [] r ⟨.new .get doubled [] none, .empty⟩ .new _
    (Answer.eq_redirect hlocations.1)
  obtain ⟨-, hstatus', -, hlocation', -⟩ := @serve_redirect [] r ⟨.new .get short [] none, .empty⟩ .new _
    (Answer.eq_redirect hlocations.2)
  exact ⟨doubled, short, htargets.1, htargets.2, hstatus, hlocation _ htargets.1, hstatus', hlocation' _ htargets.2⟩

end Service

end RequestRouter
