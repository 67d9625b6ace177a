import Mathlib.Logic.Relation
import RequestRouter.Proofs.Dispatch.Site
import RequestRouter.Proofs.Http.Targets
import RequestRouter.Proofs.Router.Templates
/-!
Chains of redirects. A redirect either cleans the path or turns its end: it adds a final slash or takes it
away. Once the path is clean it stays clean, so that a chain that comes back only turns the end of a path to
and fro.
-/
namespace RequestRouter

open Relation RequestRouter.Http

variable {H : Type}

namespace Scope

variable {scope : Scope} {path : String}

def wire (scope : Scope) (path : String) : String := if scope.useEncodedPath then path else Path.encode path

def Keeps (scope : Scope) (path : String) : Prop :=
  ∃ c : String, Path.Canonical c.toList ∧ path = scope.wire c

theorem wire_append_slash (scope : Scope) (path : String) :
    scope.wire (path ++ "/") = scope.wire path ++ "/" := by
  unfold wire
  split
  · rfl
  · exact Path.encode_append_slash path

theorem getLast?_wire (scope : Scope) (path : String) :
    (scope.wire path).toList.getLast? = some '/' ↔ path.toList.getLast? = some '/' := by
  unfold wire
  split
  · rfl
  · rw [Path.encode, String.toList_ofList]
    exact Path.getLast?_encodeChars _

end Scope

def turned (slash : Bool) (path : String) : String :=
  if slash then path ++ "/" else String.ofList (Call.trimSlashes path.toList)

section Turned

variable {path : String} {slash : Bool}

theorem turned_true (path : String) : turned true path = path ++ "/" := rfl

theorem turned_false (path : String) : turned false path = String.ofList (Call.trimSlashes path.toList) := rfl

theorem eq_ofList {s : List Char} (h : path.toList = s) : path = String.ofList s := by
  rw [← h, String.ofList_toList]

theorem turned_append_slash (h : path.toList.getLast? ≠ some '/') : turned false (path ++ "/") = path := by
  rw [turned_false, Path.toList_append_slash, Call.trimSlashes_append h, String.ofList_toList]

theorem mem_turned {c : Char} (h : c ∈ (turned slash path).toList) : c = '/' ∨ c ∈ path.toList := by
  cases slash with
  | true =>
    rw [turned_true, Path.toList_append_slash] at h
    exact (List.mem_append.mp h).symm.imp_left List.mem_singleton.mp
  | false =>
    rw [turned_false, String.toList_ofList] at h
    exact .inr (Call.mem_trimSlashes h)

theorem Scope.Keeps.turned {scope : Scope} (h : scope.Keeps path)
    (hlast : path.toList.getLast? = some '/' ↔ slash = false) (hne : turned slash path ≠ "") :
    scope.Keeps (turned slash path) := by
  obtain ⟨c, hc, rfl⟩ := h
  rw [Scope.getLast?_wire] at hlast
  cases slash with
  | true =>
    have hopen : c.toList.getLast? ≠ some '/' := fun h => by simp [h] at hlast
    refine ⟨c ++ "/", ?_, ?_⟩
    · rw [Path.toList_append_slash]
      exact hc.append_slash hopen
    · rw [turned_true, Scope.wire_append_slash]
  | false =>
    have hroot : c.toList ≠ ['/'] := by
      intro hroot
      refine hne ?_
      rw [eq_ofList hroot, turned_false, Scope.wire]
      split <;> rfl
    obtain ⟨base, hbase, hcanonical, hopen⟩ := hc.eq_append_slash (hlast.mpr rfl) hroot
    obtain rfl : c = String.ofList base ++ "/" := (eq_ofList hbase).trans String.ofList_append
    refine ⟨String.ofList base, by rwa [String.toList_ofList], ?_⟩
    rw [Scope.wire_append_slash, turned_append_slash]
    rwa [ne_eq, Scope.getLast?_wire, String.toList_ofList]

end Turned

/-- The path of the request as the routes of a router see it: as it was sent, or decoded. -/
def Request.pathFor (req : Request) (scope : Scope) : String := (View.of req).path scope.useEncodedPath

namespace Request

variable {req : Request}

theorem pathFor_withPath_wire (req : Request) (scope : Scope) (path : String) :
    (req.withPath (scope.wire path)).pathFor scope = path := by
  simp only [pathFor, View.path, View.of, withPath, Scope.wire]
  split
  · rfl
  · exact Path.decode_encode path

/-- The canonical form of the path of a request is put on the wire with characters of paths alone. -/
theorem Sound.wire_clean (h : req.Sound) (scope : Scope) :
    ∀ c ∈ (scope.wire (Path.clean (req.pathFor scope))).toList, Uri.isPathChar c = true := by
  intro c hc
  by_cases hencoded : scope.useEncodedPath = true
  · have hraw : req.pathFor scope = req.uri.path := by simp [pathFor, View.path, View.of, hencoded]
    rw [Scope.wire, if_pos hencoded, hraw, Path.clean, String.toList_ofList] at hc
    rcases Path.mem_cleanChars hc with rfl | hc
    · decide
    · exact h.path c hc
  · rw [Scope.wire, if_neg hencoded] at hc
    exact Path.isPathChar_encode hc

/-- The request for the path with a slash behind it. -/
def slashed (req : Request) : Request := req.withPath (req.uri.path ++ "/")

theorem turned_slashed (h : req.uri.path.toList.getLast? ≠ some '/') :
    turned false req.slashed.uri.path = req.uri.path := turned_append_slash h

theorem Sound.turned (h : req.Sound) (slash : Bool) :
    ∀ c ∈ (turned slash req.uri.path).toList, Uri.isPathChar c = true := by
  intro c hc
  rcases mem_turned hc with rfl | hc
  · decide
  · exact h.path c hc

theorem slashed_withPath (h : req.uri.path.toList.getLast? ≠ some '/') :
    req.slashed.withPath (turned false req.slashed.uri.path) = req := by
  rw [turned_slashed h]
  rfl

end Request

/-- The route sends requests whose path ends otherwise than its template to the path that ends like it. -/
def Route.Wants (r : Route H) (slash : Bool) : Prop :=
  r.scope.strictSlash = true ∧ ∃ t, r.path = some t ∧ t.kind = .path ∧ t.hasTrailingSlash = slash

namespace Router

variable {r : Router H} {req next : Request} {location : String} {w : Wraps H} {slash : Bool}

def follow (r : Router H) (req : Request) (w : Wraps H) : Option Request :=
  match (r.answer req w).1 with
  | .redirect location => (Uri.ofPath? location.toList).map req.redirected
  | _ => none

/-- Following a redirect of the router leads from one request to the other. -/
def Redirects (r : Router H) (req next : Request) : Prop := ∃ w, r.follow req w = some next

theorem redirects_iff :
    r.Redirects req next ↔ ∃ w location uri, (r.answer req w).1 = .redirect location ∧
      Uri.ofPath? location.toList = some uri ∧ next = req.redirected uri := by
  refine exists_congr fun w => ?_
  rw [follow]
  cases (r.answer req w).1 with
  | redirect location =>
    constructor
    · intro h
      obtain ⟨uri, huri, rfl⟩ := Option.map_eq_some_iff.mp h
      exact ⟨location, uri, rfl, huri, rfl⟩
    · rintro ⟨location, uri, hlocation, huri, rfl⟩
      cases hlocation
      exact Option.map_eq_some_iff.mpr ⟨uri, huri, rfl⟩
  | call | notFound | methodNotAllowed => simp

/-- The path of the request is clean, and the request comes to a route that wants a final slash, or none. -/
def Wants (r : Router H) (req : Request) (slash : Bool) : Prop :=
  cleanRedirect r.settings.scope req = none ∧
    ∃ route w, (r.dispatch req w).1.outcome = .ok route ∧ route.Wants slash

theorem answer_eq_redirect (h : (r.answer req w).1 = .redirect location) :
    cleanRedirect r.settings.scope req = some location ∨
      cleanRedirect r.settings.scope req = none ∧
        ∃ route, (r.dispatch req w).1.outcome = .ok route ∧ slashRedirect route req = some location := by
  rw [answer] at h
  cases hclean : cleanRedirect r.settings.scope req with
  | some location' =>
    rw [hclean] at h
    exact .inl (congrArg some (Answer.redirect.inj h))
  | none =>
    rw [hclean] at h
    refine .inr ⟨rfl, ?_⟩
    rcases hdispatch : r.dispatch req w with ⟨⟨route, handler, vars⟩ | ⟨_ | _, fallback⟩, w'⟩
    · cases hslash : slashRedirect route req with
      | some location' =>
        simp only [hdispatch, hslash] at h
        exact ⟨route, rfl, hslash.trans (congrArg some (Answer.redirect.inj h))⟩
      | none =>
        simp only [hdispatch, hslash] at h
        cases handler <;> cases h
    · simp only [hdispatch] at h
      cases fallback <;> cases h
    · simp only [hdispatch] at h
      cases fallback <;> cases h

theorem answer_of_clean (h : cleanRedirect r.settings.scope req = none) {route : Route H}
    (hroute : (r.dispatch req w).1.outcome = .ok route) (hslash : slashRedirect route req = some location) :
    (r.answer req w).1 = .redirect location := by
  rw [answer, h]
  rcases hdispatch : r.dispatch req w with ⟨⟨route', handler, vars⟩ | ⟨e, fallback⟩, w'⟩
  · rw [hdispatch] at hroute
    obtain rfl : route' = route := Except.ok.inj hroute
    simp only [hslash]
  · rw [hdispatch] at hroute
    cases hroute

theorem slashRedirect_eq_some {route : Route H} :
    slashRedirect route req = some location ↔
      ∃ slash, route.Wants slash ∧ (req.uri.path.toList.getLast? = some '/' ↔ slash = false) ∧
        turned slash req.uri.path ≠ "" ∧ location = withQuery (turned slash req.uri.path) req := by
  have hturned (slash : Bool) : (if slash then String.ofList (Call.trimSlashes req.uri.path.toList) else
      req.uri.path ++ "/") = turned (!slash) req.uri.path := by cases slash <;> rfl
  rw [slashRedirect]
  cases hpath : route.path with
  | none =>
    refine iff_of_false nofun ?_
    rintro ⟨slash, ⟨-, t, ht, -⟩, -⟩
    cases hpath.symm.trans ht
  | some t =>
    simp only [Option.bind_eq_bind, Option.bind_some, hturned]
    constructor
    · intro h
      split at h
      · cases h
      · rename_i hwants
        simp only [Bool.or_eq_true, not_or, Bool.not_eq_true, Bool.not_eq_false', bne_eq_false_iff_eq,
          beq_eq_false_iff_ne] at hwants
        obtain ⟨⟨hstrict, hkind⟩, hends⟩ := hwants
        have hslash : t.hasTrailingSlash = !(req.uri.path.toList.getLast? == some '/') :=
          Bool.eq_not.mpr hends
        split at h
        · cases h
        · rename_i hne
          refine ⟨_, ⟨hstrict, t, hpath, hkind, hslash⟩, by simp, ?_, (Option.some.inj h).symm⟩
          simpa using hne
    · rintro ⟨slash, ⟨hstrict, t', ht', hkind, hslash⟩, hlast, hne, rfl⟩
      obtain rfl : t = t' := Option.some.inj (hpath.symm.trans ht')
      have hends : (req.uri.path.toList.getLast? == some '/') = !slash := by
        cases slash <;> simpa using hlast
      rw [hends, hslash, Bool.not_not]
      cases slash <;> simp [hstrict, hkind, hne]

/-- The path of the request is not looked at for cleaning. -/
def CleaningExempt (scope : Scope) (req : Request) : Prop :=
  scope.skipClean = true ∨ req.uri.path.isEmpty = true ∨ req.uri.path = "*" ∨ req.method = .connect

instance (scope : Scope) (req : Request) : Decidable (CleaningExempt scope req) :=
  inferInstanceAs (Decidable (_ ∨ _))

theorem cleanRedirect_eq (scope : Scope) (req : Request) :
    cleanRedirect scope req =
      if CleaningExempt scope req then none
      else if Path.clean (req.pathFor scope) = req.pathFor scope then none
      else some (withQuery (scope.wire (Path.clean (req.pathFor scope))) req) := by
  rw [cleanRedirect]
  dsimp only
  refine if_congr Iff.rfl rfl ?_
  by_cases hencoded : scope.useEncodedPath = true
  · have hseen : req.pathFor scope = req.uri.path := if_pos hencoded
    rw [if_pos hencoded, hseen, Scope.wire, if_pos hencoded]
  · have hseen : req.pathFor scope = Path.decode req.uri.path := if_neg hencoded
    rw [if_neg hencoded, hseen, Scope.wire, if_neg hencoded]

theorem cleanRedirect_eq_some {scope : Scope} (hs : req.Sound) (h : cleanRedirect scope req = some location) :
    ∃ path, scope.Keeps path ∧ (∀ c ∈ path.toList, Uri.isPathChar c = true) ∧
      location = withQuery path req := by
  rw [cleanRedirect_eq] at h
  split at h
  · cases h
  · split at h
    · cases h
    · exact ⟨_, ⟨_, Path.canonical_clean _, rfl⟩, hs.wire_clean scope, (Option.some.inj h).symm⟩

theorem cleanRedirect_of_keeps {scope : Scope} (h : scope.Keeps req.uri.path) :
    cleanRedirect scope req = none := by
  obtain ⟨c, hc, hpath⟩ := h
  have hseen : req.pathFor scope = c := by
    rw [← req.pathFor_withPath_wire scope c, ← hpath]
    rfl
  rw [cleanRedirect_eq, hseen, if_pos (Path.clean_of_canonical hc), ite_self]

theorem Redirects.cases (h : r.Redirects req next) (hs : req.Sound) :
    (cleanRedirect r.settings.scope req ≠ none ∧ r.settings.scope.Keeps next.uri.path) ∨
      ∃ slash, r.Wants req slash ∧ (req.uri.path.toList.getLast? = some '/' ↔ slash = false) ∧
        turned slash req.uri.path ≠ "" ∧ next = req.withPath (turned slash req.uri.path) := by
  obtain ⟨w, location, uri, hanswer, huri, rfl⟩ := redirects_iff.mp h
  rcases answer_eq_redirect hanswer with hclean | ⟨hclean, route, hroute, hslash⟩
  · left
    obtain ⟨path, hkeeps, hchars, rfl⟩ := cleanRedirect_eq_some hs hclean
    obtain ⟨uri', huri', hnext⟩ := Request.redirected_withQuery hs hchars
    obtain rfl : uri = uri' := Option.some.inj (huri.symm.trans huri')
    rw [hnext, hclean]
    exact ⟨nofun, hkeeps⟩
  · right
    obtain ⟨slash, hwants, hends, hne, rfl⟩ := slashRedirect_eq_some.mp hslash
    obtain ⟨uri', huri', hnext⟩ := Request.redirected_withQuery hs (hs.turned slash)
    obtain rfl : uri = uri' := Option.some.inj (huri.symm.trans huri')
    exact ⟨slash, ⟨hclean, route, w, hroute, hwants⟩, hends, hne, hnext⟩

theorem Redirects.keeps (h : r.Redirects req next) (hs : req.Sound)
    (hkeeps : r.settings.scope.Keeps req.uri.path) : r.settings.scope.Keeps next.uri.path := by
  rcases h.cases hs with ⟨-, hnext⟩ | ⟨slash, -, hends, hne, rfl⟩
  · exact hnext
  · exact hkeeps.turned hends hne

variable {base : Request}

end Router

end RequestRouter
