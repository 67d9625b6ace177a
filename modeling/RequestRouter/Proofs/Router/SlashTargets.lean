import RequestRouter.Proofs.Pattern.OptionalSlash
import RequestRouter.Proofs.Router.Loops
/-!
Where a route with an optional slash sends its requests. The path with the other kind of end gives the template of
the route the same values, so the request comes to the same variables there, unless the route sees a final slash that
the path does not have as it was sent: then it gets a second one, which no template takes.
-/
namespace RequestRouter

open RequestRouter.Http

variable {H : Type}

namespace Request

variable {req : Request} {scope : Scope}

theorem pathFor_slashed (req : Request) (scope : Scope) : req.slashed.pathFor scope = req.pathFor scope ++ "/" :=
  View.path_slashed req _

theorem exists_slashed (h : req.uri.path.toList.getLast? = some '/') : ∃ base : Request, req = base.slashed := by
  obtain ⟨front, hfront⟩ := List.getLast?_eq_some_iff.mp h
  refine ⟨req.withPath (String.ofList front), ?_⟩
  have hpath : req.uri.path = String.ofList front ++ "/" := by
    rw [← String.toList_inj, hfront, Path.toList_append_slash, String.toList_ofList]
  rw [slashed, withPath, withPath, ← hpath]

theorem getLast?_pathFor (h : req.uri.path.toList.getLast? = some '/') :
    (req.pathFor scope).toList.getLast? = some '/' := by
  obtain ⟨base, rfl⟩ := exists_slashed h
  rw [pathFor_slashed, Path.toList_append_slash, List.getLast?_concat]

/-- The path is seen with a final slash that it does not have as it was sent: the slash is encoded. -/
def HidesSlash (req : Request) (scope : Scope) : Prop :=
  (req.pathFor scope).toList.getLast? = some '/' ∧ req.uri.path.toList.getLast? ≠ some '/'

end Request

namespace Template

variable {t : Template}

/-- What a strict template takes apart with one more slash does not end in a slash itself. -/
theorem Built.getLast?_of_captures_slash {cut : Cut} (h : t.Built cut) (hk : t.kind = .path)
    (hself : ∀ span ∈ cut.spans, SelfContained (constraint? span.2)) (hfirm : cut.Firm t.kind) {s : String}
    (hcaptures : (t.captures (s ++ "/")).isSome = true) : s.toList.getLast? ≠ some '/' := by
  have hsearch := search_of_capturesWith hcaptures
  rw [Path.toList_append_slash] at hsearch
  exact Cut.Spans.getLast?_of_firm (.inl hk) hfirm (h.spans_of_search_slash hk hself hfirm hsearch)

/-- A strict template that does not end in two slashes, whose variables have no patterns of their own, takes a
path with a final slash apart like the path without it. So the place to which its route sends a request gives the
values that the request gave, unless the path of the request hides a final slash: a second slash does not match. -/
theorem captures_final_slash (h : t.IsCompiled) (hk : t.kind = .path) (hstrict : t.options.strictSlash = true)
    (hplain : t.PlainVars) (hend : ¬ "//".toList <:+ t.source.toList) :
    (∀ s : String, s.toList.getLast? ≠ some '/' → t.captures (s ++ "/") = t.captures s) ∧
    ∀ (route : Route H) (req : Request) (location : String) (vars : List (String × String)),
      route.path = some t → req.Sound → Router.slashRedirect route req = some location →
      t.captures (req.pathFor route.scope) = some vars →
      ∃ uri, Uri.ofPath? location.toList = some uri ∧
        (¬ req.HidesSlash route.scope → t.captures ((req.redirected uri).pathFor route.scope) = some vars) ∧
        (req.HidesSlash route.scope → t.captures ((req.redirected uri).pathFor route.scope) = none) := by
  obtain ⟨cut, hbuilt⟩ := h.built
  have hself : ∀ span ∈ cut.spans, SelfContained (constraint? span.2) :=
    fun span hspan => (hplain _ (hbuilt.mem_constraints hspan)).selfContained
  have hfirm := hbuilt.firm hk hstrict hplain hend
  have hsame : ∀ s : String, s.toList.getLast? ≠ some '/' → t.captures (s ++ "/") = t.captures s :=
    fun s => hbuilt.captures_slash hk hstrict hself hfirm
  refine ⟨hsame, fun route req location vars _ hsound hredirect hvars => ?_⟩
  obtain ⟨slash, -, hends, -, rfl⟩ := Router.slashRedirect_eq_some.mp hredirect
  obtain ⟨uri, huri, hnext⟩ := Request.redirected_withQuery hsound (hsound.turned slash)
  refine ⟨uri, huri, ?_⟩
  rw [hnext]
  cases slash with
  | true =>
    have hopen : req.uri.path.toList.getLast? ≠ some '/' := fun hlast => by simpa using hends.mp hlast
    have hslashed : (req.withPath (turned true req.uri.path)).pathFor route.scope =
        req.pathFor route.scope ++ "/" := Request.pathFor_slashed req route.scope
    rw [hslashed]
    refine ⟨fun hshows => ?_, fun hhides => ?_⟩
    · rw [hsame _ fun hlast => hshows ⟨hlast, hopen⟩]
      exact hvars
    · rw [← Option.not_isSome_iff_eq_none]
      exact fun hsome => hbuilt.getLast?_of_captures_slash hk hself hfirm hsome hhides.1
  | false =>
    obtain ⟨base, rfl⟩ := Request.exists_slashed (hends.mpr rfl)
    refine ⟨fun _ => ?_, fun hhides => absurd (hends.mpr rfl) hhides.2⟩
    rw [Request.pathFor_slashed] at hvars
    have hbare := hbuilt.getLast?_of_captures_slash hk hself hfirm (Option.isSome_of_eq_some hvars)
    have hopen : base.uri.path.toList.getLast? ≠ some '/' := fun hlast => hbare (Request.getLast?_pathFor hlast)
    rw [Request.slashed_withPath hopen, ← hsame _ hbare]
    exact hvars

/-- An encoded slash at the end of the path. The route sees the path with its final slash and adds another one. -/
theorem captures_final_slash_encoded :
    let route (t : Template) : Route Nat :=
      { Route.new { Scope.root with strictSlash := true } 0 with path := some t }
    let req : Request := .new .get ⟨none, none, "/a%2F", none⟩ [] none
    ∃ t, (compile "/a/" .path ⟨true, false⟩ .new).1 = .ok t ∧ t.PlainVars ∧ req.Sound ∧
      t.captures (req.pathFor (route t).scope) = some [] ∧
      Router.slashRedirect (route t) req = some "/a%2F/" ∧
      ∃ uri, Uri.ofPath? "/a%2F/".toList = some uri ∧
        t.captures ((req.redirected uri).pathFor (route t).scope) = none := by
  intro route req
  have hfacts : ((compile "/a/" .path ⟨true, false⟩ .new).1.toOption.map fun t =>
      (t.captures "/a/", t.captures "/a//", decide (t.PlainVars ∧
        Router.slashRedirect (route t) req = some "/a%2F/"))) = some (some [], none, true) := by decide +kernel
  obtain ⟨t, ht, hvalues⟩ := Option.map_eq_some_iff.mp hfacts
  simp only [Prod.mk.injEq, decide_eq_true_eq] at hvalues
  obtain ⟨hcaptures, hnone, hplain, hredirect⟩ := hvalues
  have hseen : req.pathFor (route t).scope = "/a/" ∧
      (req.redirected ⟨none, none, "/a%2F/", none⟩).pathFor (route t).scope = "/a//" := by
    have hdecoded : Path.decode "/a%2F" = "/a/" ∧ Path.decode "/a%2F/" = "/a//" := by decide +kernel
    exact hdecoded
  have hsound : req.Sound := ⟨List.all_eq_true.mp (by decide +kernel), nofun⟩
  exact ⟨t, congrArg Prod.fst (eq_ok_of_toOption ht), hplain, hsound, hseen.1 ▸ hcaptures, hredirect,
    _, by decide +kernel, hseen.2 ▸ hnone⟩

/-- Two variables side by side. The first one leaves the second one as little as it can, with and without the final
slash. -/
theorem captures_final_slash_adjacent :
    let route (t : Template) : Route Nat :=
      { Route.new { Scope.root with strictSlash := true } 0 with path := some t }
    let req : Request := .new .get ⟨none, none, "/ab-c", some "n=1"⟩ [] none
    ∃ t, t.source = "/{owner}{page:slug}/" ∧ t.captures "/ab-c" = some [("owner", "ab-"), ("page", "c")] ∧
      t.captures "/ab-c/" = some [("owner", "ab-"), ("page", "c")] ∧
      Router.slashRedirect (route t) req = some "/ab-c/?n=1" ∧
      ∃ uri, Uri.ofPath? "/ab-c/?n=1".toList = some uri ∧
        t.captures ((req.redirected uri).pathFor (route t).scope) = some [("owner", "ab-"), ("page", "c")] := by
  intro route req
  have hfacts : ((compile "/{owner}{page:slug}/" .path ⟨true, false⟩ .new).1.toOption.map fun t =>
      (t.captures "/ab-c", Router.slashRedirect (route t) req, decide t.PlainVars)) =
        some (some [("owner", "ab-"), ("page", "c")], some "/ab-c/?n=1", true) := by decide +kernel
  obtain ⟨t, ht, hvalues⟩ := Option.map_eq_some_iff.mp hfacts
  simp only [Prod.mk.injEq, decide_eq_true_eq] at hvalues
  obtain ⟨hcaptures, hredirect, hplain⟩ := hvalues
  have hcompile := eq_ok_of_toOption ht
  obtain ⟨hsource, hk, hoptions, -⟩ := compile_built PatternCache.faithful_new hcompile
  have hcompiled := isCompiled_of_compile PatternCache.faithful_new hcompile
  have hseen : req.pathFor (route t).scope = "/ab-c" := by
    have hdecoded : Path.decode "/ab-c" = "/ab-c" := by decide +kernel
    exact hdecoded
  have hsound : req.Sound := ⟨List.all_eq_true.mp (by decide +kernel), fun q hq => by
    obtain rfl := Option.some.inj hq
    exact List.all_eq_true.mp (by decide +kernel)⟩
  have hsame := captures_final_slash (H := Nat) hcompiled hk (by rw [hoptions]) hplain (by rw [hsource]; decide)
  have hslashed := hsame.1 "/ab-c" (by decide)
  obtain ⟨uri, huri, hshows, -⟩ := hsame.2 (route t) req _ _ rfl hsound hredirect (hseen ▸ hcaptures)
  refine ⟨t, hsource, hcaptures, hslashed.trans hcaptures, hredirect, uri, huri, hshows fun hhides => ?_⟩
  rw [Request.HidesSlash, hseen] at hhides
  exact hhides.2 hhides.1

end Template

end RequestRouter
