import RequestRouter.Proofs.Router.Redirects
/-!
The redirect to a cleaned path is made once. A path is cleaned in the form in which routes see it, and the
location spells the canonical path in that form, so that the request for the location is looked at as clean. The
query is not touched.
-/
namespace RequestRouter

open RequestRouter.Http

namespace Router

variable {scope : Scope} {req : Request}

theorem not_exempt (hskip : scope.skipClean = false) (hmethod : req.method ≠ .connect)
    (hpath : req.uri.path.toList.head? = some '/') : ¬ CleaningExempt scope req := by
  have hempty : req.uri.path.isEmpty = false := by
    rw [Bool.eq_false_iff, ne_eq, String.isEmpty_iff]
    intro h
    simp [h] at hpath
  have hstar : req.uri.path ≠ "*" := by
    intro h
    simp [h] at hpath
  simp [CleaningExempt, hskip, hempty, hstar, hmethod]

/-- The redirect to a clean path is made at most once. Either the path that routes see is canonical and there is
none, or the location leads to a request for which there is none, whose path is seen as the canonical form of the
path before, and whose query is the same. -/
theorem cleanRedirect_converges (scope : Scope) (hskip : scope.skipClean = false) (req : Request)
    (hs : req.Sound) (hmethod : req.method ≠ .connect) (hpath : req.uri.path.toList.head? = some '/') :
    (cleanRedirect scope req = none ∧ Path.Canonical (req.pathFor scope).toList) ∨
      ∃ location uri, cleanRedirect scope req = some location ∧
        Uri.ofPath? location.toList = some uri ∧
        cleanRedirect scope (req.redirected uri) = none ∧
        (req.redirected uri).pathFor scope = Path.clean (req.pathFor scope) ∧
        (req.redirected uri).uri.query = req.uri.query := by
  have hcanonical := Path.canonical_clean (req.pathFor scope)
  have heq := cleanRedirect_eq scope req
  rw [if_neg (not_exempt hskip hmethod hpath)] at heq
  by_cases hclean : Path.clean (req.pathFor scope) = req.pathFor scope
  · rw [if_pos hclean] at heq
    rw [hclean] at hcanonical
    exact .inl ⟨heq, hcanonical⟩
  · rw [if_neg hclean] at heq
    obtain ⟨uri, huri, hnext⟩ := Request.redirected_withQuery hs (hs.wire_clean scope)
    refine .inr ⟨_, uri, heq, huri, ?_⟩
    rw [hnext]
    exact ⟨cleanRedirect_of_keeps ⟨_, hcanonical, rfl⟩, req.pathFor_withPath_wire scope _, rfl⟩

/-- The octets of the path are no text, so that it is seen as it was sent, with a percent sign to encode. -/
theorem cleanRedirect_converges_undecodable :
    ∃ req uri, Request.ofTexts? "GET" "/%FF//a/./b?x=%41" [] none = some req ∧
      Request.pathFor req .root = "/%FF//a/./b" ∧
      cleanRedirect .root req = some "/%25FF/a/b?x=%41" ∧
      Uri.ofPath? "/%25FF/a/b?x=%41".toList = some uri ∧
      cleanRedirect .root (req.redirected uri) = none ∧
      (req.redirected uri).pathFor .root = "/%FF/a/b" ∧ (req.redirected uri).uri.query = some "x=%41" := by
  let req : Request := .new .get ⟨none, none, "/%FF//a/./b", some "x=%41"⟩ [] none
  have hreq : Request.ofTexts? "GET" "/%FF//a/./b?x=%41" [] none = some req := by decide +kernel
  have hseen : req.pathFor .root = "/%FF//a/./b" ∧ Path.clean "/%FF//a/./b" = "/%FF/a/b" := by decide +kernel
  have hlocation : cleanRedirect .root req = some "/%25FF/a/b?x=%41" := by decide +kernel
  have hmethod : req.method ≠ .connect := by decide
  have hpath : req.uri.path.toList.head? = some '/' := by decide
  rcases cleanRedirect_converges .root rfl req (Request.sound_of_ofTexts? hreq) hmethod hpath with
    ⟨hnone, -⟩ | ⟨location, uri, hsome, huri, hagain, hpath, hquery⟩
  · exact absurd (hnone.symm.trans hlocation) nofun
  · obtain rfl := Option.some.inj (hlocation.symm.trans hsome)
    rw [hseen.1, hseen.2] at hpath
    exact ⟨req, uri, hreq, hseen.1, hlocation, huri, hagain, hpath, hquery⟩

end Router

end RequestRouter
