import RequestRouter.Proofs.Pattern.FinalSlash
import RequestRouter.Proofs.Pattern.Grammar
import RequestRouter.Proofs.Regex.Ending
/-!
A path template with its final slash made optional. Its pattern is the pattern of the template with the slash or of the
one without it, whatever its constraints are, so it takes a path apart like one of these two. Where only the template
as it is written matches, the values stay what they are when the slash is made optional.
-/
namespace RequestRouter

open RequestRouter.Text RequestRouter.Regex RequestRouter.Regex.Expr

section Opens

variable {kind : TemplateKind} {spans : List (List Char × List Char)} {slots : List Slot}

end Opens

namespace Template

section Unique

variable {source source' : String} {kind : TemplateKind} {used : List String} {cache cache' : PatternCache}

end Unique

section Front

variable {t u : Template} {cut : Cut}

def front (slots : List Slot) (tail : List Char) : List Char :=
  '^' :: (slots.flatMap Slot.regexText ++ Regex.literal tail)

theorem body_of_path (hk : t.kind = .path) : t.body = t.source.toList := by rw [body, splitKey, hk]; rfl

theorem Built.plain (h : t.Built cut) (hk : t.kind = .path) (hstrict : t.options.strictSlash = false) :
    Cut.ofChars? t.source.toList = some cut ∧
      Regex.compile? (String.ofList (front t.slots cut.tail ++ ['$'])) = some t.regex := by
  have hplain : ¬ t.Strict := fun h => Bool.noConfusion (hstrict.symm.trans h.1)
  have hcore : t.core = t.source.toList := by rw [core, if_neg fun hdrops => hplain hdrops.1, body_of_path hk]
  have hregex := h.regex
  have hpattern : '^' :: t.pattern cut.tail = front t.slots cut.tail ++ ['$'] := by
    rw [pattern, h.presenceOnly_eq_false (by simp [hk]), regexBody, decide_eq_false hplain, hk]
    simp [front, literalText]
  rw [hpattern] at hregex
  exact ⟨hcore ▸ h.ofChars, hregex⟩

section Plain

variable (ht : t.IsCompiled) (hbuilt : t.Built cut) (hk : t.kind = .path)

include ht hbuilt hk

end Plain

end Front

section Either

variable {t : Template}

/-- The template has an optional slash where one of the others has a slash and the other one has none. -/
structure EitherEnd (t p o : Template) : Prop where
  left : p.slots = t.slots
  right : o.slots = t.slots
  ends : SlashEnds p.regex.expr o.regex.expr t.regex.expr ∨ SlashEnds o.regex.expr p.regex.expr t.regex.expr

namespace EitherEnd

variable {p o : Template} {s : String} {vars : List (String × String)}

theorem isMatch_iff (h : t.EitherEnd p o) :
    t.regex.isMatch s = true ↔ p.regex.isMatch s = true ∨ o.regex.isMatch s = true := by
  rcases h.ends with hends | hends
  · simp only [Regex.isMatch_iff, hends.spans, exists_or]
  · simp only [Regex.isMatch_iff, hends.spans, exists_or]
    exact or_comm

theorem captures_eq (h : t.EitherEnd p o) (hmatch : t.regex.isMatch s = true) :
    ∃ u ∈ [p, o], u.regex.isMatch s = true ∧ t.captures s = u.captures s := by
  obtain ⟨found, hfound⟩ :=
    Option.isSome_iff_exists.mp ((search_isSome_iff _ _).mpr ((Regex.isMatch_iff _ _).mp hmatch))
  have hvalues {u : Template} {found' : Found} (hslots : u.slots = t.slots)
      (hfound' : u.regex.expr.search s.toList = some found') (hsame : found'.captures = found.captures) :
      u.regex.isMatch s = true ∧ t.captures s = u.captures s := by
    refine ⟨(Regex.isMatch_iff _ _).mpr ((search_isSome_iff _ _).mp (Option.isSome_of_eq_some hfound')), ?_⟩
    rw [captures, captures, capturesWith, capturesWith, Regex.search, Regex.search, hfound, hfound', hslots]
    refine values_congr fun slot _ => ?_
    rw [Found.group?, Found.group?, hsame]
  have hsearch : ∃ found', (p.regex.expr.search s.toList = some found' ∨ o.regex.expr.search s.toList = some found') ∧
      found'.captures = found.captures := by
    rcases h.ends with hends | hends
    · exact hends.search hfound
    · exact (hends.search hfound).imp fun _ => And.imp_left Or.symm
  obtain ⟨found', hfound' | hfound', hsame⟩ := hsearch
  · exact ⟨p, by simp, hvalues h.left hfound' hsame⟩
  · exact ⟨o, by simp, hvalues h.right hfound' hsame⟩

end EitherEnd

end Either

section Ends

variable {t p u : Template} {cut : Cut} {s : String}

end Ends

end Template

end RequestRouter
