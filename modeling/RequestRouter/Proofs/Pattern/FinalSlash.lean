import RequestRouter.Proofs.Path.Clean
import RequestRouter.Proofs.Pattern.Language
import RequestRouter.Proofs.Pattern.Unique
import RequestRouter.Proofs.Regex.Shift
/-!
A slash at the end of a path. A template whose constraints put no conditions on their place matches the same
stretches of a path whether or not a slash comes behind it. A template of which no match can end in a slash
accepts a path with a final slash only if it accepts the path without it.
-/
namespace RequestRouter

open RequestRouter.Text RequestRouter.Regex RequestRouter.Regex.Expr

namespace Regex.Expr

def nullable : Pattern → Bool
  | empty | look _ | upTo _ _ _ => true
  | one _ => false
  | seq a b => nullable a && nullable b
  | alt a b => nullable a || nullable b
  | capture _ e | plus e _ => nullable e
  | times e n => n == 0 || nullable e

theorem Matches.nullable {e : Pattern} {b a : Option Char} {w : List Char} (h : Matches e b w a)
    (hw : w = []) : e.nullable = true := by
  induction h with
  | empty | look | upToStop | upToMore => rfl
  | one => cases hw
  | seq _ _ ihe ihf =>
    obtain ⟨hu, hv⟩ := List.append_eq_nil_iff.mp hw
    simp [Expr.nullable, ihe hu, ihf hv]
  | left _ ih => simp [Expr.nullable, ih hw]
  | right _ ih => simp [Expr.nullable, ih hw]
  | capture _ ih => exact ih hw
  | timesZero => rfl
  | timesSucc _ _ ihe _ => simp [Expr.nullable, ihe (List.append_eq_nil_iff.mp hw).1]
  | plusOnce _ ih => exact ih hw
  | plusMore _ _ ihe _ => exact ihe (List.append_eq_nil_iff.mp hw).1

/-- What the expression accepts is not empty and has no slash. -/
def firm (e : Pattern) : Bool := !e.nullable && e.avoids '/'

theorem Spans.firm {e : Pattern} {text : List Char} {i j : Nat} (h : e.Spans text i j) (he : e.firm = true) :
    i < j ∧ text[j - 1]? ≠ some '/' := by
  rw [Expr.firm, Bool.and_eq_true, Bool.not_eq_true'] at he
  have hlt : i < j := by
    refine Nat.lt_of_le_of_ne h.le fun heq => ?_
    have hnull := h.accepts.nullable (by rw [heq, stretch_self])
    rw [he.1] at hnull
    cases hnull
  refine ⟨hlt, fun hslash => h.accepts.not_mem he.2 ?_⟩
  have hget : (stretch text i j)[j - 1 - i]? = text[j - 1]? := by
    rw [stretch, List.getElem?_drop, List.getElem?_take_of_lt (by omega)]
    congr 1
    omega
  exact List.mem_of_getElem? (hget.trans hslash)

end Regex.Expr

section More

variable {text more w : List Char} {e : Pattern} {i j : Nat}

theorem stands_more (hj : j ≤ text.length) : Stands (text ++ more) w i j ↔ Stands text w i j := by
  refine and_congr_left fun hj' => ?_
  have hi : i ≤ text.length := by omega
  rw [List.drop_append_of_le_length hi]
  constructor
  · intro h
    refine List.prefix_of_prefix_length_le h (List.prefix_append _ _) ?_
    rw [List.length_drop]
    omega
  · exact fun h => h.trans (List.prefix_append _ _)

end More

namespace Cut

variable {kind : TemplateKind} {text more tail : List Char} {spans : List (List Char × List Char)} {i j : Nat}

theorem literalText_eq (hk : kind = .path ∨ kind = .leading) (s : List Char) :
    Template.literalText kind s = s := by
  rcases hk with rfl | rfl <;> rfl

theorem SpansFrom.le (h : SpansFrom kind text tail spans i j) : i ≤ j := by
  induction spans generalizing i with
  | nil => exact h.2 ▸ Nat.le_add_right _ _
  | cons s spans ih =>
    obtain ⟨k, m, e, ⟨-, rfl⟩, -, hspan, hrest⟩ := h
    have hle := ih hrest
    have hspan := hspan.le
    omega

theorem spansFrom_more (hself : ∀ s ∈ spans, SelfContained (constraint? s.2)) (hj : j ≤ text.length) :
    SpansFrom kind (text ++ more) tail spans i j ↔ SpansFrom kind text tail spans i j := by
  induction spans generalizing i with
  | nil => exact stands_more hj
  | cons s spans ih =>
    have hrest := fun m => ih (i := m) fun s hs => hself s (List.mem_cons_of_mem _ hs)
    obtain ⟨e', he', hl⟩ := constraint_reads kind (hself s List.mem_cons_self)
    simp only [SpansFrom, hrest]
    refine exists_congr fun k => exists_congr fun m => exists_congr fun e => ?_
    constructor
    · rintro ⟨hbefore, he, hspan, hfrom⟩
      obtain rfl := Option.some_inj.mp (he.symm.trans he')
      have hm : m ≤ text.length := Nat.le_trans hfrom.le hj
      exact ⟨(stands_more (Nat.le_trans hspan.le hm)).mp hbefore, he, (spans_more hl hm).mp hspan, hfrom⟩
    · rintro ⟨hbefore, he, hspan, hfrom⟩
      obtain rfl := Option.some_inj.mp (he.symm.trans he')
      exact ⟨(stands_more hspan.le_length).mpr hbefore, he, (spans_more hl hspan.inside).mpr hspan, hfrom⟩

/-- A match ends in a literal text without a final slash, or in a variable whose values are not empty and have
no slash, or it is empty. -/
def Firm (kind : TemplateKind) (cut : Cut) : Prop :=
  cut.tail.getLast? ≠ some '/' ∧ (cut.tail = [] → ∀ span ∈ cut.spans.getLast?,
    ∀ e ∈ read? (constraintPattern kind (constraint? span.2)).toList, e.firm = true)

instance (kind : TemplateKind) (cut : Cut) : Decidable (cut.Firm kind) :=
  inferInstanceAs (Decidable (_ ∧ (_ → _)))

theorem SpansFrom.firm (hk : kind = .path ∨ kind = .leading) (hfirm : (⟨spans, tail⟩ : Cut).Firm kind)
    (h : SpansFrom kind text tail spans i j) :
    (spans = [] ∧ tail = []) ∨ i < j ∧ text[j - 1]? ≠ some '/' := by
  obtain ⟨hlast, hvar⟩ := hfirm
  induction spans generalizing i with
  | nil =>
    obtain ⟨⟨rest, hrest⟩, rfl⟩ := h
    rw [literalText_eq hk] at hrest ⊢
    by_cases htail : tail = []
    · exact .inl ⟨rfl, htail⟩
    · have hlen := List.length_pos_of_ne_nil htail
      refine .inr ⟨by omega, ?_⟩
      have hget : text[i + tail.length - 1]? = tail.getLast? := by
        rw [show i + tail.length - 1 = i + (tail.length - 1) by omega, ← List.getElem?_drop, ← hrest,
          List.getElem?_append_left (by omega), List.getLast?_eq_getElem?]
      rwa [hget]
  | cons s spans ih =>
    obtain ⟨k, m, e, ⟨-, rfl⟩, he, hspan, hfrom⟩ := h
    have hle := hspan.le
    have hvar' : tail = [] → ∀ span ∈ spans.getLast?,
        ∀ e ∈ read? (constraintPattern kind (constraint? span.2)).toList, e.firm = true := by
      intro htail span hmem
      refine hvar htail span ?_
      rw [List.getLast?_cons, Option.mem_def.mp hmem]
      rfl
    right
    rcases ih hfrom hlast hvar' with ⟨rfl, rfl⟩ | ⟨hlt, hslash⟩
    · have hend : j = m := by
        rw [hfrom.2, literalText_eq hk, List.length_nil, Nat.add_zero]
      obtain ⟨hlt, hslash⟩ := hspan.firm (hvar rfl s rfl e he)
      rw [hend]
      exact ⟨by omega, hslash⟩
    · exact ⟨by omega, hslash⟩

/-- A match of a path with a final slash does not read that slash. -/
theorem Spans.le_of_firm {cut : Cut} (hk : kind = .path ∨ kind = .leading) (hfirm : cut.Firm kind)
    (h : cut.Spans kind (text ++ ['/']) 0 j) : j ≤ text.length := by
  rcases SpansFrom.firm hk hfirm h with ⟨hspans, htail⟩ | ⟨-, hlast⟩
  · rw [Spans, hspans, htail] at h
    rw [h.2, literalText_eq hk]
    exact Nat.zero_le _
  · have hle := SpansFrom.le_length h (Nat.zero_le _)
    rw [List.length_append] at hle
    refine Nat.le_of_lt_succ (Nat.lt_of_le_of_ne hle ?_)
    rintro rfl
    exact hlast (by simp)

/-- A path that is matched as a whole does not end in a slash. -/
theorem Spans.getLast?_of_firm {cut : Cut} (hk : kind = .path ∨ kind = .leading) (hfirm : cut.Firm kind)
    (h : cut.Spans kind text 0 text.length) : text.getLast? ≠ some '/' := by
  rcases SpansFrom.firm hk hfirm h with ⟨hspans, htail⟩ | ⟨-, hlast⟩
  · rw [Spans, hspans, htail] at h
    have hnil : text.length = 0 := by rw [h.2, literalText_eq hk, List.length_nil]
    simp [List.length_eq_zero_iff.mp hnil]
  · rwa [List.getLast?_eq_getElem?]

end Cut

namespace Template

variable {t : Template} {text : String}

/-- A compiled template of which a match depends only on the text that it matches: the constraints put no
conditions on their place, and no value has to keep a rule beside the pattern of its variable. -/
structure Local (t : Template) : Prop where
  compiled : t.IsCompiled
  constraints : ∀ c ∈ constraints t.kind t.source, SelfContained c ∧ c ≠ some "domain"

def Firm (t : Template) : Prop := ∀ cut ∈ Cut.ofChars? t.source.toList, cut.Firm t.kind

instance (t : Template) : Decidable t.Firm :=
  inferInstanceAs (Decidable (∀ cut ∈ Cut.ofChars? t.source.toList, _))

/-- If no match ends in a slash, a path with a final slash is found only as the path without it and the optional
slash. -/
theorem Built.spans_of_search_slash {cut : Cut} (h : t.Built cut) (hk : t.kind = .path)
    (hself : ∀ s ∈ cut.spans, SelfContained (constraint? s.2)) (hfirm : cut.Firm t.kind) {text : List Char}
    (hsearch : (t.regex.expr.search (text ++ ['/'])).isSome = true) : cut.Spans t.kind text 0 text.length := by
  obtain ⟨k, hspans, hends⟩ := (h.search_isSome (by simp [hk]) fun s hs => (hself s hs).onItsOwn).mp hsearch
  have hle := Cut.Spans.le_of_firm (.inl hk) hfirm hspans
  have hwhole : k = text.length := by
    rw [List.drop_append_of_le_length hle] at hends
    rcases hends with hlead | hnil | ⟨-, hslash⟩
    · simp [hk] at hlead
    · simp at hnil
    · have hrest : text.drop k = [] := by simpa using hslash
      rw [List.drop_eq_nil_iff] at hrest
      omega
  subst hwhole
  exact (Cut.spansFrom_more hself (Nat.le_refl _)).mp hspans

end Template

end RequestRouter
