import Mathlib.Algebra.Ring.Nat
import RequestRouter.Proofs.Regex.Shift
import RequestRouter.Proofs.Regex.Spelling
/-!
Patterns that differ only in how they end. What stands in front is read the same, whatever its groups and its
alternatives are, so a search of the pattern that ends with an optional slash goes the way that a search of the pattern
with this slash goes, or the way of the pattern without it.
-/
namespace RequestRouter.Regex

open RequestRouter.Regex.Expr

def choices (before : List Pattern) (last : Pattern) : Pattern := before.foldr .alt last

section Alternatives

variable {text : List Char} {before es fs gs : List Pattern} {e f : Pattern} {i j : Nat} {goal : Marks} {p : Progress}

theorem choice_concat (e f : Pattern) (es : List Pattern) : choice e (es ++ [f]) = choices (e :: es) f := by
  induction es generalizing e with
  | nil => rfl
  | cons x es ih => exact congrArg (alt e) (ih x)

theorem joinAlternatives_expr (ps : List Part) (last : Part) :
    (joinAlternatives ps last).expr = choices (ps.reverse.map (·.expr)) last.expr := by
  unfold joinAlternatives
  split <;> rename_i hps <;> rw [hps]
  · rfl
  · exact choice_concat ..

theorem spans_choices :
    (choices before e).Spans text i j ↔ (∃ a ∈ before, a.Spans text i j) ∨ e.Spans text i j := by
  induction before with
  | nil => simp [choices]
  | cons a before ih =>
    have hcons : choices (a :: before) e = alt a (choices before e) := rfl
    simp only [hcons, spans_alt, ih, List.mem_cons, exists_eq_or_imp, or_assoc]

/-- The last alternative is followed only where no other one leads to a goal. -/
theorem captures_choices
    (h : (∀ a ∈ before, ¬ ((a.plan text).starts goal).testBit p.place = true) →
      ((e.plan text).follow goal p).captures = ((f.plan text).follow goal p).captures) :
    (((choices before e).plan text).follow goal p).captures =
      (((choices before f).plan text).follow goal p).captures := by
  induction before with
  | nil => exact h nofun
  | cons a before ih =>
    have hcons (e : Pattern) : choices (a :: before) e = alt a (choices before e) := rfl
    rw [hcons, hcons, follow_alt, follow_alt]
    split
    · rfl
    · rename_i ha
      exact ih fun hbefore => h (List.forall_mem_cons.mpr ⟨ha, hbefore⟩)

/-- Parts at the end that have no groups only say where the parts before them may end. -/
theorem captures_concat_append (hfs : (concat fs).groups = []) (hg : Within text.length goal)
    (hp : (((concat (es ++ fs)).plan text).starts goal).testBit p.place = true) :
    (((concat (es ++ fs)).plan text).follow goal p).captures =
      (((concat es).plan text).follow (((concat fs).plan text).starts goal) p).captures := by
  rw [starts_concat_append] at hp
  obtain ⟨hmid, -⟩ := follow_plan text (concat es) _ ((starts_plan text (concat fs)).within hg) p hp
  have hend := (follow_plan text (concat fs) _ hg _ hmid).2.captures
  rw [hfs] at hend
  rw [follow_concat_append]
  exact hend.captures_eq

section Fewer

variable (hsub : ∀ i j, (concat gs).Spans text i j → (concat fs).Spans text i j)
  (hp : (((concat (es ++ fs)).plan text).starts (everywhere text)).testBit p.place = true)
  (hends : ((concat gs).beginnings text).testBit
    (((concat es).plan text).follow ((concat fs).beginnings text) p).place = true)

include hp hends

theorem starts_of_ends : (((concat (es ++ gs)).plan text).starts (everywhere text)).testBit p.place = true := by
  have hw := (starts_plan text (concat fs)).within (within_everywhere text)
  rw [starts_concat_append] at hp
  obtain ⟨-, hpass⟩ := follow_plan text (concat es) _ hw p hp
  obtain ⟨j, hj⟩ := (testBit_beginnings _ text _).mp hends
  exact (testBit_beginnings _ text _).mpr ⟨j, spans_concat_append.mpr ⟨_, hpass.spans, hj⟩⟩

include hsub

theorem captures_of_ends (hfs : (concat fs).groups = []) (hgs : (concat gs).groups = []) :
    (((concat (es ++ gs)).plan text).follow (everywhere text) p).captures =
      (((concat (es ++ fs)).plan text).follow (everywhere text) p).captures := by
  have hw := within_everywhere text
  have hsubgoals : ∀ j, ((concat gs).beginnings text).testBit j = true →
      ((concat fs).beginnings text).testBit j = true := by
    intro j hj
    obtain ⟨k, hk⟩ := (testBit_beginnings _ text _).mp hj
    exact (testBit_beginnings _ text _).mpr ⟨k, hsub _ _ hk⟩
  rw [captures_concat_append hfs hw hp, captures_concat_append hgs hw (starts_of_ends hp hends)]
  rw [starts_concat_append] at hp
  exact congrArg Progress.captures
    (follow_of_subgoals ((starts_plan text (concat fs)).within hw) hsubgoals hp hends).symm

end Fewer

theorem beginnings_last {found : Found} (hfound : (choices before e).search text = some found)
    (hbefore : ∀ a ∈ before, ¬ (a.beginnings text).testBit found.start = true) :
    (e.beginnings text).testBit found.start = true := by
  obtain ⟨-, hstart, -⟩ := search_eq_some hfound
  rw [testBit_beginnings] at hstart ⊢
  obtain ⟨j, hj⟩ := hstart
  refine ⟨j, (spans_choices.mp hj).resolve_left ?_⟩
  rintro ⟨a, ha, hj⟩
  exact hbefore a ha ((testBit_beginnings a text _).mpr ⟨j, hj⟩)

/-- If the parts at the end are replaced by others that match at fewer places, a search that ends where they match, or
that takes an earlier alternative, captures the same. -/
theorem search_of_ending (hfs : (concat fs).groups = []) (hgs : (concat gs).groups = [])
    (hsub : ∀ i j, (concat gs).Spans text i j → (concat fs).Spans text i j) {found : Found}
    (hfound : (choices before (concat (es ++ fs))).search text = some found)
    (hends : (∀ a ∈ before, ¬ (a.beginnings text).testBit found.start = true) → ((concat gs).beginnings text).testBit
      (((concat es).plan text).follow ((concat fs).beginnings text) ⟨found.start, []⟩).place = true) :
    ∃ found', (choices before (concat (es ++ gs))).search text = some found' ∧
      found'.captures = found.captures := by
  obtain ⟨hfollow, -, hfirst⟩ := search_eq_some hfound
  have hlast := beginnings_last hfound
  have hmark : ∃ j, (choices before (concat (es ++ gs))).Spans text found.start j := by
    by_cases hbefore : ∃ a ∈ before, (a.beginnings text).testBit found.start = true
    · obtain ⟨a, ha, hbit⟩ := hbefore
      obtain ⟨j, hj⟩ := (testBit_beginnings a text _).mp hbit
      exact ⟨j, spans_choices.mpr (.inl ⟨a, ha, hj⟩)⟩
    · have hnone : ∀ a ∈ before, ¬ (a.beginnings text).testBit found.start = true :=
        fun a ha hbit => hbefore ⟨a, ha, hbit⟩
      have hmark := starts_of_ends (p := ⟨found.start, []⟩) (hlast hnone) (hends hnone)
      obtain ⟨j, hj⟩ := (testBit_beginnings _ text _).mp hmark
      exact ⟨j, spans_choices.mpr (.inr hj)⟩
  obtain ⟨j, hj⟩ := hmark
  obtain ⟨found', hfound'⟩ := Option.isSome_iff_exists.mp ((search_isSome_iff _ text).mpr ⟨_, _, hj⟩)
  obtain ⟨hfollow', hstart', hfirst'⟩ := search_eq_some hfound'
  have hplace : found'.start = found.start := by
    refine Nat.le_antisymm (hfirst' _ _ hj) ?_
    obtain ⟨k, hk⟩ := (testBit_beginnings _ text _).mp hstart'
    refine hfirst _ k (spans_choices.mpr ((spans_choices.mp hk).imp_right fun hk => ?_))
    obtain ⟨m, hes, hm⟩ := spans_concat_append.mp hk
    exact spans_concat_append.mpr ⟨m, hes, hsub _ _ hm⟩
  have hsame := captures_choices (p := ⟨found.start, []⟩) fun hbefore =>
    captures_of_ends hsub (hlast hbefore) (hends hbefore) hfs hgs
  rw [hplace] at hfollow'
  rw [hfollow, hfollow'] at hsame
  exact ⟨found', hfound', hsame⟩

end Alternatives

section Ends

def endPart (fl : Flags) : Part := Atom.dollar.part fl

def slashPart (fl : Flags) : Part := (Atom.char '/').part fl

def optionalPart (fl : Flags) : Part :=
  let slash := (Atom.cls (.bracket false (.union .nothing (.range '/' '/')))).part fl
  ⟨copies slash.expr 0 (some 1) (true != fl.swapGreed), slash.depth + 1⟩

/-- Patterns that are the same up to their end: the first one ends without a slash, the second one with it, and the
third one with it or without it. -/
inductive SlashEnds : Pattern → Pattern → Pattern → Prop
  | intro (before es : List Pattern) (fl : Flags) : SlashEnds
    (choices before (concat (es ++ [(endPart fl).expr])))
    (choices before (concat (es ++ [(slashPart fl).expr, (endPart fl).expr])))
    (choices before (concat (es ++ [(optionalPart fl).expr, (endPart fl).expr])))

variable {text : List Char} {fl : Flags} {bare slashed either : Pattern} {i j : Nat}

theorem spans_optionalPart : (optionalPart fl).expr.Spans text i j ↔
    i = j ∧ j ≤ text.length ∨ (slashPart fl).expr.Spans text i j := by
  have hmem : (CharSet.union .none (.range '/' '/')).mem = (CharSet.single '/').mem := by
    funext c
    simp [CharSet.mem, CharSet.single]
  have hfold : ((CharSet.union .none (.range '/' '/')).foldIf fl.ignoreCase).mem =
      ((CharSet.single '/').foldIf fl.ignoreCase).mem := by
    funext c
    unfold CharSet.foldIf
    split
    · rw [CharSet.mem, CharSet.mem, hmem]
    · rw [hmem]
  have hslash : (one ((CharSet.union .none (.range '/' '/')).foldIf fl.ignoreCase) : Pattern).Spans text i j ↔
      (slashPart fl).expr.Spans text i j := by
    rw [spans_one, hfold]
    exact spans_one.symm
  rw [← hslash]
  exact spans_optional

theorem spans_optional_end : (concat [(optionalPart fl).expr, (endPart fl).expr]).Spans text i j ↔
    (concat [(endPart fl).expr]).Spans text i j ∨
      (concat [(slashPart fl).expr, (endPart fl).expr]).Spans text i j := by
  have hcons (e : Pattern) : (concat [e, (endPart fl).expr]).Spans text i j ↔
      ∃ k, e.Spans text i k ∧ (concat [(endPart fl).expr]).Spans text k j := spans_concat_cons
  simp only [hcons, spans_optionalPart]
  constructor
  · rintro ⟨k, ⟨rfl, -⟩ | hslash, hend⟩
    · exact .inl hend
    · exact .inr ⟨k, hslash, hend⟩
  · rintro (hend | ⟨k, hslash, hend⟩)
    · exact ⟨i, .inl ⟨rfl, hend.le_length⟩, hend⟩
    · exact ⟨k, .inr hslash, hend⟩

theorem SlashEnds.spans (h : SlashEnds bare slashed either) :
    either.Spans text i j ↔ bare.Spans text i j ∨ slashed.Spans text i j := by
  obtain ⟨before, es, fl⟩ := h
  simp only [spans_choices, spans_concat_append, spans_optional_end]
  constructor
  · rintro (hbefore | ⟨k, hes, hend | hend⟩)
    · exact .inl (.inl hbefore)
    · exact .inl (.inr ⟨k, hes, hend⟩)
    · exact .inr (.inr ⟨k, hes, hend⟩)
  · rintro ((hbefore | ⟨k, hes, hend⟩) | (hbefore | ⟨k, hes, hend⟩))
    · exact .inl hbefore
    · exact .inr ⟨k, hes, .inl hend⟩
    · exact .inl hbefore
    · exact .inr ⟨k, hes, .inr hend⟩

/-- A search of the pattern with the optional slash captures what a search of one of the others captures. -/
theorem SlashEnds.search (h : SlashEnds bare slashed either) {found : Found}
    (hfound : either.search text = some found) :
    ∃ found', (bare.search text = some found' ∨ slashed.search text = some found') ∧
      found'.captures = found.captures := by
  obtain ⟨before, es, fl⟩ := h
  have hgroups : (concat [(optionalPart fl).expr, (endPart fl).expr]).groups = [] := rfl
  by_cases hends : ((concat [(endPart fl).expr]).beginnings text).testBit (((concat es).plan text).follow
      ((concat [(optionalPart fl).expr, (endPart fl).expr]).beginnings text) ⟨found.start, []⟩).place = true
  · obtain ⟨found', hfound', hsame⟩ := search_of_ending hgroups rfl
      (fun i j h => spans_optional_end.mpr (.inl h)) hfound fun _ => hends
    exact ⟨found', .inl hfound', hsame⟩
  · have hslash (hbefore : ∀ a ∈ before, ¬ (a.beginnings text).testBit found.start = true) :
        ((concat [(slashPart fl).expr, (endPart fl).expr]).beginnings text).testBit (((concat es).plan text).follow
          ((concat [(optionalPart fl).expr, (endPart fl).expr]).beginnings text) ⟨found.start, []⟩).place = true := by
      have hmark := beginnings_last hfound hbefore
      rw [beginnings, starts_concat_append] at hmark
      obtain ⟨hgoal, -⟩ := follow_plan text (concat es) _
        ((starts_plan text _).within (within_everywhere text)) ⟨found.start, []⟩ hmark
      obtain ⟨j, hj⟩ := (testBit_beginnings _ text _).mp hgoal
      refine (testBit_beginnings _ text _).mpr ⟨j, (spans_optional_end.mp hj).resolve_left fun hend => hends ?_⟩
      exact (testBit_beginnings _ text _).mpr ⟨j, hend⟩
    obtain ⟨found', hfound', hsame⟩ := search_of_ending hgroups rfl
      (fun i j h => spans_optional_end.mpr (.inr h)) hfound hslash
    exact ⟨found', .inr hfound', hsame⟩

end Ends

section Depth

variable {ps qs front : List Part} {last last' : Part}

theorem deepest_append (ps qs : List Part) : deepest (ps ++ qs) = max (deepest ps) (deepest qs) := by
  induction ps with
  | nil => simp [deepest]
  | cons p ps ih =>
    have hcons (qs : List Part) : deepest (p :: qs) = max p.depth (deepest qs) := rfl
    rw [List.cons_append, hcons, hcons, ih, Nat.max_assoc]

def Reading.more (r : Reading) (ps : List Part) : Reading := { r with items := (ps.map some).reverse ++ r.items }

variable {r : Reading}

theorem Reading.items_more (r : Reading) (ps : List Part) :
    ((r.more ps).items.filterMap id).reverse = (r.items.filterMap id).reverse ++ ps := by
  simp [Reading.more, List.filterMap_append, ← List.map_reverse]

theorem Reading.more_append (r : Reading) (ps qs : List Part) : (r.more ps).more qs = r.more (ps ++ qs) := by
  simp [Reading.more]

theorem Reading.run_atoms (r : Reading) (as : List Atom) :
    r.run (as.map .atom) = some (r.more (as.map (·.part r.flags))) := by
  induction as generalizing r with
  | nil => rfl
  | cons a as ih => exact (ih (r.more [a.part r.flags])).trans (congrArg some (r.more_append [_] _))

theorem Reading.inner_more (r : Reading) (ps : List Part) :
    (r.more ps).inner.expr = choices (r.alternatives.reverse.map (·.expr))
      (concat ((r.items.filterMap id).reverse.map (·.expr) ++ ps.map (·.expr))) := by
  rw [Reading.inner, joinAlternatives_expr, Items.part]
  simp only [Reading.items_more, List.map_append]
  rfl

end Depth

section Weight

variable {before es fs gs : List Pattern} {e f : Pattern}

theorem concat_weight_le_sum (es : List Pattern) : (concat es).weight ≤ 32 + (es.map (·.weight)).sum := by
  induction es with
  | nil => exact Nat.le_refl _
  | cons e es ih =>
    cases es with
    | nil => simp [concat]
    | cons f es =>
      rw [List.map_cons, List.sum_cons]
      show e.weight + (concat (f :: es)).weight ≤ _
      omega

end Weight

section Reading

variable {s : List Char} {ts : List Token} {r : Reading} {x : RequestRouter.Regex}

theorem Reading.finish?_more (r : Reading) (ps : List Part) :
    (r.more ps).finish? = if r.outside.isEmpty ∧ (r.more ps).inner.depth ≤ maxDepth
      then some (r.more ps).inner.expr else none := rfl

theorem Opens.read? (h : Opens s ts) (hr : Reading.initial.run ts = some r) {t : List Char} {us : List Token}
    (ht : t.head? ≠ some '?') (hus : Tokenizes t us) : read? (s ++ t) = (r.run us).bind Reading.finish? := by
  have hrun : Reading.initial.run (ts ++ us) = r.run us := by
    rw [Reading.run, List.foldlM_append, ← Reading.run, hr]
    rfl
  rw [Regex.read?, (h t us ht hus).tokens_eq, Option.bind_some, ofTokens?, ← hrun]
  rfl

theorem compile?_eq_some {p : String} : Regex.compile? p = some x ↔
    read? p.toList = some x.expr ∧ x.expr.weight ≤ maxWeight ∧ x.source = p := by
  rw [Regex.compile?, Option.bind_eq_some_iff]
  constructor
  · rintro ⟨e, he, h⟩
    split at h
    · rename_i hweight
      cases h
      exact ⟨he, hweight, rfl⟩
    · cases h
  · rintro ⟨he, hweight, rfl⟩
    exact ⟨_, he, if_pos hweight⟩

/-- A text that is read up to a place and ends with these parts is a pattern, if it is neither too deep nor too
heavy. -/
theorem Opens.compile?_more (h : Opens s ts) (hr : Reading.initial.run ts = some r) {ps : List Part} {t : List Char}
    {us : List Token} (ht : t.head? ≠ some '?') (hus : Tokenizes t us) (hrun : r.run us = some (r.more ps))
    (hclosed : r.outside.isEmpty = true) (hdepth : (r.more ps).inner.depth ≤ maxDepth)
    (hweight : (r.more ps).inner.expr.weight ≤ maxWeight) :
    Regex.compile? (String.ofList (s ++ t)) = some ⟨String.ofList (s ++ t), (r.more ps).inner.expr⟩ := by
  refine compile?_eq_some.mpr ⟨?_, hweight, rfl⟩
  rw [String.toList_ofList, h.read? hr ht hus, hrun, Option.bind_some, Reading.finish?_more, if_pos ⟨hclosed, hdepth⟩]

end Reading

end RequestRouter.Regex
