import RequestRouter.Proofs.Pattern.Braces
import RequestRouter.Proofs.Pattern.Compiled
import RequestRouter.Proofs.Text.Coding
/-!
The grammar of templates. A text compiles if its braces are balanced, its spans have names that differ and
constraints that are patterns, and the pattern put together from all of it is one. Otherwise the first fault is
reported: the braces, then the leftmost span with a fault, then the pattern as a whole. What was compiled gives its
text back.
-/
namespace RequestRouter

open RequestRouter.Text

def spanName (span : List Char) : String := String.ofList (Form.cut ':' span).1

theorem span_unconstrained {name : List Char} (h : ':' ∉ name) :
    spanName name = String.ofList name ∧ constraint? name = none := by
  rw [spanName, constraint?, Form.cut_of_not_mem h]
  exact ⟨rfl, rfl⟩

/-- The constraint is absent, the name of a shorthand, or a pattern when it is anchored. -/
def Admitted (build : Regex.Builder) (c : Option String) : Prop :=
  ∀ p, c = some p → (Shorthand.lookup? p).isSome = true ∨ p ≠ "" ∧ (build (anchored p)).isSome = true

structure SpanFits (build : Regex.Builder) (used : List String) (span : List Char) : Prop where
  named : spanName span ≠ ""
  new : spanName span ∉ used
  constraint : Admitted build (constraint? span)

/-- What is wrong with a span behind spans with the names in `used`: a missing name before a repeated one, and that
before the constraint. -/
inductive SpanFault (build : Regex.Builder) (source : String) (used : List String) (span : List Char) :
    RouteError → Prop
  | unnamed (h : spanName span = "") : SpanFault build source used span (.missingVariableName source)
  | repeated (hname : spanName span ≠ "") (h : spanName span ∈ used) :
    SpanFault build source used span (.duplicateVariable (spanName span))
  | empty (hname : spanName span ≠ "") (hnew : spanName span ∉ used) (h : constraint? span = some "") :
    SpanFault build source used span (.invalidPattern (String.ofList span) .emptyConstraint)
  | malformed {p : String} (hname : spanName span ≠ "") (hnew : spanName span ∉ used)
    (h : constraint? span = some p) (hp : p ≠ "") (hshort : Shorthand.lookup? p = none)
    (hpattern : build (anchored p) = none) : SpanFault build source used span (.invalidPattern p .malformed)

structure WellFormed (build : Regex.Builder) (used : List String) (spans : List (List Char × List Char)) : Prop where
  named : ∀ span ∈ spans, spanName span.2 ≠ ""
  new : ∀ span ∈ spans, spanName span.2 ∉ used
  distinct : (spans.map (spanName ·.2)).Nodup
  constraints : ∀ span ∈ spans, Admitted build (constraint? span.2)

section Spans

variable {build : Regex.Builder}

theorem wellFormed_nil {used : List String} : WellFormed build used [] := ⟨nofun, nofun, .nil, nofun⟩

theorem wellFormed_cons {used : List String} {span : List Char × List Char} {spans : List (List Char × List Char)} :
    WellFormed build used (span :: spans) ↔
      SpanFits build used span.2 ∧ WellFormed build (used ++ [spanName span.2]) spans := by
  constructor
  · rintro ⟨hnamed, hnew, hdistinct, hconstraints⟩
    rw [List.forall_mem_cons] at hnamed hnew hconstraints
    rw [List.map_cons, List.nodup_cons] at hdistinct
    refine ⟨⟨hnamed.1, hnew.1, hconstraints.1⟩, hnamed.2, fun s hs hmem => ?_, hdistinct.2, hconstraints.2⟩
    rcases List.mem_append.mp hmem with hmem | hmem
    · exact hnew.2 s hs hmem
    · exact hdistinct.1 (List.mem_singleton.mp hmem ▸ List.mem_map_of_mem hs)
  · rintro ⟨⟨hname, hfresh, hconstraint⟩, hnamed, hnew, hdistinct, hconstraints⟩
    refine ⟨List.forall_mem_cons.mpr ⟨hname, hnamed⟩, List.forall_mem_cons.mpr ⟨hfresh, fun s hs hmem => ?_⟩,
      List.nodup_cons.mpr ⟨fun hmem => ?_, hdistinct⟩, List.forall_mem_cons.mpr ⟨hconstraint, hconstraints⟩⟩
    · exact hnew s hs (List.mem_append_left _ hmem)
    · obtain ⟨s, hs, heq⟩ := List.mem_map.mp hmem
      exact hnew s hs (by simp [heq])

def FirstFault (build : Regex.Builder) (source : String) (used : List String)
    (spans : List (List Char × List Char)) (e : RouteError) : Prop :=
  ∃ front span rest, spans = front ++ span :: rest ∧ WellFormed build used front ∧
    SpanFault build source (used ++ front.map (spanName ·.2)) span.2 e

theorem firstFault_cons {source : String} {used : List String} {span : List Char × List Char}
    {spans : List (List Char × List Char)} {e : RouteError} :
    FirstFault build source used (span :: spans) e ↔ SpanFault build source used span.2 e ∨
      SpanFits build used span.2 ∧ FirstFault build source (used ++ [spanName span.2]) spans e := by
  constructor
  · rintro ⟨_ | ⟨first, front⟩, s, rest, heq, hfront, hfault⟩
    · obtain ⟨rfl, rfl⟩ := List.cons_eq_cons.mp heq
      exact .inl (by simpa using hfault)
    · obtain ⟨rfl, rfl⟩ := List.cons_eq_cons.mp heq
      obtain ⟨hfits, hfront⟩ := wellFormed_cons.mp hfront
      exact .inr ⟨hfits, front, s, rest, rfl, hfront, by simpa using hfault⟩
  · rintro (hfault | ⟨hfits, front, s, rest, rfl, hfront, hfault⟩)
    · exact ⟨[], span, spans, rfl, wellFormed_nil, by simpa using hfault⟩
    · exact ⟨span :: front, s, rest, rfl, wellFormed_cons.mpr ⟨hfits, hfront⟩, by simpa using hfault⟩

end Spans

/-- The pattern of a span and the text before it, of which the group has number `n`. -/
def groupText (kind : TemplateKind) (span : List Char × List Char) (n : Nat) : List Char :=
  Regex.literal (Template.literalText kind span.1) ++ "(?P<".toList ++ ("v" ++ toString n).toList ++
    '>' :: (constraintPattern kind (constraint? span.2)).toList ++ [')']

/-- The pattern put together from the parts of a template, without the anchor at its beginning. -/
def Cut.assembled (cut : Cut) (kind : TemplateKind) (strict presenceOnly : Bool) : List Char :=
  cut.spans.zipIdx.flatMap (fun span => groupText kind span.1 span.2)
    ++ Regex.literal (Template.literalText kind cut.tail)
    ++ (if strict then "[/]?".toList else [])
    ++ (if presenceOnly then kind.defaultPattern.toList else [])
    ++ (if kind = .leading then [] else ['$'])

/-- The pattern of a whole template is one, and so is the pattern of the last labels of a host. -/
def WholeFits (build : Regex.Builder) (kind : TemplateKind) (pattern : List Char) : Prop :=
  (build (String.ofList ('^' :: pattern))).isSome = true ∧
    (kind = .host → (build (String.ofList ("(?:^|\\.)".toList ++ pattern))).isSome = true)

instance (build : Regex.Builder) (kind : TemplateKind) (pattern : List Char) :
    Decidable (WholeFits build kind pattern) :=
  inferInstanceAs (Decidable (_ ∧ (_ → _)))

namespace Template

variable {build : Regex.Builder} {source : String} {kind : TemplateKind} {options : TemplateOptions}
variable {cache : PatternCache} {used : List String} {span : List Char} {spans : List (List Char × List Char)}
variable {slots : List Slot} {cut : Cut} {e : RouteError}

theorem spanFits_iff (source : String) : SpanFits build used span ↔ ∀ e, ¬ SpanFault build source used span e := by
  constructor
  · rintro ⟨hnamed, hnew, hconstraint⟩ e hfault
    cases hfault with
    | unnamed h => exact hnamed h
    | repeated _ h => exact hnew h
    | empty _ _ h =>
      rcases hconstraint _ h with hshort | hpattern
      · cases hshort
      · exact hpattern.1 rfl
    | malformed _ _ h _ hshort hpattern =>
      rcases hconstraint _ h with hsome | hsome
      · rw [hshort] at hsome
        cases hsome
      · rw [hpattern] at hsome
        cases hsome.2
  · intro h
    have hnamed : spanName span ≠ "" := fun hname => h _ (.unnamed hname)
    have hnew : spanName span ∉ used := fun hmem => h _ (.repeated hnamed hmem)
    refine ⟨hnamed, hnew, fun p hp => ?_⟩
    by_contra hno
    obtain ⟨hshort, hpattern⟩ := not_or.mp hno
    rw [Option.not_isSome_iff_eq_none] at hshort
    by_cases hempty : p = ""
    · exact h _ (.empty hnamed hnew (hempty ▸ hp))
    · have hnone := fun hsome => hpattern ⟨hempty, hsome⟩
      exact h _ (.malformed hnamed hnew hp hempty hshort (Option.not_isSome_iff_eq_none.mp hnone))

theorem map_eq_error {α β : Type} {x : Except RouteError α} {f : α → β} :
    x.map f = .error e ↔ x = .error e := by
  cases x <;> simp [Except.map]

theorem patternValidator_error (hc : cache.FaithfulTo build) {p : String} :
    (patternValidator build cache p).1 = .error e ↔
      build (anchored p) = none ∧ e = .invalidPattern p .malformed := by
  have hcompile := (PatternCache.compileWith_spec hc (anchored p)).1
  unfold patternValidator
  split <;> rename_i heq <;> rw [heq] at hcompile
  · simp [← hcompile]
  · simp [← hcompile, eq_comm]

theorem default_compiles (kind : TemplateKind) : (Regex.compile? (anchored kind.defaultPattern)).isSome = true := by
  cases kind <;> decide +kernel

theorem constraintValidator_error (hd : (build (anchored kind.defaultPattern)).isSome = true)
    (hc : cache.FaithfulTo build) {s : String} {c : Option String} :
    (constraintValidator build kind cache s c).1 = .error e ↔
      c = some "" ∧ e = .invalidPattern s .emptyConstraint ∨
      ∃ p, c = some p ∧ p ≠ "" ∧ Shorthand.lookup? p = none ∧ build (anchored p) = none ∧
        e = .invalidPattern p .malformed := by
  unfold constraintValidator
  split
  · dsimp only
    rw [map_eq_error, patternValidator_error hc]
    simp only [reduceCtorEq, false_and, exists_false, or_self, iff_false, not_and]
    intro hnone
    rw [hnone] at hd
    cases hd
  · simp [eq_comm]
  · rename_i p hp
    have hne : p ≠ "" := hp
    cases hs : Shorthand.lookup? p with
    | some s => simp [hs, hne]
    | none =>
      dsimp only
      rw [map_eq_error, patternValidator_error hc]
      simp [hs, hne]

theorem compileSpan_error (hd : (build (anchored kind.defaultPattern)).isSome = true) (hc : cache.FaithfulTo build) :
    (compileSpan build source kind used cache span).1 = .error e ↔ SpanFault build source used span e := by
  have hname : (String.ofList (Form.cut ':' span).1).isEmpty = true ↔ spanName span = "" := by
    rw [String.isEmpty_iff, spanName]
  have hused : used.contains (String.ofList (Form.cut ':' span).1) = true ↔ spanName span ∈ used := by
    rw [List.contains_iff_mem, spanName]
  unfold compileSpan
  dsimp only
  split
  · rename_i hempty
    rw [hname] at hempty
    constructor
    · rintro ⟨⟩
      exact .unnamed hempty
    · rintro (_ | ⟨h, _⟩ | ⟨h, _, _⟩ | ⟨h, _, _, _, _, _⟩)
      · rfl
      all_goals exact absurd hempty h
  · rename_i hempty
    rw [hname] at hempty
    split
    · rename_i hmem
      rw [hused] at hmem
      constructor
      · rintro ⟨⟩
        exact .repeated hempty hmem
      · rintro (h | _ | ⟨_, h, _⟩ | ⟨_, h, _, _, _, _⟩)
        · exact absurd h hempty
        · rfl
        all_goals exact absurd hmem h
    · rename_i hmem
      rw [hused] at hmem
      rw [map_eq_error, constraintValidator_error hd hc]
      constructor
      · rintro (⟨h, rfl⟩ | ⟨p, h, hp, hs, hr, rfl⟩)
        · exact .empty hempty hmem h
        · exact .malformed hempty hmem h hp hs hr
      · rintro (h | ⟨_, h⟩ | ⟨_, _, h⟩ | ⟨_, _, h, hp, hs, hr⟩)
        · exact absurd h hempty
        · exact absurd h hmem
        · exact .inl ⟨h, rfl⟩
        · exact .inr ⟨_, h, hp, hs, hr, rfl⟩

theorem eq_error_or_ok {α : Type} (x : Except RouteError α) : (∃ e, x = .error e) ∨ ∃ a, x = .ok a := by
  cases x with
  | error e => exact .inl ⟨e, rfl⟩
  | ok a => exact .inr ⟨a, rfl⟩

theorem compileSpan_ok (hd : (build (anchored kind.defaultPattern)).isSome = true) (hc : cache.FaithfulTo build)
    (source : String) :
    (∃ v, (compileSpan build source kind used cache span).1 = .ok v) ↔ SpanFits build used span := by
  rw [spanFits_iff source]
  simp only [← compileSpan_error hd hc]
  rcases eq_error_or_ok (compileSpan build source kind used cache span).1 with ⟨e, he⟩ | ⟨v, hv⟩
  · simp [he]
  · simp [hv]

theorem constraintValidator_pattern {s : String} {c : Option String} {w : String × Validator}
    (h : (constraintValidator build kind cache s c).1 = .ok w) : w.1 = constraintPattern kind c := by
  have hfst {v : Except RouteError Validator} {p : String} (h : v.map (p, ·) = .ok w) : w.1 = p := by
    obtain ⟨_, -, rfl⟩ := exists_of_map_eq_ok h
    rfl
  unfold constraintValidator at h
  split at h
  · exact hfst h
  · cases h
  · rename_i p _
    cases hs : Shorthand.lookup? p with
    | some m =>
      rw [hs] at h
      cases h
      simp [constraintPattern, hs]
    | none =>
      rw [hs] at h
      simpa [constraintPattern, hs] using hfst h

/-- What a variable is called, in its template and in the pattern, and what it stands for there. -/
theorem compileSpan_texts {v : Variable} (h : (compileSpan build source kind used cache span).1 = .ok v) :
    v.name = spanName span ∧ v.group = "v" ++ toString used.length ∧
      v.pattern = constraintPattern kind (constraint? span) := by
  unfold compileSpan at h
  dsimp only at h
  split at h
  · cases h
  · split at h
    · cases h
    · dsimp only at h
      obtain ⟨w, hw, rfl⟩ := exists_of_map_eq_ok h
      exact ⟨rfl, rfl, constraintValidator_pattern hw⟩

theorem compileSpans_error (hd : (build (anchored kind.defaultPattern)).isSome = true) (hc : cache.FaithfulTo build) :
    (compileSpans build source kind used cache spans).1 = .error e ↔ FirstFault build source used spans e := by
  induction spans generalizing used cache with
  | nil =>
    constructor
    · rintro ⟨⟩
    · rintro ⟨front, span, rest, heq, -⟩
      simp at heq
  | cons span spans ih =>
    obtain ⟨before, span⟩ := span
    have hcache := compileSpan_faithful hc source kind used span
    rw [firstFault_cons, ← compileSpan_error hd hc, ← compileSpan_ok hd hc source]
    unfold compileSpans
    split <;> rename_i heq <;> rw [heq] at hcache ⊢
    · simp
    · rename_i v _
      have hname := (compileSpan_texts (by rw [heq])).1
      simp only [map_eq_error, ih hcache, hname]
      simp

theorem wellFormed_iff (source : String) :
    WellFormed build used spans ↔ ∀ e, ¬ FirstFault build source used spans e := by
  induction spans generalizing used with
  | nil =>
    refine iff_of_true wellFormed_nil ?_
    rintro e ⟨front, span, rest, heq, -⟩
    simp at heq
  | cons span spans ih =>
    rw [wellFormed_cons, ih, spanFits_iff source]
    simp only [firstFault_cons, not_or, not_and, spanFits_iff source]
    exact ⟨fun h e => ⟨h.1 e, fun _ => h.2 e⟩,
      fun h => ⟨fun e => (h e).1, fun e => (h e).2 fun e => (h e).1⟩⟩

theorem compileSpans_ok (hd : (build (anchored kind.defaultPattern)).isSome = true) (hc : cache.FaithfulTo build)
    (source : String) :
    (∃ slots, (compileSpans build source kind used cache spans).1 = .ok slots) ↔ WellFormed build used spans := by
  rw [wellFormed_iff source]
  simp only [← compileSpans_error hd hc]
  rcases eq_error_or_ok (compileSpans build source kind used cache spans).1 with ⟨e, he⟩ | ⟨slots, hslots⟩
  · simp [he]
  · simp [hslots]

theorem compileSpans_text (h : (compileSpans build source kind used cache spans).1 = .ok slots) :
    slots.flatMap Slot.regexText = (spans.zipIdx used.length).flatMap fun span => groupText kind span.1 span.2 := by
  induction spans generalizing used cache slots with
  | nil =>
    cases h
    rfl
  | cons span spans ih =>
    obtain ⟨v, rest, hv, hrest, rfl⟩ := compileSpans_cons h
    obtain ⟨-, hgroup, hpattern⟩ := compileSpan_texts hv
    have htext := ih hrest
    rw [List.length_append, List.length_singleton] at htext
    rw [List.flatMap_cons, htext, List.zipIdx_cons, List.flatMap_cons, Slot.regexText, groupText, hgroup, hpattern]

theorem compileSpans_kept (h : (compileSpans build source kind used cache spans).1 = .ok slots) :
    slots.map (·.var.name) = spans.map (spanName ·.2) ∧
      (slots.map (·.before)).zip (spans.map (·.2)) = spans.map fun span => (literalText kind span.1, span.2) := by
  induction spans generalizing used cache slots with
  | nil =>
    cases h
    exact ⟨rfl, rfl⟩
  | cons span spans ih =>
    obtain ⟨v, rest, hv, hrest, rfl⟩ := compileSpans_cons h
    obtain ⟨hnames, htexts⟩ := ih hrest
    simp only [List.map_cons, List.zip_cons_cons, hnames, htexts, (compileSpan_texts hv).1, and_self]

theorem compileWhole_error (hc : cache.FaithfulTo build) {pattern : List Char} :
    (compileWhole build source kind pattern cache).1 = .error e ↔
      ¬ WholeFits build kind pattern ∧ e = .invalidPattern source .malformed := by
  unfold compileWhole WholeFits
  generalize String.ofList ('^' :: pattern) = whole
  generalize String.ofList ("(?:^|\\.)".toList ++ pattern) = ending
  obtain ⟨hcompile, hcache⟩ := PatternCache.compileWith_spec hc whole
  split <;> rename_i heq <;> rw [heq] at hcompile hcache <;> rw [← hcompile]
  · simp only [Except.error.injEq, Option.isSome_none, Bool.false_eq_true, false_and, not_false_eq_true, true_and]
    exact eq_comm
  · split
    · rename_i hk
      have hsuffix := (PatternCache.compileWith_spec hcache ending).1
      split <;> rename_i heq' <;> rw [heq'] at hsuffix <;> rw [← hsuffix]
      · simp only [Except.error.injEq, hk, Option.isSome_none, Bool.false_eq_true, forall_const, and_false,
          not_false_eq_true, true_and]
        exact eq_comm
      · simp
    · rename_i hk
      simp [hk]

/-- What is compiled of a text: what stands behind the key of a query. -/
abbrev bodyOf (kind : TemplateKind) (source : String) : List Char := (splitKey kind source.toList).2

theorem bodyOf_key {k : String} (hk : '=' ∉ k.toList) : splitKey .query k.toList = (some k.toList, []) := by
  rw [splitKey, if_pos rfl, Form.cut_of_not_mem hk]
  rfl

theorem bodyOf_pair {k : String} (hk : '=' ∉ k.toList) (v : List Char) :
    splitKey .query (k.toList ++ '=' :: v) = (some k.toList, v) := by
  rw [splitKey, if_pos rfl, Form.cut_append hk]
  rfl

abbrev EndsOpen (kind : TemplateKind) (options : TemplateOptions) (source : String) : Prop :=
  (options.strictSlash = true ∧ kind = .path) ∧ (bodyOf kind source).getLast? = some '/'

/-- What is compiled without a final slash that is optional. -/
def coreOf (kind : TemplateKind) (options : TemplateOptions) (source : String) : List Char :=
  if EndsOpen kind options source then (bodyOf kind source).dropLast else bodyOf kind source

end Template

/-- The cut without a final slash that is optional. -/
def Cut.core (cut : Cut) (kind : TemplateKind) (options : TemplateOptions) (source : String) : Cut :=
  ⟨cut.spans, if Template.EndsOpen kind options source then cut.tail.dropLast else cut.tail⟩

namespace Template

variable {build : Regex.Builder} {source : String} {kind : TemplateKind} {options : TemplateOptions}
variable {cache : PatternCache} {cut : Cut} {e : RouteError}

def patternOf (kind : TemplateKind) (options : TemplateOptions) (source : String) (cut : Cut) : List Char :=
  (cut.core kind options source).assembled kind (options.strictSlash ∧ kind = .path)
    (kind = .query ∧ (bodyOf kind source).isEmpty)

/-- The text is a template, cut like that. -/
structure Grammatical (build : Regex.Builder) (kind : TemplateKind) (options : TemplateOptions) (source : String)
    (cut : Cut) : Prop where
  cuts : cut.Cuts (bodyOf kind source)
  spans : WellFormed build [] cut.spans
  whole : WholeFits build kind (patternOf kind options source cut)

/-- What is wrong with a text: its braces before its leftmost faulty span, and that before the whole pattern. -/
inductive Fault (build : Regex.Builder) (kind : TemplateKind) (options : TemplateOptions) (source : String) :
    RouteError → Prop
  | unbalanced (h : ¬ Balanced (bodyOf kind source)) : Fault build kind options source (.unbalancedBraces source)
  | span {cut : Cut} {e : RouteError} (hcuts : cut.Cuts (bodyOf kind source))
    (h : FirstFault build source [] cut.spans e) : Fault build kind options source e
  | whole {cut : Cut} (hcuts : cut.Cuts (bodyOf kind source)) (hspans : WellFormed build [] cut.spans)
    (h : ¬ WholeFits build kind (patternOf kind options source cut)) :
    Fault build kind options source (.invalidPattern source .malformed)

theorem compile_of_cuts (hd : (build (anchored kind.defaultPattern)).isSome = true)
    (hcuts : cut.Cuts (bodyOf kind source)) (hc : cache.FaithfulTo build) :
    (compileWith build source kind options cache).1 = .error e ↔ FirstFault build source [] cut.spans e ∨
      WellFormed build [] cut.spans ∧ ¬ WholeFits build kind (patternOf kind options source cut) ∧
        e = .invalidPattern source .malformed := by
  have hcache := compileSpans_faithful hc source kind [] cut.spans
  rw [← compileSpans_error hd hc, ← compileSpans_ok hd hc source]
  unfold compileWith
  dsimp only
  rw [Cut.ofChars?_eq_some.mpr hcuts]
  dsimp only
  split <;> rename_i heq <;> rw [heq] at hcache <;> simp only [heq]
  · simp
  · rename_i slots cache₁
    have hpattern : regexBody kind (options.strictSlash ∧ kind = .path)
        (kind = .query ∧ (bodyOf kind source).isEmpty) slots
        (literalText kind (cut.core kind options source).tail) = patternOf kind options source cut := by
      have hok : (compileSpans build source kind [] cache cut.spans).1 = .ok slots := by rw [heq]
      have hslots := compileSpans_text hok
      rw [regexBody, hslots, patternOf, Cut.assembled]
      rfl
    have hwhole : (compileWhole build source kind (patternOf kind options source cut) cache₁).1 = .error e ↔ _ :=
      compileWhole_error hcache
    simp only [reduceCtorEq, Except.ok.injEq, exists_eq', true_and, false_or]
    rw [← hwhole, ← hpattern]
    split <;> rename_i heq'
    · have hresult := congrArg Prod.fst heq'
      exact ⟨fun h => by cases h; exact hresult, fun h => by rw [Except.error.inj (hresult.symm.trans h)]⟩
    · have hresult := congrArg Prod.fst heq'
      exact ⟨nofun, fun h => nomatch hresult.symm.trans h⟩

theorem compileWith_error_iff (hd : (build (anchored kind.defaultPattern)).isSome = true)
    (hc : cache.FaithfulTo build) :
    (compileWith build source kind options cache).1 = .error e ↔ Fault build kind options source e := by
  by_cases hbalanced : Balanced (bodyOf kind source)
  · obtain ⟨cut, hcuts⟩ := Cut.exists_cuts_iff.mpr hbalanced
    rw [compile_of_cuts hd hcuts hc]
    constructor
    · rintro (h | ⟨hspans, h, rfl⟩)
      · exact .span hcuts h
      · exact .whole hcuts hspans h
    · rintro (h | ⟨hcuts', h⟩ | ⟨hcuts', hspans, h⟩)
      · exact absurd hbalanced h
      · exact .inl (hcuts.unique hcuts' ▸ h)
      · obtain rfl := hcuts.unique hcuts'
        exact .inr ⟨hspans, h, rfl⟩
  · have hnone : Cut.ofChars? (bodyOf kind source) = none := by
      rwa [← Option.not_isSome_iff_eq_none, Cut.ofChars?_isSome]
    have hcompile : (compileWith build source kind options cache).1 = .error (.unbalancedBraces source) := by
      unfold compileWith
      dsimp only
      rw [hnone]
    rw [hcompile]
    constructor
    · rintro ⟨⟩
      exact .unbalanced hbalanced
    · rintro (_ | ⟨hcuts, _⟩ | ⟨hcuts, _, _⟩)
      · rfl
      all_goals exact absurd (Cut.exists_cuts_iff.mp ⟨_, hcuts⟩) hbalanced

theorem compileWith_ok_iff (hd : (build (anchored kind.defaultPattern)).isSome = true)
    (hc : cache.FaithfulTo build) :
    (∃ t, (compileWith build source kind options cache).1 = .ok t) ↔
      ∃ cut, Grammatical build kind options source cut := by
  have hresult := eq_error_or_ok (compileWith build source kind options cache).1
  constructor
  · rintro ⟨t, ht⟩
    have hno : ∀ e, ¬ Fault build kind options source e := by
      intro e he
      rw [← compileWith_error_iff hd hc, ht] at he
      cases he
    have hbalanced : Balanced (bodyOf kind source) := by
      by_contra h
      exact hno _ (.unbalanced h)
    obtain ⟨cut, hcuts⟩ := Cut.exists_cuts_iff.mpr hbalanced
    have hspans : WellFormed build [] cut.spans := (wellFormed_iff source).mpr fun e he => hno e (.span hcuts he)
    refine ⟨cut, hcuts, hspans, ?_⟩
    by_contra h
    exact hno _ (.whole hcuts hspans h)
  · rintro ⟨cut, hcuts, hspans, hwhole⟩
    refine hresult.resolve_left ?_
    rintro ⟨e, he⟩
    rcases (compile_of_cuts hd hcuts hc).mp he with hfault | ⟨-, hno, -⟩
    · exact (wellFormed_iff source).mp hspans e hfault
    · exact hno hwhole

theorem compile_ok_iff (hc : cache.Faithful) :
    (∃ t, (compile source kind options cache).1 = .ok t) ↔ ∃ cut, Grammatical Regex.compile? kind options source cut :=
  compileWith_ok_iff (default_compiles kind) hc

theorem exists_core (hcuts : cut.Cuts (bodyOf kind source)) (hopen : EndsOpen kind options source) :
    ∃ b : Cut, b.Cuts (bodyOf kind source).dropLast ∧ cut = ⟨b.spans, b.tail ++ ['/']⟩ := by
  have hbody := Cut.ofChars?_eq_some.mpr hcuts
  rw [← List.dropLast_append_getLast? _ hopen.2] at hbody
  obtain ⟨b, hb, rfl⟩ := Cut.exists_join hbody ofChars?_slash
  exact ⟨b, Cut.ofChars?_eq_some.mp hb, rfl⟩

theorem cuts_core (hcuts : cut.Cuts (bodyOf kind source)) :
    (cut.core kind options source).Cuts (coreOf kind options source) := by
  by_cases hopen : EndsOpen kind options source
  · obtain ⟨b, hb, rfl⟩ := exists_core hcuts hopen
    rwa [Cut.core, coreOf, if_pos hopen, if_pos hopen, List.dropLast_concat]
  · rwa [Cut.core, coreOf, if_neg hopen, if_neg hopen]

theorem compile_tail {t : Template} (hcuts : cut.Cuts (bodyOf kind source))
    (h : (compileWith build source kind options cache).1 = .ok t) : t.tail = literalText kind cut.tail := by
  have hlast (hopen : EndsOpen kind options source) :
      literalText kind cut.tail.dropLast ++ ['/'] = literalText kind cut.tail := by
    obtain ⟨b, -, rfl⟩ := exists_core hcuts hopen
    obtain ⟨⟨-, rfl⟩, -⟩ := hopen
    rw [List.dropLast_concat]
    rfl
  unfold compileWith at h
  dsimp only at h
  rw [Cut.ofChars?_eq_some.mpr hcuts] at h
  dsimp only at h
  split at h
  · cases h
  · split at h
    · cases h
    · cases h
      by_cases hopen : EndsOpen kind options source
      · simp only [if_pos hopen, hlast hopen]
      · simp only [if_neg hopen]

end Template

def Cut.lowered (cut : Cut) (kind : TemplateKind) : Cut :=
  ⟨cut.spans.map fun span => (Template.literalText kind span.1, span.2), Template.literalText kind cut.tail⟩

theorem Cut.lowered_eq {cut : Cut} {kind : TemplateKind} (h : kind ≠ .host) : cut.lowered kind = cut := by
  simp [Cut.lowered, Template.literalText, h]

namespace Template

variable {build : Regex.Builder} {source : String} {kind : TemplateKind} {options : TemplateOptions}
variable {cache : PatternCache} {cut : Cut}

theorem compile_slots {t : Template} (hcuts : cut.Cuts (bodyOf kind source))
    (h : (compileWith build source kind options cache).1 = .ok t) :
    (compileSpans build source kind [] cache cut.spans).1 = .ok t.slots := by
  unfold compileWith at h
  dsimp only at h
  rw [Cut.ofChars?_eq_some.mpr hcuts] at h
  dsimp only at h
  split at h
  · cases h
  · rename_i heq
    rw [heq]
    split at h <;> cases h
    rfl

theorem compile_pattern {t : Template} (hc : cache.Faithful) (hcuts : cut.Cuts (bodyOf kind source))
    (h : (compile source kind options cache).1 = .ok t) :
    Regex.compile? (String.ofList ('^' :: patternOf kind options source cut)) = some t.regex := by
  have htext := compileSpans_text (compile_slots hcuts h)
  have hbody := Cut.ofChars?_eq_some.mpr hcuts
  obtain ⟨rfl, rfl, rfl, ⟨core, hbuilt⟩, -⟩ := compile_built hc (Prod.ext h rfl)
  obtain rfl : core = cut.core t.kind t.options t.source :=
    Option.some_inj.mp (hbuilt.ofChars.symm.trans (ofChars?_core (t := t) hbody))
  have hpresence : t.presenceOnly = decide (t.kind = .query ∧ (bodyOf t.kind t.source).isEmpty = true) := by
    rw [Bool.eq_iff_iff, hbuilt.presenceOnly, decide_eq_true_iff]
    rfl
  have hpattern : t.pattern (cut.core t.kind t.options t.source).tail = patternOf t.kind t.options t.source cut := by
    rw [pattern, regexBody, htext, hpresence, patternOf, Cut.assembled]
    rfl
  rw [← hpattern]
  exact hbuilt.regex

/-- What a template keeps of its text: the names of its spans, and the literal texts around them, in lower case for
hosts. -/
structure GivesBack (t : Template) (cut : Cut) : Prop where
  names : t.varNames = cut.spans.map (spanName ·.2)
  literals : (⟨(t.slots.map (·.before)).zip (cut.spans.map (·.2)), t.tail⟩ : Cut) = cut.lowered t.kind
  text : t.kind ≠ .host →
    (⟨(t.slots.map (·.before)).zip (cut.spans.map (·.2)), t.tail⟩ : Cut).toChars = t.body

theorem givesBack_of_compile {t : Template} (hcuts : cut.Cuts (bodyOf kind source))
    (h : (compileWith build source kind options cache).1 = .ok t) : t.GivesBack cut := by
  obtain ⟨rfl, rfl, -⟩ := compileWith_kept h
  obtain ⟨hnames, htexts⟩ := compileSpans_kept (compile_slots hcuts h)
  have hliterals : (⟨(t.slots.map (·.before)).zip (cut.spans.map (·.2)), t.tail⟩ : Cut) = cut.lowered t.kind := by
    rw [htexts, compile_tail hcuts h, Cut.lowered]
  refine ⟨hnames, hliterals, fun hk => ?_⟩
  rw [hliterals, Cut.lowered_eq hk, hcuts.whole]
  rfl

/-- The offsets that are counted in the octets of a text slice it, without a final slash that is optional, between
characters into the parts of its cut. -/
theorem sliced_of_cuts (hcuts : cut.Cuts (bodyOf kind source)) :
    ∃ offsets, Cut.octetSpans 0 0 0 (Utf8.encode (bodyOf kind source)) = some offsets ∧
      Cut.Sliced (coreOf kind options source) 0 offsets cut.spans (cut.core kind options source).tail := by
  refine ⟨Cut.offsets 0 cut.spans, ?_, ?_⟩
  · rw [Cut.octetSpans_encode, Cut.ofChars?_eq_some.mpr hcuts]
    rfl
  · have hsliced := Cut.sliced_offsets [] (cut.core kind options source)
    rwa [List.nil_append, (cuts_core hcuts).whole] at hsliced

/-- Whatever pattern texts are taken to be, as long as what stands for a variable without a constraint is one: a text
compiles exactly if it is a template, and otherwise its first fault is reported. A compiled template gives its text
back. Whatever it comes to, a text that can be cut is sliced between characters. -/
theorem compile_grammar (hdefault : (build (anchored kind.defaultPattern)).isSome = true)
    (hc : cache.FaithfulTo build) (source : String) (options : TemplateOptions) :
    ((∃ t, (compileWith build source kind options cache).1 = .ok t) ↔
      Balanced (bodyOf kind source) ∧ ∃ cut, Grammatical build kind options source cut) ∧
    (∀ e, (compileWith build source kind options cache).1 = .error e ↔ Fault build kind options source e) ∧
    (∀ t, (compileWith build source kind options cache).1 = .ok t →
      t.source = source ∧ t.kind = kind ∧ ∃ cut : Cut, cut.Cuts t.body ∧ t.GivesBack cut) ∧
    (∀ cut : Cut, cut.Cuts (bodyOf kind source) →
      ∃ offsets, Cut.octetSpans 0 0 0 (Utf8.encode (bodyOf kind source)) = some offsets ∧
        Cut.Sliced (coreOf kind options source) 0 offsets cut.spans (cut.core kind options source).tail) ∧
    ∀ i j w, Cut.Slice (coreOf kind options source) i j w → i ≤ j ∧ j ≤ octets (coreOf kind options source) ∧
      ((Utf8.encode (coreOf kind options source)).take j).drop i = Utf8.encode w := by
  refine ⟨?_, fun e => compileWith_error_iff hdefault hc, fun t ht => ?_, fun cut hcuts => sliced_of_cuts hcuts,
    fun i j w => Cut.Slice.encode⟩
  · rw [compileWith_ok_iff hdefault hc]
    exact ⟨fun ⟨cut, h⟩ => ⟨Cut.exists_cuts_iff.mp ⟨cut, h.cuts⟩, cut, h⟩, fun h => h.2⟩
  · obtain ⟨cut, h⟩ := (compileWith_ok_iff hdefault hc).mp ⟨t, ht⟩
    obtain ⟨rfl, rfl, -⟩ := compileWith_kept ht
    exact ⟨rfl, rfl, cut, h.cuts, givesBack_of_compile h.cuts ht⟩

/-- A host with letters of two octets and nested braces, and a path of which the second span has no name and the third
one repeats a name. -/
theorem compile_grammar_host_and_path :
    (∃ t, (compile "Ünit.\x7bid:[a-z]\x7b2\x7d\x7d.Ex" .host ⟨false, false⟩ .new).1 = .ok t ∧
      (∃ cut : Cut, cut.Cuts t.body ∧ t.GivesBack cut) ∧ t.tail = ".ex".toList ∧
        Cut.octetSpans 0 0 0 (Utf8.encode t.body) = some [(6, 19)]) ∧
    Fault Regex.compile? .path ⟨true, false⟩ "/\x7ba\x7d/\x7b:int\x7d/\x7ba\x7d"
      (.missingVariableName "/\x7ba\x7d/\x7b:int\x7d/\x7ba\x7d") := by
  have hfacts : ((compile "Ünit.\x7bid:[a-z]\x7b2\x7d\x7d.Ex" .host ⟨false, false⟩ .new).1.toOption.map fun t =>
      (t.tail, Cut.octetSpans 0 0 0 (Utf8.encode t.body))) = some (".ex".toList, some [(6, 19)]) := by
    decide +kernel
  obtain ⟨t, ht, heq⟩ := Option.map_eq_some_iff.mp hfacts
  obtain ⟨htail, hoffsets⟩ := Prod.mk.inj heq
  have hok := congrArg Prod.fst (eq_ok_of_toOption ht)
  obtain ⟨-, -, cut, hcut⟩ :=
    (compile_grammar (default_compiles .host) PatternCache.faithful_new _ _).2.2.1 t hok
  exact ⟨⟨t, hok, ⟨cut, hcut⟩, htail, hoffsets⟩,
    ((compile_grammar (default_compiles .path) PatternCache.faithful_new _ _).2.1 _).mp (by decide +kernel)⟩

end Template

end RequestRouter
