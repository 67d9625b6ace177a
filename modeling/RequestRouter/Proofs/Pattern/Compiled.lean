import RequestRouter.Proofs.Pattern.Join
import RequestRouter.Proofs.Pattern.Layout
/-!
What compiling a template gives. Every variable stands for the pattern of its constraint, its validator accepts
what that pattern accepts as a whole, and the pattern of the template is the literal text and the patterns of
the variables in turn.
-/
namespace RequestRouter

open RequestRouter.Text RequestRouter.Regex RequestRouter.Regex.Expr

section Except

variable {ε α β : Type} {x : Except ε α} {b : β}

theorem exists_of_bind_eq_ok {f : α → Except ε β} (h : x.bind f = .ok b) : ∃ a, x = .ok a ∧ f a = .ok b := by
  cases x with
  | error e => cases h
  | ok a => exact ⟨a, rfl, h⟩

theorem exists_of_map_eq_ok {f : α → β} (h : x.map f = .ok b) : ∃ a, x = .ok a ∧ f a = b := by
  cases x with
  | error e => cases h
  | ok a => exact ⟨a, rfl, Except.ok.inj h⟩

theorem exists_of_mapFst_eq_ok {γ : Type} {x : Except ε α × γ} {f : α → β} {c : γ}
    (h : (x.1.map f, x.2) = (.ok b, c)) : ∃ a, x = (.ok a, c) ∧ f a = b := by
  obtain ⟨hmap, hc⟩ := Prod.mk.inj h
  obtain ⟨a, ha, hb⟩ := exists_of_map_eq_ok hmap
  exact ⟨a, Prod.ext ha hc, hb⟩

end Except

namespace PatternCache

/-- A faithful cache gives what compiling gives, and stays faithful. -/
theorem compileWith_spec {build : Regex.Builder} {cache : PatternCache} (h : cache.FaithfulTo build) (p : String) :
    (cache.compileWith build p).1 = build p ∧ (cache.compileWith build p).2.FaithfulTo build := by
  unfold compileWith
  split
  · rename_i henabled
    split
    · rename_i r hr
      obtain ⟨l₁, l₂, heq, -⟩ := List.lookup_eq_some_iff.mp hr
      exact ⟨(h.1 p r (by simp [heq])).symm, h⟩
    · split
      · rename_i r hr
        refine ⟨hr.symm, ?_, fun hf => nomatch henabled.symm.trans hf⟩
        intro q s hq
        rcases List.mem_cons.mp hq with heq | hq
        · cases heq
          exact hr
        · exact h.1 q s hq
      · rename_i hr
        exact ⟨hr.symm, h⟩
  · exact ⟨rfl, h⟩

theorem compile_spec {cache : PatternCache} (h : cache.Faithful) (p : String) :
    (cache.compile p).1 = Regex.compile? p ∧ (cache.compile p).2.Faithful :=
  compileWith_spec h p

end PatternCache

section Anchors

variable {text : List Char} {es : List Pattern} {e : Pattern} {i j : Nat}

theorem spans_look_textStart : (look .textStart : Pattern).Spans text i j ↔ i = 0 ∧ j = 0 := by
  simp only [spans_look, Assertion.holds]
  constructor
  · rintro ⟨rfl, hi, hb⟩
    have hnil : text.take i = [] := by simpa using hb
    have hlen := congrArg List.length hnil
    rw [List.length_take, Nat.min_eq_left hi] at hlen
    exact ⟨hlen, hlen⟩
  · rintro ⟨rfl, rfl⟩
    exact ⟨rfl, Nat.zero_le _, rfl⟩

theorem spans_textStart :
    (concat (look .textStart :: es)).Spans text i j ↔ i = 0 ∧ (concat es).Spans text 0 j := by
  rw [spans_concat_cons]
  simp only [spans_look_textStart]
  constructor
  · rintro ⟨k, ⟨rfl, rfl⟩, hes⟩
    exact ⟨rfl, hes⟩
  · rintro ⟨rfl, hes⟩
    exact ⟨0, ⟨rfl, rfl⟩, hes⟩

theorem spans_textEnd :
    (concat [look .textEnd]).Spans text i j ↔ i = text.length ∧ j = text.length := by
  simp only [concat, spans_look, Assertion.holds]
  constructor
  · rintro ⟨rfl, hi, ha⟩
    have hnil : text.drop i = [] := by simpa using ha
    have hle := List.drop_eq_nil_iff.mp hnil
    omega
  · rintro ⟨rfl, rfl⟩
    exact ⟨rfl, Nat.le_refl _, by simp⟩

theorem read?_of_compile? {p : String} {r : RequestRouter.Regex} (h : Regex.compile? p = some r) :
    read? p.toList = some r.expr ∧ r.source = p := by
  obtain ⟨e, he, h⟩ := Option.bind_eq_some_iff.mp h
  split at h
  · cases h
    exact ⟨he, rfl⟩
  · cases h

theorem isMatch_anchored {p : String} {r : RequestRouter.Regex} (h : Regex.compile? (anchored p) = some r)
    (hp : read? p.toList = some e) (v : String) : r.isMatch v = true ↔ e.Accepts v.toList := by
  have htext : (anchored p).toList = ['^'] ++ ("(?:".toList ++ p.toList ++ [')']) ++ ['$'] := by
    simp [anchored, String.toList_append]
  have hstart : Spells ['^'] [look .textStart] := .char (a := .caret) fun _ => rfl
  have hend : Spells ['$'] [look .textEnd] := .char (a := .dollar) fun _ => rfl
  have hspells : Spells (anchored p).toList [look .textStart, e, look .textEnd] := by
    rw [htext]
    exact (hstart.append (Spells.unnamed hp)).append hend
  rw [isMatch_iff, (eq_concat_of_read? hspells (read?_of_compile? h).1).1]
  simp only [spans_textStart, spans_concat_cons (e := e), spans_textEnd, ← spans_whole]
  constructor
  · rintro ⟨i, j, rfl, k, he, rfl, rfl⟩
    exact he
  · intro he
    exact ⟨0, _, rfl, _, he, rfl, rfl⟩

end Anchors

def constraint? (span : List Char) : Option String := (Form.cut ':' span).2.map String.ofList

def constraintPattern (kind : TemplateKind) : Option String → String
  | none => kind.defaultPattern
  | some c => ((Shorthand.lookup? c).map (·.pattern)).getD c

def constraintExtra (c : Option String) : Option ExtraCheck :=
  (c.bind Shorthand.lookup?).bind (·.extra)

theorem shorthand_compiles (s : Shorthand) (h : s ∈ Shorthand.all) :
    Regex.compile? (anchored s.pattern) = some s.validator.regex := by
  have hall : Shorthand.all.all (fun s => (Regex.compile? (anchored s.pattern)).isSome) = true := by
    decide +kernel
  obtain ⟨r, hr⟩ := Option.isSome_iff_exists.mp (List.all_eq_true.mp hall s h)
  rw [Shorthand.validator, Shorthand.validatorWith, hr]
  rfl

namespace Template

theorem eq_ok_of_toOption {ε α β : Type} {r : Except ε α × β} {a : α} (h : r.1.toOption = some a) :
    r = (.ok a, r.2) := by
  obtain ⟨x, b⟩ := r
  cases x with
  | error => cases h
  | ok => rw [Option.some_inj.mp h]

theorem patternValidator_spec {build : Regex.Builder} {cache cache' : PatternCache} {p : String} {v : Validator}
    (hc : cache.FaithfulTo build) (h : patternValidator build cache p = (.ok v, cache')) :
    build (anchored p) = some v.regex ∧ v.extra = none ∧ cache'.FaithfulTo build := by
  obtain ⟨hcompile, hfaithful⟩ := PatternCache.compileWith_spec hc (anchored p)
  unfold patternValidator at h
  split at h
  · rename_i r _ heq
    cases h
    rw [heq] at hcompile hfaithful
    exact ⟨hcompile.symm, rfl, hfaithful⟩
  · cases h

theorem constraintValidator_spec {kind : TemplateKind} {cache cache' : PatternCache} {span : String}
    {c : Option String} {p : String} {v : Validator} (hc : cache.Faithful)
    (h : constraintValidator Regex.compile? kind cache span c = (.ok (p, v), cache')) :
    p = constraintPattern kind c ∧ v.extra = constraintExtra c ∧
      Regex.compile? (anchored p) = some v.regex ∧ cache'.Faithful := by
  unfold constraintValidator at h
  split at h
  · obtain ⟨w, hv, heq⟩ := exists_of_mapFst_eq_ok h
    cases heq
    obtain ⟨hregex, hextra, hfaithful⟩ := patternValidator_spec hc hv
    exact ⟨rfl, hextra, hregex, hfaithful⟩
  · cases h
  · rename_i c _
    cases hs : Shorthand.lookup? c with
    | some s =>
      simp only [hs] at h
      cases h
      have hmem : s ∈ Shorthand.all := List.mem_of_find?_eq_some hs
      exact ⟨by simp [constraintPattern, hs], by simp [constraintExtra, hs, Shorthand.validatorWith],
        shorthand_compiles s hmem, hc⟩
    | none =>
      simp only [hs] at h
      obtain ⟨w, hv, heq⟩ := exists_of_mapFst_eq_ok h
      cases heq
      obtain ⟨hregex, hextra, hfaithful⟩ := patternValidator_spec hc hv
      exact ⟨by simp [constraintPattern, hs], by simp [constraintExtra, hs, hextra], hregex, hfaithful⟩

end Template

structure Variable.Made (kind : TemplateKind) (span : List Char) (v : Variable) : Prop where
  name : v.name = String.ofList (Form.cut ':' span).1
  pattern : v.pattern = constraintPattern kind (constraint? span)
  extra : v.validator.extra = constraintExtra (constraint? span)
  regex : Regex.compile? (anchored v.pattern) = some v.validator.regex
  group : ∃ n : Nat, v.group = "v" ++ toString n

structure Slot.Made (kind : TemplateKind) (span : List Char × List Char) (s : Slot) : Prop where
  before : s.before = Template.literalText kind span.1
  var : s.var.Made kind span.2

namespace Template

theorem compileSpan_spec {source : String} {kind : TemplateKind} {used : List String}
    {cache cache' : PatternCache} {span : List Char} {v : Variable} (hc : cache.Faithful)
    (h : compileSpan Regex.compile? source kind used cache span = (.ok v, cache')) :
    v.Made kind span ∧ v.name ∉ used ∧ cache'.Faithful := by
  unfold compileSpan at h
  dsimp only at h
  split at h
  · cases h
  · split at h
    · cases h
    · rename_i hnew
      obtain ⟨⟨p, w⟩, hv, rfl⟩ := exists_of_mapFst_eq_ok h
      obtain ⟨hpattern, hextra, hregex, hfaithful⟩ := constraintValidator_spec hc hv
      exact ⟨⟨rfl, hpattern, hextra, hregex, _, rfl⟩, by simpa using hnew, hfaithful⟩

theorem compileSpans_cons {build : Regex.Builder} {source : String} {kind : TemplateKind} {used : List String}
    {cache : PatternCache} {span : List Char × List Char} {spans : List (List Char × List Char)} {slots : List Slot}
    (h : (compileSpans build source kind used cache (span :: spans)).1 = .ok slots) :
    ∃ v rest, (compileSpan build source kind used cache span.2).1 = .ok v ∧
      (compileSpans build source kind (used ++ [v.name]) (compileSpan build source kind used cache span.2).2 spans).1 =
        .ok rest ∧
      slots = ⟨literalText kind span.1, v⟩ :: rest := by
  unfold compileSpans at h
  split at h <;> rename_i heq <;> rw [heq]
  · cases h
  · rename_i v cache₁
    dsimp only at h ⊢
    obtain ⟨rest, hrest, rfl⟩ := exists_of_map_eq_ok h
    exact ⟨v, rest, rfl, hrest, rfl⟩

theorem compileSpans_spec {source : String} {kind : TemplateKind} {used : List String}
    {cache : PatternCache} {spans : List (List Char × List Char)} {slots : List Slot}
    (hc : cache.Faithful) (h : (compileSpans Regex.compile? source kind used cache spans).1 = .ok slots) :
    List.Forall₂ (Slot.Made kind) spans slots ∧ (slots.map (·.var.name)).Nodup ∧
      (∀ s ∈ slots, s.var.name ∉ used) := by
  induction spans generalizing used cache slots with
  | nil =>
    cases h
    exact ⟨.nil, .nil, nofun⟩
  | cons span spans ih =>
    obtain ⟨v, rest, hv, hrest, rfl⟩ := compileSpans_cons h
    obtain ⟨hmade, hnew, hc₁⟩ := compileSpan_spec hc (Prod.ext hv rfl)
    obtain ⟨hall, hnodup, hused⟩ := ih hc₁ hrest
    refine ⟨.cons ⟨rfl, hmade⟩ hall, List.nodup_cons.mpr ⟨?_, hnodup⟩, ?_⟩
    · intro hm
      obtain ⟨s, hs, heq⟩ := List.mem_map.mp hm
      exact hused s hs (by simp [heq])
    · intro s hs
      rcases List.mem_cons.mp hs with rfl | hs
      · exact hnew
      · exact fun hm => hused s hs (List.mem_append_left _ hm)

theorem compileWhole_spec {source : String} {kind : TemplateKind} {body : List Char}
    {cache cache' : PatternCache} {r : RequestRouter.Regex} {suffix : Option RequestRouter.Regex}
    (hc : cache.Faithful) (h : compileWhole Regex.compile? source kind body cache = (.ok (r, suffix), cache')) :
    Regex.compile? (String.ofList ('^' :: body)) = some r ∧
      (kind = .host → Regex.compile? (String.ofList ("(?:^|\\.)".toList ++ body)) = suffix ∧ suffix.isSome) ∧
      cache'.Faithful := by
  unfold compileWhole at h
  obtain ⟨hcompile, hc₁⟩ := PatternCache.compileWith_spec hc (String.ofList ('^' :: body))
  split at h
  · cases h
  · rename_i regex cache₁ heq
    rw [heq] at hcompile hc₁
    split at h
    · obtain ⟨hsuffix, hc₂⟩ := PatternCache.compileWith_spec hc₁ (String.ofList ("(?:^|\\.)".toList ++ body))
      split at h
      · cases h
      · rename_i suffix cache₂ heq₂
        rw [heq₂] at hsuffix hc₂
        cases h
        exact ⟨hcompile.symm, fun _ => ⟨hsuffix.symm, rfl⟩, hc₂⟩
    · rename_i hkind
      cases h
      exact ⟨hcompile.symm, fun h => absurd h hkind, hc₁⟩

/-- The template is what compiling its source gives. -/
structure Made (t : Template) : Prop where
  cut : ∃ cut, Cut.ofChars? (splitKey t.kind t.source.toList).2 = some cut ∧
    List.Forall₂ (Slot.Made t.kind) cut.spans t.slots
  names : t.varNames.Nodup
  queryKey : t.queryKey = (splitKey t.kind t.source.toList).1.map String.ofList
  presenceOnly : t.presenceOnly = true ↔
    t.kind = .query ∧ (splitKey t.kind t.source.toList).2.isEmpty = true
  regex : ∃ tail slash, t.tail = tail ++ slash ∧
    (slash = [] ∨ t.options.strictSlash = true ∧ t.kind = .path ∧ slash = ['/']) ∧
    Regex.compile? (String.ofList ('^' :: regexBody t.kind (t.options.strictSlash ∧ t.kind = .path)
      t.presenceOnly t.slots tail)) = some t.regex

/-- What is compiled: the source, or what stands behind the key of a query. -/
def body (t : Template) : List Char := (splitKey t.kind t.source.toList).2

abbrev Strict (t : Template) : Prop := t.options.strictSlash = true ∧ t.kind = .path

abbrev DropsSlash (t : Template) : Prop := t.Strict ∧ t.body.getLast? = some '/'

/-- What is compiled, without a final slash that is optional. -/
def core (t : Template) : List Char := if t.DropsSlash then t.body.dropLast else t.body

theorem body_eq (t : Template) : t.body = t.core ++ (if t.DropsSlash then ['/'] else []) := by
  rw [core]
  split
  · rename_i h
    exact (List.dropLast_append_getLast? _ h.2).symm
  · exact (List.append_nil _).symm

def pattern (t : Template) (tail : List Char) : List Char :=
  regexBody t.kind t.Strict t.presenceOnly t.slots (literalText t.kind tail)

/-- All that compiling gives, with the cut of what is compiled. -/
structure Built (t : Template) (cut : Cut) : Prop where
  ofChars : Cut.ofChars? t.core = some cut
  slots : List.Forall₂ (Slot.Made t.kind) cut.spans t.slots
  names : t.varNames.Nodup
  queryKey : t.queryKey = (splitKey t.kind t.source.toList).1.map String.ofList
  presenceOnly : t.presenceOnly = true ↔ t.kind = .query ∧ t.body.isEmpty = true
  tail : ∃ slash, t.tail = literalText t.kind cut.tail ++ slash ∧ (slash = [] ∨ t.Strict ∧ slash = ['/'])
  regex : Regex.compile? (String.ofList ('^' :: t.pattern cut.tail)) = some t.regex
  suffix : t.kind = .host →
    Regex.compile? (String.ofList ("(?:^|\\.)".toList ++ t.pattern cut.tail)) = t.suffix ∧ t.suffix.isSome
  ignoresPort : t.ignoresPort = true ↔
    t.kind = .host ∧ (∀ s ∈ t.slots, ':' ∉ s.before) ∧ ':' ∉ literalText t.kind cut.tail

section Failures

variable {build : Regex.Builder} {cache : PatternCache}

theorem patternValidator_faithful (h : cache.FaithfulTo build) (p : String) :
    (patternValidator build cache p).2.FaithfulTo build := by
  have hcompile := (PatternCache.compileWith_spec h (anchored p)).2
  unfold patternValidator
  split <;>
  · rename_i heq
    rwa [heq] at hcompile

theorem compileSpan_faithful (h : cache.FaithfulTo build) (source : String) (kind : TemplateKind) (used : List String)
    (span : List Char) : (compileSpan build source kind used cache span).2.FaithfulTo build := by
  unfold compileSpan
  dsimp only
  split
  · exact h
  · split
    · exact h
    · unfold constraintValidator
      split
      · exact patternValidator_faithful h _
      · exact h
      · split
        · exact h
        · exact patternValidator_faithful h _

theorem compileSpans_faithful (h : cache.FaithfulTo build) (source : String) (kind : TemplateKind) (used : List String)
    (spans : List (List Char × List Char)) : (compileSpans build source kind used cache spans).2.FaithfulTo build := by
  induction spans generalizing used cache with
  | nil => exact h
  | cons span spans ih =>
    have hspan := compileSpan_faithful h source kind used span.2
    unfold compileSpans
    split <;>
    · rename_i heq
      rw [heq] at hspan
      first | exact hspan | exact ih hspan _

theorem compileWhole_faithful (h : cache.FaithfulTo build) (source : String) (kind : TemplateKind) (body : List Char) :
    (compileWhole build source kind body cache).2.FaithfulTo build := by
  have hwhole := (PatternCache.compileWith_spec h (String.ofList ('^' :: body))).2
  unfold compileWhole
  split
  · rename_i heq
    rwa [heq] at hwhole
  · rename_i heq
    rw [heq] at hwhole
    split
    · have hsuffix := (PatternCache.compileWith_spec hwhole (String.ofList ("(?:^|\\.)".toList ++ body))).2
      split <;>
      · rename_i heq
        rwa [heq] at hsuffix
    · exact hwhole

theorem compile_faithful (h : cache.Faithful) (source : String) (kind : TemplateKind) (options : TemplateOptions) :
    (compile source kind options cache).2.Faithful := by
  unfold compile compileWith
  dsimp only
  split
  · exact h
  · rename_i cut _
    have hspans := compileSpans_faithful h source kind [] cut.spans
    split
    · rename_i heq
      rwa [heq] at hspans
    · rename_i heq
      rw [heq] at hspans
      split <;>
      · rename_i heq
        exact (congrArg Prod.snd heq) ▸ compileWhole_faithful hspans source kind _

theorem compileWith_kept {source : String} {kind : TemplateKind} {options : TemplateOptions} {t : Template}
    (h : (compileWith build source kind options cache).1 = .ok t) :
    t.source = source ∧ t.kind = kind ∧ t.options = options := by
  unfold compileWith at h
  dsimp only at h
  split at h
  · cases h
  · split at h
    · cases h
    · split at h <;> cases h
      exact ⟨rfl, rfl, rfl⟩

end Failures

theorem ofChars?_slash : Cut.ofChars? ['/'] = some ⟨[], ['/']⟩ := rfl

theorem ofChars?_core {t : Template} {cut : Cut} (h : Cut.ofChars? t.body = some cut) :
    Cut.ofChars? t.core = some ⟨cut.spans, if t.DropsSlash then cut.tail.dropLast else cut.tail⟩ := by
  by_cases hslash : t.DropsSlash
  · have hbody := t.body_eq
    rw [if_pos hslash] at hbody
    obtain ⟨b, hb, rfl⟩ := Cut.exists_join (hbody ▸ h) ofChars?_slash
    simp only [hb, if_pos hslash, Cut.join, List.dropLast_concat]
  · rw [core, if_neg hslash, if_neg hslash, h]

theorem ofChars?_body {t : Template} {cut : Cut} (h : Cut.ofChars? t.core = some cut) :
    ∃ tail, Cut.ofChars? t.body = some ⟨cut.spans, tail⟩ := by
  rw [body_eq]
  split
  · exact ⟨_, by rw [Cut.ofChars?_append h, ofChars?_slash]; rfl⟩
  · exact ⟨cut.tail, by rw [List.append_nil, h]⟩

theorem compile_built {source : String} {kind : TemplateKind} {options : TemplateOptions}
    {cache cache' : PatternCache} {t : Template} (hc : cache.Faithful)
    (h : compile source kind options cache = (.ok t, cache')) :
    t.source = source ∧ t.kind = kind ∧ t.options = options ∧ (∃ cut, t.Built cut) ∧ cache'.Faithful := by
  unfold compile compileWith at h
  dsimp only at h
  split at h
  · cases h
  · rename_i cut hcut
    split at h
    · cases h
    · rename_i slots cache₁ hslots
      obtain ⟨hall, hnodup, -⟩ := compileSpans_spec hc (congrArg Prod.fst hslots)
      have hc₁ := compileSpans_faithful hc source kind [] cut.spans
      rw [hslots] at hc₁
      split at h
      · cases h
      · rename_i regex suffix cache₂ hwhole
        obtain ⟨hregex, hsuffix, hc₂⟩ := compileWhole_spec hc₁ hwhole
        cases h
        refine ⟨rfl, rfl, rfl, ⟨_, ofChars?_core hcut, hall, hnodup, rfl, ?_, ?_, hregex, hsuffix, ?_⟩, hc₂⟩
        · simp [body]
        · dsimp only
          by_cases hslash : (options.strictSlash = true ∧ kind = .path) ∧
              (splitKey kind source.toList).2.getLast? = some '/'
          · exact ⟨['/'], if_pos hslash, .inr ⟨hslash.1, rfl⟩⟩
          · exact ⟨[], (if_neg hslash).trans (List.append_nil _).symm, .inl rfl⟩
        · have hport : ∀ tail : List Char, decide (kind = .host ∧
              ¬ (slots.any (·.before.contains ':') ∨ tail.contains ':')) = true ↔
                kind = .host ∧ (∀ s ∈ slots, ':' ∉ s.before) ∧ ':' ∉ tail := by simp
          exact hport _

theorem Built.made {t : Template} {cut : Cut} (h : t.Built cut) : t.Made where
  cut := by
    obtain ⟨tail, htail⟩ := ofChars?_body h.ofChars
    exact ⟨_, htail, h.slots⟩
  names := h.names
  queryKey := h.queryKey
  presenceOnly := h.presenceOnly
  regex := by
    obtain ⟨slash, htail, hslash⟩ := h.tail
    exact ⟨_, slash, htail, by simpa only [Strict, and_assoc] using hslash, h.regex⟩

theorem compile_spec {source : String} {kind : TemplateKind} {options : TemplateOptions}
    {cache cache' : PatternCache} {t : Template} (hc : cache.Faithful)
    (h : compile source kind options cache = (.ok t, cache')) :
    t.source = source ∧ t.kind = kind ∧ t.options = options ∧ t.Made ∧ cache'.Faithful := by
  obtain ⟨hsource, hkind, hoptions, ⟨cut, hbuilt⟩, hcache⟩ := compile_built hc h
  exact ⟨hsource, hkind, hoptions, hbuilt.made, hcache⟩

/-- Compiling the source of the template, with some faithful cache, gives the template. -/
def IsCompiled (t : Template) : Prop :=
  ∃ cache cache', cache.Faithful ∧ compile t.source t.kind t.options cache = (.ok t, cache')

theorem isCompiled_of_compile {source : String} {kind : TemplateKind} {options : TemplateOptions}
    {cache cache' : PatternCache} {t : Template} (hc : cache.Faithful)
    (h : compile source kind options cache = (.ok t, cache')) : t.IsCompiled := by
  obtain ⟨rfl, rfl, rfl, -⟩ := compile_built hc h
  exact ⟨cache, cache', hc, h⟩

theorem IsCompiled.built {t : Template} (h : t.IsCompiled) : ∃ cut, t.Built cut := by
  obtain ⟨cache, cache', hc, h⟩ := h
  exact (compile_built hc h).2.2.2.1

theorem IsCompiled.made {t : Template} (h : t.IsCompiled) : t.Made := by
  obtain ⟨cut, hcut⟩ := h.built
  exact hcut.made

end Template

end RequestRouter
