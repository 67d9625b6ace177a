import RequestRouter.Proofs.Pattern.Inverse
/-!
What a compiled template matches, by places of a text: the literal texts and what the constraints accept, one
after the other. Templates put together from two texts match what the two match one after the other.
-/
namespace RequestRouter

open RequestRouter.Text RequestRouter.Regex RequestRouter.Regex.Expr

/-- The constraint is a pattern on its own, unless it is the name of a shorthand. -/
def OnItsOwn (c : Option String) : Prop :=
  ∀ p, c = some p → Shorthand.lookup? p = none → (Regex.compile? p).isSome = true

theorem SelfContained.onItsOwn {c : Option String} (h : SelfContained c) : OnItsOwn c := by
  intro p hp hs
  obtain ⟨r, hr, -⟩ := h p hp hs
  rw [hr]
  rfl

theorem OnItsOwn.parses {kind : TemplateKind} {c : Option String} (h : OnItsOwn c) :
    ∃ e, read? (constraintPattern kind c).toList = some e := by
  cases c with
  | none => exact (default_reads kind).imp fun _ h => h.1
  | some p =>
    cases hs : Shorthand.lookup? p with
    | some s =>
      have hmem : s ∈ Shorthand.all := List.mem_of_find?_eq_some hs
      simpa [constraintPattern, hs] using (shorthand_reads s hmem).imp fun _ h => h.1
    | none =>
      obtain ⟨r, hr⟩ := Option.isSome_iff_exists.mp (h p rfl hs)
      exact ⟨r.expr, by simpa [constraintPattern, hs] using (read?_of_compile? hr).1⟩

section Words

variable {text w v : List Char} {i j k : Nat}

def Stands (text w : List Char) (i j : Nat) : Prop := w <+: text.drop i ∧ j = i + w.length

theorem stands_append : Stands text (w ++ v) i j ↔ ∃ k, Stands text w i k ∧ Stands text v k j := by
  simp only [Stands, List.length_append]
  constructor
  · rintro ⟨⟨rest, hrest⟩, rfl⟩
    rw [List.append_assoc] at hrest
    refine ⟨i + w.length, ⟨⟨v ++ rest, hrest⟩, rfl⟩, ⟨rest, ?_⟩, (Nat.add_assoc ..).symm⟩
    rw [drop_add hrest.symm]
  · rintro ⟨_, ⟨⟨rest, hrest⟩, rfl⟩, ⟨more, hmore⟩, rfl⟩
    rw [drop_add hrest.symm] at hmore
    exact ⟨⟨more, by rw [List.append_assoc, hmore, hrest]⟩, Nat.add_assoc ..⟩

theorem spans_word {es : List Pattern} :
    (concat (w.map charPart ++ es)).Spans text i j ↔ ∃ k, Stands text w i k ∧ (concat es).Spans text k j := by
  constructor
  · intro h
    induction w generalizing i with
    | nil => exact ⟨i, ⟨List.nil_prefix, rfl⟩, h⟩
    | cons c w ih =>
      rw [List.map_cons, List.cons_append, spans_concat_cons] at h
      obtain ⟨m, hc, hrest⟩ := h
      obtain ⟨rfl, d, hd, hmem⟩ := spans_one.mp hc
      obtain rfl := (CharSet.mem_single _ _).mp hmem
      obtain ⟨k, ⟨hword, rfl⟩, hes⟩ := ih hrest
      obtain ⟨hlt, hget⟩ := List.getElem?_eq_some_iff.mp hd
      refine ⟨_, ⟨?_, by rw [List.length_cons, Nat.add_right_comm, Nat.add_assoc]⟩, hes⟩
      rw [List.drop_eq_getElem_cons hlt, hget]
      exact List.cons_prefix_cons.mpr ⟨rfl, hword⟩
  · rintro ⟨_, ⟨⟨rest, hrest⟩, rfl⟩, h⟩
    exact spans_literal hrest.symm h

end Words

namespace Cut

/-- Spans of a template and the text behind them, matched between two places of a text. -/
def SpansFrom (kind : TemplateKind) (text tail : List Char) :
    List (List Char × List Char) → Nat → Nat → Prop
  | [], i, j => Stands text (Template.literalText kind tail) i j
  | (before, span) :: rest, i, j => ∃ k m e, Stands text (Template.literalText kind before) i k ∧
      read? (constraintPattern kind (constraint? span)).toList = some e ∧ e.Spans text k m ∧
        SpansFrom kind text tail rest m j

def Spans (cut : Cut) (kind : TemplateKind) (text : List Char) (i j : Nat) : Prop :=
  SpansFrom kind text cut.tail cut.spans i j

variable {kind : TemplateKind} {text : List Char} {i j : Nat}

theorem literalText_append (kind : TemplateKind) (s t : List Char) :
    Template.literalText kind (s ++ t) = Template.literalText kind s ++ Template.literalText kind t := by
  unfold Template.literalText
  split
  · exact List.map_append
  · rfl

/-- Two templates one after the other match what the first and then the second matches. -/
theorem spans_join (a b : Cut) :
    (a.join b).Spans kind text i j ↔ ∃ k, a.Spans kind text i k ∧ b.Spans kind text k j := by
  obtain ⟨as, tail⟩ := a
  induction as generalizing i with
  | nil =>
    obtain ⟨_ | ⟨⟨before, span⟩, rest⟩, tail'⟩ := b
    · simp only [join, Spans, SpansFrom, literalText_append, stands_append]
    · simp only [join, Spans, SpansFrom, List.nil_append, literalText_append, stands_append]
      constructor
      · rintro ⟨k, m, e, ⟨n, htail, hbefore⟩, he, hspan, hrest⟩
        exact ⟨n, htail, k, m, e, hbefore, he, hspan, hrest⟩
      · rintro ⟨n, htail, k, m, e, hbefore, he, hspan, hrest⟩
        exact ⟨k, m, e, ⟨n, htail, hbefore⟩, he, hspan, hrest⟩
  | cons s as ih =>
    obtain ⟨before, span⟩ := s
    have hjoin : (⟨(before, span) :: as, tail⟩ : Cut).join b =
        ⟨(before, span) :: ((⟨as, tail⟩ : Cut).join b).spans, ((⟨as, tail⟩ : Cut).join b).tail⟩ :=
      join_cons (before, span) ⟨as, tail⟩ b
    rw [hjoin]
    simp only [Spans, SpansFrom] at ih ⊢
    simp only [ih]
    constructor
    · rintro ⟨k, m, e, hbefore, he, hspan, n, ha, hb⟩
      exact ⟨n, ⟨k, m, e, hbefore, he, hspan, ha⟩, hb⟩
    · rintro ⟨n, ⟨k, m, e, hbefore, he, hspan, ha⟩, hb⟩
      exact ⟨k, m, e, hbefore, he, hspan, n, ha, hb⟩

theorem spans_slots {spans : List (List Char × List Char)} {slots : List Slot}
    (h : List.Forall₂ (Slot.Made kind) spans slots) {hs : List (Slot × Pattern)}
    (hmap : hs.map (·.1) = slots) (hparse : ∀ x ∈ hs, x.1.Parses x.2) (tail : List Char) {es : List Pattern} :
    (concat (holes hs ++ ((Template.literalText kind tail).map charPart ++ es))).Spans text i j ↔
      ∃ k, Spans ⟨spans, tail⟩ kind text i k ∧ (concat es).Spans text k j := by
  induction h generalizing hs i with
  | nil =>
    rw [List.map_eq_nil_iff.mp hmap]
    exact spans_word
  | @cons span s spans slots hmade _ ih =>
    obtain ⟨before, span⟩ := span
    obtain _ | ⟨⟨s', e⟩, hs⟩ := hs
    · cases hmap
    · rw [List.map_cons, List.cons.injEq] at hmap
      obtain ⟨rfl, hmap⟩ := hmap
      have hrest (i : Nat) := ih (i := i) hmap (fun x hx => hparse x (List.mem_cons_of_mem _ hx))
      have he := (hparse _ List.mem_cons_self).pattern
      rw [hmade.var.pattern] at he
      have hbefore : s'.before = Template.literalText kind before := hmade.before
      rw [holes, List.append_assoc, hbefore, spans_word]
      simp only [List.cons_append, spans_concat_cons, spans_capture, hrest, Spans, SpansFrom]
      constructor
      · rintro ⟨k, hbefore, m, hspan, n, hrest, hes⟩
        exact ⟨n, ⟨k, m, e, hbefore, he, hspan, hrest⟩, hes⟩
      · rintro ⟨n, ⟨k, m, e', hbefore, he', hspan, hrest⟩, hes⟩
        obtain rfl := Option.some_inj.mp (he.symm.trans he')
        exact ⟨k, hbefore, m, hspan, n, hrest, hes⟩

theorem spans_leading (cut : Cut) : cut.Spans .leading text i j ↔ cut.Spans .path text i j := by
  have hliteral : ∀ s, Template.literalText .leading s = Template.literalText .path s := fun _ => rfl
  have hpattern : ∀ c, constraintPattern .leading c = constraintPattern .path c := by
    rintro (_ | _) <;> rfl
  obtain ⟨spans, tail⟩ := cut
  simp only [Spans]
  induction spans generalizing i with
  | nil => rfl
  | cons s spans ih => simp only [SpansFrom, hliteral, hpattern, ih]

theorem SpansFrom.le_length {tail : List Char} {spans : List (List Char × List Char)}
    (h : SpansFrom kind text tail spans i j) (hi : i ≤ text.length) : j ≤ text.length := by
  have hword : ∀ {w : List Char} {i j : Nat}, Stands text w i j → i ≤ text.length → j ≤ text.length := by
    rintro w i j ⟨hw, rfl⟩ hi
    have hle := hw.length_le
    rw [List.length_drop] at hle
    omega
  induction spans generalizing i with
  | nil => exact hword h hi
  | cons s spans ih =>
    obtain ⟨k, m, e, hbefore, -, hspan, hrest⟩ := h
    exact ih hrest hspan.inside

end Cut

section Ends

variable {text : List Char} {kind : TemplateKind} {strict : Bool} {k : Nat}

theorem spans_closing (h : strict = true → kind ≠ .leading) (hk : k ≤ text.length) :
    (∃ j, (concat (closing kind strict)).Spans text k j) ↔
      kind = .leading ∨ ExtraSlash strict (text.drop k) := by
  have hnil : text.drop k = [] ↔ k = text.length := by
    rw [List.drop_eq_nil_iff]
    omega
  by_cases hl : kind = .leading
  · have hs : strict = false := Bool.eq_false_iff.mpr fun hs => h hs hl
    simp only [closing, hl, hs, if_true, Bool.false_eq_true, if_false, List.nil_append, true_or, iff_true]
    exact ⟨k, spans_concat_nil.mpr ⟨rfl, hk⟩⟩
  · simp only [closing, hl, if_false, false_or, ExtraSlash, hnil]
    cases strict with
    | false =>
      simp only [Bool.false_eq_true, if_false, List.nil_append, spans_textEnd, false_and, or_false]
      constructor
      · rintro ⟨_, hk, -⟩
        exact hk
      · exact fun hk => ⟨_, hk, rfl⟩
    | true =>
      simp only [if_true, List.cons_append, List.nil_append, true_and]
      constructor
      · rintro ⟨_, h⟩
        obtain ⟨m, hslash, hend⟩ := spans_concat_cons.mp h
        obtain ⟨rfl, -⟩ := spans_textEnd.mp hend
        rcases spans_optionalSlash.mp hslash with ⟨hk, -⟩ | ⟨hlen, hc⟩
        · exact .inl hk
        · obtain ⟨hlt, hget⟩ := List.getElem?_eq_some_iff.mp hc
          rw [List.drop_eq_getElem_cons hlt, hget, ← hlen, List.drop_length]
          exact .inr rfl
      · rintro (rfl | hslash)
        · exact ⟨_, spans_concat_cons.mpr ⟨_, spans_optionalSlash.mpr (.inl ⟨rfl, hk⟩),
            spans_textEnd.mpr ⟨rfl, rfl⟩⟩⟩
        · obtain ⟨hc, hrest⟩ := getElem?_of_drop hslash
          have hlt := (List.getElem?_eq_some_iff.mp hc).1
          rw [List.drop_eq_nil_iff] at hrest
          exact ⟨_, spans_concat_cons.mpr ⟨k + 1, spans_optionalSlash.mpr (.inr ⟨rfl, hc⟩),
            spans_textEnd.mpr ⟨by omega, rfl⟩⟩⟩

end Ends

theorem Slot.Made.parses {kind : TemplateKind} {span : List Char × List Char} {s : Slot}
    (h : s.Made kind span) (hc : OnItsOwn (constraint? span.2)) : ∃ e, s.Parses e := by
  obtain ⟨e, he⟩ := hc.parses
  rw [← h.var.pattern] at he
  obtain ⟨n, hn⟩ := h.var.group
  exact ⟨e, he, hn ▸ isGroupName_index n⟩

namespace Template

variable {t : Template} {cut : Cut} {text : List Char} {i j : Nat}

theorem core_eq (hp : t.kind ≠ .path) (hq : t.kind ≠ .query) : t.core = t.source.toList := by
  have hslash : ¬ t.DropsSlash := fun h => hp h.1.2
  rw [core, if_neg hslash, body, splitKey, if_neg hq]

/-- What may stand behind a match of the template without its optional slash. -/
def Ends (t : Template) (rest : List Char) : Prop := t.kind = .leading ∨ ExtraSlash t.Strict rest

theorem Built.presenceOnly_eq_false (h : t.Built cut) (hk : t.kind ≠ .query) : t.presenceOnly = false :=
  Bool.eq_false_iff.mpr fun hp => hk (h.presenceOnly.mp hp).1

/-- A pattern with the pattern of the template at its end matches what stands in front, then the template. -/
theorem Built.spans_of_read? (h : t.Built cut) (hp : t.presenceOnly = false)
    (hown : ∀ span ∈ cut.spans, OnItsOwn (constraint? span.2)) {start : List Char} {e x : Pattern}
    (hstart : Spells start [e]) (hread : read? (start ++ t.pattern cut.tail) = some x) :
    (∃ i j, x.Spans text i j) ↔
      ∃ i k m, e.Spans text i k ∧ cut.Spans t.kind text k m ∧ t.Ends (text.drop m) := by
  have hstrict : decide t.Strict = true → t.kind ≠ .leading := by
    intro hs hl
    have hpath := (of_decide_eq_true hs).2
    rw [hl] at hpath
    cases hpath
  obtain ⟨hs, hmap, hparse⟩ := exists_holes h.slots fun span hspan s hm => hm.parses (hown span hspan)
  rw [pattern, hp] at hread
  obtain ⟨rfl, -⟩ := eq_concat_of_read? (hstart.append (spells_regexBody hmap hparse _ hstrict)) hread
  simp only [List.cons_append, List.nil_append, spans_concat_cons, Cut.spans_slots h.slots hmap hparse]
  constructor
  · rintro ⟨i, j, k, he, m, hcut, hclosing⟩
    have hm := hcut.le_length he.inside
    exact ⟨i, k, m, he, hcut, (spans_closing hstrict hm).mp ⟨j, hclosing⟩⟩
  · rintro ⟨i, k, m, he, hcut, hends⟩
    have hm := hcut.le_length he.inside
    obtain ⟨j, hclosing⟩ := (spans_closing hstrict hm).mpr hends
    exact ⟨i, j, k, he, m, hcut, hclosing⟩

/-- A search for the pattern finds the template at the beginning of the text, unless only a key is asked for. -/
theorem Built.search_of_value (h : t.Built cut) (hp : t.presenceOnly = false)
    (hown : ∀ span ∈ cut.spans, OnItsOwn (constraint? span.2)) :
    (t.regex.expr.search text).isSome = true ↔
      ∃ k, cut.Spans t.kind text 0 k ∧ t.Ends (text.drop k) := by
  have hstart : Spells ['^'] [look .textStart] := .char (a := .caret) fun _ => rfl
  have hread := (read?_of_compile? h.regex).1
  rw [String.toList_ofList] at hread
  rw [search_isSome_iff, h.spans_of_read? hp hown hstart hread]
  simp only [spans_look_textStart]
  constructor
  · rintro ⟨_, _, m, ⟨rfl, rfl⟩, hcut, hends⟩
    exact ⟨m, hcut, hends⟩
  · rintro ⟨m, hcut, hends⟩
    exact ⟨0, 0, m, ⟨rfl, rfl⟩, hcut, hends⟩

theorem Built.search_isSome (h : t.Built cut) (hk : t.kind ≠ .query)
    (hown : ∀ span ∈ cut.spans, OnItsOwn (constraint? span.2)) :
    (t.regex.expr.search text).isSome = true ↔
      ∃ k, cut.Spans t.kind text 0 k ∧ t.Ends (text.drop k) :=
  h.search_of_value (h.presenceOnly_eq_false hk) hown

def labelStart : Pattern := alt (look .textStart) (one (.single '.'))

theorem spells_labelStart : Spells "(?:^|\\.)".toList [labelStart] := by
  have hread : read? "^|\\.".toList = some labelStart := rfl
  exact Spells.unnamed hread

theorem spans_labelStart : labelStart.Spans text i j ↔ i = 0 ∧ j = 0 ∨ j = i + 1 ∧ text[i]? = some '.' := by
  rw [labelStart, spans_alt, spans_look_textStart, spans_one]
  simp only [CharSet.mem_single, exists_eq_right]

theorem ends_host (hk : t.kind = .host) (hi : i ≤ text.length) : t.Ends (text.drop i) ↔ i = text.length := by
  have hstrict : ¬ t.Strict := fun h => nomatch hk.symm.trans h.2
  rw [Ends, ExtraSlash, List.drop_eq_nil_iff, decide_eq_true_iff]
  simp only [hk, reduceCtorEq, hstrict, false_and, or_false, false_or]
  omega

/-- A search for the suffix pattern of a host finds the template at the end of the text, behind a dot if not
at the beginning. -/
theorem Built.search_suffix (h : t.Built cut) (hk : t.kind = .host)
    (hown : ∀ span ∈ cut.spans, OnItsOwn (constraint? span.2)) :
    ((t.suffix.getD t.regex).expr.search text).isSome = true ↔
      ∃ i k, labelStart.Spans text i k ∧ cut.Spans t.kind text k text.length := by
  obtain ⟨hsuffix, hsome⟩ := h.suffix hk
  obtain ⟨r, hr⟩ := Option.isSome_iff_exists.mp hsome
  rw [hr] at hsuffix
  have hread := (read?_of_compile? hsuffix).1
  rw [String.toList_ofList] at hread
  rw [hr, Option.getD_some, search_isSome_iff,
    h.spans_of_read? (h.presenceOnly_eq_false (by simp [hk])) hown spells_labelStart hread]
  constructor
  · rintro ⟨i, k, m, hstart, hcut, hend⟩
    obtain rfl := (ends_host hk (hcut.le_length hstart.inside)).mp hend
    exact ⟨i, k, hstart, hcut⟩
  · rintro ⟨i, k, hstart, hcut⟩
    exact ⟨i, k, _, hstart, hcut, (ends_host hk (Nat.le_refl _)).mpr rfl⟩

theorem Built.mem_constraints (h : t.Built cut) {span : List Char × List Char} (hspan : span ∈ cut.spans) :
    constraint? span.2 ∈ constraints t.kind t.source := by
  obtain ⟨tail, hbody⟩ := ofChars?_body h.ofChars
  exact Template.mem_constraints hbody hspan

/-- The constraints of a template are patterns on their own. -/
def OnTheirOwn (t : Template) : Prop := ∀ c ∈ constraints t.kind t.source, OnItsOwn c

/-- No value of the template has to keep a rule beside the pattern of its variable. -/
def RuleFree (t : Template) : Prop := ∀ c ∈ constraints t.kind t.source, c ≠ some "domain"

instance (t : Template) : Decidable t.RuleFree :=
  inferInstanceAs (Decidable (∀ c ∈ constraints t.kind t.source, c ≠ some "domain"))

theorem Built.onItsOwn {t : Template} {cut : Cut} (h : t.Built cut) (hown : t.OnTheirOwn) :
    ∀ span ∈ cut.spans, OnItsOwn (constraint? span.2) := fun _ hspan => hown _ (h.mem_constraints hspan)

theorem search_of_capturesWith {r : RequestRouter.Regex} {text : String}
    (h : (t.capturesWith r text).isSome = true) : (r.expr.search text.toList).isSome = true := by
  obtain ⟨ws, hws⟩ := Option.isSome_iff_exists.mp h
  obtain ⟨found, hfound, -⟩ := Option.bind_eq_some_iff.mp hws
  exact Option.isSome_iff_exists.mpr ⟨found, hfound⟩

theorem Built.capturesWith_of_search (h : t.Built cut) (hdomain : ∀ c ∈ constraints t.kind t.source,
    c ≠ some "domain") {r : RequestRouter.Regex} {text : String}
    (hr : (r.expr.search text.toList).isSome = true) : (t.capturesWith r text).isSome = true := by
  obtain ⟨found, hfound⟩ := Option.isSome_iff_exists.mp hr
  have hextra := extra_eq_none h.slots fun span hspan => hdomain _ (h.mem_constraints hspan)
  obtain ⟨ws, hws⟩ := Option.isSome_iff_exists.mp (values_isSome hextra found text.toList)
  exact Option.isSome_iff_exists.mpr ⟨ws, Option.bind_eq_some_iff.mpr ⟨found, hfound, hws⟩⟩

end Template

namespace Cut

def Portless (kind : TemplateKind) (cut : Cut) : Prop :=
  (∀ span ∈ cut.spans, ':' ∉ Template.literalText kind span.1) ∧ ':' ∉ Template.literalText kind cut.tail

theorem Portless.of_join {kind : TemplateKind} {a b : Cut} (h : (a.join b).Portless kind) :
    b.Portless kind := by
  obtain ⟨_ | ⟨⟨before, span⟩, rest⟩, tail⟩ := b
  · obtain ⟨-, htail⟩ := h
    simp only [join, literalText_append, List.mem_append, not_or] at htail
    refine ⟨?_, htail.2⟩
    rintro s ⟨⟩
  · obtain ⟨hspans, htail⟩ := h
    refine ⟨?_, htail⟩
    intro s hs
    rcases List.mem_cons.mp hs with rfl | hs
    · have hhead := hspans (a.tail ++ before, span) (by simp [join])
      rw [literalText_append, List.mem_append, not_or] at hhead
      exact hhead.2
    · exact hspans s (by simp [join, hs])

end Cut

theorem Template.Built.ignoresPort_iff {t : Template} {cut : Cut} (h : t.Built cut) :
    t.ignoresPort = true ↔ t.kind = .host ∧ cut.Portless t.kind := by
  have hslots : ∀ {kind : TemplateKind} {spans : List (List Char × List Char)} {slots : List Slot},
      List.Forall₂ (Slot.Made kind) spans slots → ((∀ s ∈ slots, ':' ∉ s.before) ↔
        ∀ span ∈ spans, ':' ∉ Template.literalText kind span.1) := by
    intro kind spans slots hall
    induction hall with
    | nil => simp
    | cons hs _ ih => simp [hs.before, ih]
  rw [h.ignoresPort, hslots h.slots, Cut.Portless]

end RequestRouter
