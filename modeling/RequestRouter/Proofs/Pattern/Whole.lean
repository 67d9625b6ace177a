import RequestRouter.Proofs.Pattern.Compiled
/-!
The pattern of a whole template. If every constraint is a pattern of its own without conditions, the template's
pattern matches exactly the texts that are its literal text with an accepted text for each variable, and the
groups of a match are these texts.
-/
namespace RequestRouter

open RequestRouter.Text RequestRouter.Regex RequestRouter.Regex.Expr

/-- A constraint that is not the name of a shorthand is a pattern of its own and has no conditions. -/
def SelfContained (c : Option String) : Prop :=
  ∀ p, c = some p → Shorthand.lookup? p = none →
    ∃ r, Regex.compile? p = some r ∧ r.expr.lookFree = true

theorem shorthand_reads (s : Shorthand) (h : s ∈ Shorthand.all) :
    ∃ e, read? s.pattern.toList = some e ∧ e.lookFree = true := by
  have hall : Shorthand.all.all (fun s => (read? s.pattern.toList).any (·.lookFree)) = true := by
    decide +kernel
  exact Option.any_eq_true _ _ |>.mp (List.all_eq_true.mp hall s h)

theorem default_reads (kind : TemplateKind) :
    ∃ e, read? kind.defaultPattern.toList = some e ∧ e.lookFree = true := by
  have hall : (read? kind.defaultPattern.toList).any (·.lookFree) = true := by
    cases kind <;> decide +kernel
  exact Option.any_eq_true _ _ |>.mp hall

theorem constraint_reads (kind : TemplateKind) {c : Option String} (h : SelfContained c) :
    ∃ e, read? (constraintPattern kind c).toList = some e ∧ e.lookFree = true := by
  cases c with
  | none => exact default_reads kind
  | some p =>
    cases hs : Shorthand.lookup? p with
    | some s =>
      have hmem : s ∈ Shorthand.all := List.mem_of_find?_eq_some hs
      simpa [constraintPattern, hs] using shorthand_reads s hmem
    | none =>
      obtain ⟨r, hr, hl⟩ := h p rfl hs
      refine ⟨r.expr, ?_, hl⟩
      simpa [constraintPattern, hs] using (read?_of_compile? hr).1

/-- The expression of a variable: its validator accepts what the expression accepts as a whole, but for the
rule beside the pattern. -/
structure Slot.Reads (s : Slot) (e : Pattern) : Prop where
  pattern : read? s.var.pattern.toList = some e
  lookFree : e.lookFree = true
  group : isGroupName s.var.group.toList = true
  valid : ∀ v, s.var.validator.isValid v = true ↔
    e.Accepts v.toList ∧ s.var.validator.acceptsExtra v = true

structure Slot.Parses (s : Slot) (e : Pattern) : Prop where
  pattern : read? s.var.pattern.toList = some e
  group : isGroupName s.var.group.toList = true

theorem Slot.Reads.parses {s : Slot} {e : Pattern} (h : s.Reads e) : s.Parses e := ⟨h.pattern, h.group⟩

theorem Slot.Made.reads {kind : TemplateKind} {span : List Char × List Char} {s : Slot}
    (h : s.Made kind span) (hc : SelfContained (constraint? span.2)) : ∃ e, s.Reads e := by
  obtain ⟨e, he, hl⟩ := constraint_reads kind hc
  rw [← h.var.pattern] at he
  obtain ⟨n, hn⟩ := h.var.group
  refine ⟨e, he, hl, hn ▸ isGroupName_index n, fun v => ?_⟩
  rw [Validator.isValid, Bool.and_eq_true, isMatch_anchored h.var.regex he]

/-- The constraints of the variables of a template, in order. -/
def Template.constraints (kind : TemplateKind) (source : String) : List (Option String) :=
  ((Cut.ofChars? (splitKey kind source.toList).2).elim [] (·.spans)).map fun span => constraint? span.2

theorem Template.mem_constraints {kind : TemplateKind} {source : String} {cut : Cut}
    {span : List Char × List Char} (hcut : Cut.ofChars? (splitKey kind source.toList).2 = some cut)
    (hspan : span ∈ cut.spans) : constraint? span.2 ∈ constraints kind source := by
  rw [constraints, hcut]
  exact List.mem_map_of_mem hspan

theorem exists_holes {kind : TemplateKind} {P : Slot → Pattern → Prop} {spans : List (List Char × List Char)}
    {slots : List Slot} (h : List.Forall₂ (Slot.Made kind) spans slots)
    (hP : ∀ span ∈ spans, ∀ s : Slot, s.Made kind span → ∃ e, P s e) :
    ∃ hs : List (Slot × Pattern), hs.map (·.1) = slots ∧ ∀ x ∈ hs, P x.1 x.2 := by
  induction h with
  | nil => exact ⟨[], rfl, nofun⟩
  | @cons span s spans slots hs _ ih =>
    obtain ⟨e, he⟩ := hP span List.mem_cons_self s hs
    obtain ⟨rest, rfl, hrest⟩ := ih fun x hx => hP x (List.mem_cons_of_mem _ hx)
    refine ⟨(s, e) :: rest, rfl, ?_⟩
    intro x hx
    rcases List.mem_cons.mp hx with rfl | hx
    · exact he
    · exact hrest x hx

theorem exists_reads {kind : TemplateKind} {spans : List (List Char × List Char)} {slots : List Slot}
    (h : List.Forall₂ (Slot.Made kind) spans slots)
    (hc : ∀ span ∈ spans, SelfContained (constraint? span.2)) :
    ∃ hs : List (Slot × Pattern), hs.map (·.1) = slots ∧ ∀ x ∈ hs, x.1.Reads x.2 :=
  exists_holes h fun span hspan _ hs => hs.reads (hc span hspan)

theorem spells_slots {hs : List (Slot × Pattern)} (h : ∀ x ∈ hs, x.1.Parses x.2) :
    Spells ((hs.map (·.1)).flatMap Template.Slot.regexText) (holes hs) := by
  induction hs with
  | nil => exact Spells.nil
  | cons x hs ih =>
    obtain ⟨s, e⟩ := x
    have hx := h (s, e) List.mem_cons_self
    have hgroup := (Spells.literal s.before).append (Spells.named hx.pattern hx.group)
    have htext : Template.Slot.regexText s = Regex.literal s.before ++
        ("(?P<".toList ++ s.var.group.toList ++ '>' :: s.var.pattern.toList ++ [')']) := by
      simp [Template.Slot.regexText]
    have hall := hgroup.append (ih fun x hx => h x (List.mem_cons_of_mem _ hx))
    rw [← htext, List.append_assoc] at hall
    exact hall

def optionalSlash : Pattern := copies (.one (.union .none (.range '/' '/'))) 0 (some 1) true

theorem spells_optionalSlash : Spells "[/]?$".toList [optionalSlash, look .textEnd] := by
  refine ⟨[.atom (.cls (.bracket false (.union .nothing (.range '/' '/')))), .quantity 0 (some 1) true,
    .atom .dollar], fun t us ht => ?_, ?_⟩
  · exact .cons (t := '?' :: '$' :: t) rfl (.cons (t := '$' :: t) rfl (.cons rfl ht))
  · intro r x fs us hr hx
    obtain ⟨r₁, hr₁, hx⟩ := hr.repeated hx
    obtain ⟨r₂, hr₂, hx⟩ := hr₁.atom hx
    rw [List.append_assoc] at hr₂
    exact ⟨r₂, hr₂, hx⟩

/-- The parts behind the last literal text: a slash or not, and the end unless anything may follow. -/
def closing (kind : TemplateKind) (strict : Bool) : List Pattern :=
  (if strict then [optionalSlash] else []) ++ (if kind = .leading then [] else [look .textEnd])

theorem spells_closing (kind : TemplateKind) {strict : Bool} (h : strict = true → kind ≠ .leading) :
    Spells ((if strict then "[/]?".toList else []) ++ (if kind = .leading then [] else ['$']))
      (closing kind strict) := by
  have hend : Spells ['$'] [look .textEnd] := .char (a := .dollar) fun _ => rfl
  cases strict with
  | true =>
    rw [closing, if_neg (h rfl), if_neg (h rfl)]
    exact spells_optionalSlash
  | false =>
    by_cases hk : kind = .leading
    · rw [closing, if_pos hk, if_pos hk]
      exact .nil
    · rw [closing, if_neg hk, if_neg hk]
      exact hend

theorem spells_regexBody {kind : TemplateKind} {slots : List Slot} {hs : List (Slot × Pattern)}
    (hmap : hs.map (·.1) = slots) (hparse : ∀ x ∈ hs, x.1.Parses x.2) (tail : List Char) {strict : Bool}
    (hstrict : strict = true → kind ≠ .leading) :
    Spells (Template.regexBody kind strict false slots tail)
      (holes hs ++ (tail.map charPart ++ closing kind strict)) := by
  have hall := (spells_slots hparse).append ((Spells.literal tail).append (spells_closing kind hstrict))
  rw [hmap] at hall
  simpa [Template.regexBody] using hall

/-- The parts behind the last variable: the literal text and the end, with a slash before it or not. -/
def ending (strict : Bool) (tail : List Char) : List Pattern :=
  tail.map charPart ++ ((if strict then [optionalSlash] else []) ++ [look .textEnd])

section Search

variable {text tail : List Char} {hs : List (Slot × Pattern)} {strict : Bool} {i j : Nat}

theorem spans_optionalSlash :
    optionalSlash.Spans text i j ↔ i = j ∧ j ≤ text.length ∨ j = i + 1 ∧ text[i]? = some '/' := by
  have hmem : ∀ c, (CharSet.union .none (.range '/' '/')).mem c = true ↔ c = '/' := by
    intro c
    rw [← CharSet.mem_single '/' c]
    simp [CharSet.mem, CharSet.single]
  rw [optionalSlash, spans_optional]
  simp only [spans_one, hmem, exists_eq_right]

def ExtraSlash (strict : Bool) (slash : List Char) : Prop := slash = [] ∨ strict = true ∧ slash = ['/']

theorem spans_ending {slash : List Char} (hslash : ExtraSlash strict slash)
    (h : text.drop i = tail ++ slash) (hi : i ≤ text.length) :
    (concat (ending strict tail)).Spans text i text.length := by
  have hdrop := drop_add h
  have hlen : (text.drop i).length = tail.length + slash.length := by rw [h, List.length_append]
  rw [List.length_drop] at hlen
  refine spans_literal h ?_
  have hend : (concat [look .textEnd]).Spans text text.length text.length := spans_textEnd.mpr ⟨rfl, rfl⟩
  rcases hslash with rfl | ⟨rfl, rfl⟩
  · have hplace : i + tail.length = text.length := by
      rw [List.length_nil] at hlen
      omega
    cases strict with
    | false => simpa [hplace] using hend
    | true =>
      refine spans_concat_cons.mpr ⟨_, spans_optionalSlash.mpr (.inl ⟨rfl, by omega⟩), ?_⟩
      simpa [hplace] using hend
  · have hplace : i + tail.length + 1 = text.length := by
      rw [List.length_singleton] at hlen
      omega
    refine spans_concat_cons.mpr
      ⟨_, spans_optionalSlash.mpr (.inr ⟨rfl, (getElem?_of_drop hdrop).1⟩), ?_⟩
    simpa [hplace] using hend

theorem run_ending {p q : Progress} (h : Run text (ending strict tail) p q) :
    ∃ slash, ExtraSlash strict slash ∧ text.drop p.place = tail ++ slash := by
  obtain ⟨m, htext, -, h⟩ := run_literal h
  have hnil : ∀ {m q : Progress}, Run text [look .textEnd] m q → text.drop m.place = [] := by
    intro m q h
    cases h with
    | cons hlook _ =>
      obtain ⟨-, -, ha⟩ := spans_look.mp hlook.spans
      simpa [Assertion.holds] using ha
  cases strict with
  | false => exact ⟨[], .inl rfl, by rw [htext, hnil h]⟩
  | true =>
    cases h with
    | cons hslash h =>
      rename_i m'
      rcases spans_optionalSlash.mp hslash.spans with ⟨hplace, -⟩ | ⟨hplace, hc⟩
      · exact ⟨[], .inl rfl, by rw [htext, hplace, hnil h]⟩
      · obtain ⟨hlt, hget⟩ := List.getElem?_eq_some_iff.mp hc
        refine ⟨['/'], .inr ⟨rfl, rfl⟩, ?_⟩
        rw [htext, List.drop_eq_getElem_cons hlt, hget, ← hplace, hnil h]

end Search

namespace Template

/-- The pattern of the template is the literal text and the groups of its slots, up to the end. -/
structure Laid (t : Template) (strict : Bool) (tail : List Char) (hs : List (Slot × Pattern)) : Prop where
  slots : hs.map (·.1) = t.slots
  reads : ∀ x ∈ hs, x.1.Reads x.2
  expr : t.regex.expr = concat (look .textStart :: (holes hs ++ ending strict tail))
  disjoint : (look .textStart :: (holes hs ++ ending strict tail)).Pairwise
    fun e f => ∀ n ∈ e.groups, n ∉ f.groups

variable {t : Template} {strict : Bool} {tail : List Char} {hs : List (Slot × Pattern)}

/-- A pattern that is put together from slots whose constraints stand for themselves is laid out like that. -/
theorem laid_of_compile? {spans : List (List Char × List Char)} (hslots : List.Forall₂ (Slot.Made t.kind) spans t.slots)
    (hc : ∀ span ∈ spans, SelfContained (constraint? span.2)) (hk : t.kind ≠ .leading)
    (hregex : Regex.compile? (String.ofList ('^' :: regexBody t.kind strict false t.slots tail)) = some t.regex) :
    ∃ hs, t.Laid strict tail hs := by
  obtain ⟨hs, hmap, hreads⟩ := exists_reads hslots hc
  have hstart : Spells ['^'] [look .textStart] := .char (a := .caret) fun _ => rfl
  have hread := (read?_of_compile? hregex).1
  rw [String.toList_ofList] at hread
  obtain ⟨hexpr, hd⟩ := eq_concat_of_read?
    (hstart.append (spells_regexBody hmap (fun x hx => (hreads x hx).parses) tail fun _ => hk)) hread
  rw [closing, if_neg hk] at hexpr hd
  exact ⟨hs, hmap, hreads, hexpr, hd⟩

theorem Made.laid (h : t.Made) (hk : t.kind ≠ .leading) (hp : t.presenceOnly = false)
    (hc : ∀ c ∈ constraints t.kind t.source, SelfContained c) :
    ∃ hs tail slash, t.Laid (t.options.strictSlash ∧ t.kind = .path) tail hs ∧ t.tail = tail ++ slash ∧
      ExtraSlash (t.options.strictSlash ∧ t.kind = .path) slash := by
  obtain ⟨cut, hcut, hslots⟩ := h.cut
  obtain ⟨tail, slash, htail, hslash, hregex⟩ := h.regex
  have hextra : ExtraSlash (t.options.strictSlash ∧ t.kind = .path) slash := by
    rcases hslash with h | ⟨h₁, h₂, h⟩
    · exact .inl h
    · exact .inr ⟨by simp [h₁, h₂], h⟩
  rw [hp] at hregex
  obtain ⟨hs, hlaid⟩ := laid_of_compile? hslots (fun span hspan => hc _ (mem_constraints hcut hspan)) hk hregex
  exact ⟨hs, tail, slash, hlaid, htail, hextra⟩

theorem Laid.lookFree (hl : t.Laid strict tail hs) : ∀ x ∈ hs, x.2.lookFree = true :=
  fun x hx => (hl.reads x hx).lookFree

theorem Laid.search_cuts (hl : t.Laid strict tail hs) {text : List Char} {f : Found}
    (h : t.regex.expr.search text = some f) :
    ∃ us slash, ExtraSlash strict slash ∧ text = spread t.slots us ++ (tail ++ slash) ∧
      List.Forall₂ (fun x u => x.2.Accepts u ∧ f.group? text x.1.var.group = some u) hs us := by
  rw [hl.expr] at h
  cases search_run h with
  | cons hstart hrun =>
    obtain ⟨-, hplace⟩ := spans_look_textStart.mp hstart.spans
    obtain ⟨us, m, hdrop, hrest, hall⟩ := run_holes hl.lookFree (List.pairwise_cons.mp hl.disjoint).2 hrun
    obtain ⟨slash, hslash, hend⟩ := run_ending hrest
    rw [hplace, List.drop_zero, hend, hl.slots] at hdrop
    exact ⟨us, slash, hslash, hdrop, hall⟩

theorem Laid.search_isSome (hl : t.Laid strict tail hs) {text : List Char} {us : List (List Char)}
    {slash : List Char} (ha : List.Forall₂ (fun x u => x.2.Accepts u) hs us) (hslash : ExtraSlash strict slash)
    (htext : text = spread t.slots us ++ (tail ++ slash)) : (t.regex.expr.search text).isSome = true := by
  rw [← hl.slots] at htext
  have hdrop : text.drop 0 = spread (hs.map (·.1)) us ++ (tail ++ slash) := htext
  have hend : text.drop (0 + (spread (hs.map (·.1)) us).length) = tail ++ slash := drop_add hdrop
  have hle : 0 + (spread (hs.map (·.1)) us).length ≤ text.length := by
    rw [htext]
    simp
  have hspans := spans_holes hl.lookFree ha hdrop (spans_ending hslash hend hle)
  rw [hl.expr, search_isSome_iff]
  exact ⟨0, _, spans_textStart.mpr ⟨rfl, hspans⟩⟩

end Template

end RequestRouter
