import Mathlib.Data.String.Basic
import RequestRouter.Proofs.Pattern.Language
import RequestRouter.Proofs.Regex.Words
import RequestRouter.Proofs.Text.Coding
/-!
Domain names. The constraint `domain` stands for a pattern and a rule on lengths beside it. Together they accept the
names made of labels between dots, and a template captures nothing else for a variable with that constraint: its group
stands for a stretch that the pattern spans, whatever the constraints of the other variables are.
-/
namespace RequestRouter

open RequestRouter.Text RequestRouter.Regex RequestRouter.Regex.Expr

/-- A label of a domain name: letters, digits and hyphens of ASCII, with no hyphen at either end. -/
structure IsLabel (l : List Char) : Prop where
  nonempty : 1 ≤ l.length
  short : l.length ≤ 63
  chars : ∀ c ∈ l, c.isAlphanum = true ∨ c = '-'
  first : l.head? ≠ some '-'
  last : l.getLast? ≠ some '-'

/-- A domain name: labels between dots, in at most 253 octets. -/
structure IsDomain (name : String) : Prop where
  short : name.utf8ByteSize ≤ 253
  labels : ∀ l ∈ name.toList.splitOn '.', IsLabel l

namespace Domain

def letterOrDigit : CharSet := .union (.union (.union .none (.range 'a' 'z')) (.range 'A' 'Z')) (.range '0' '9')

def labelChar : CharSet := .union letterOrDigit (.range '-' '-')

/-- What follows the first character of a label, if anything does: characters between, and a last one. -/
def labelRest : List Pattern := [copies (one labelChar) 0 (some 61) true, one letterOrDigit]

def labelParts : List Pattern := [one letterOrDigit, copies (concat labelRest) 0 (some 1) true]

def pattern : Pattern :=
  concat (copies (concat (labelParts ++ [one (.single '.')])) 0 none true :: labelParts)

theorem read?_pattern : ∃ s, Shorthand.lookup? "domain" = some s ∧ s.extra = some .domainLengths ∧
    read? s.pattern.toList = some pattern := by
  have hread : ((Shorthand.lookup? "domain").bind fun s => read? s.pattern.toList) = some pattern := by
    decide +kernel
  exact ⟨_, rfl, rfl, hread⟩

section Characters

variable {c : Char}

theorem mem_range {lo hi : Char} :
    (CharSet.range lo hi).mem c = true ↔ lo.toNat ≤ c.toNat ∧ c.toNat ≤ hi.toNat := by
  rw [CharSet.mem, Bool.and_eq_true, decide_eq_true_eq, decide_eq_true_eq]

theorem mem_lower : (CharSet.range 'a' 'z').mem c = true ↔ c.isLower = true := by
  have hlower : c.isLower = true ↔ c.val ≥ 'a'.val ∧ c.val ≤ 'z'.val :=
    Bool.and_eq_true_iff.trans (and_congr decide_eq_true_iff decide_eq_true_iff)
  rw [hlower, mem_range]
  exact and_congr UInt32.le_iff_toNat_le.symm UInt32.le_iff_toNat_le.symm

theorem mem_upper : (CharSet.range 'A' 'Z').mem c = true ↔ c.isUpper = true := by
  have hupper : c.isUpper = true ↔ c.val ≥ 'A'.val ∧ c.val ≤ 'Z'.val := decide_eq_true_iff
  rw [hupper, mem_range]
  exact and_congr UInt32.le_iff_toNat_le.symm UInt32.le_iff_toNat_le.symm

theorem mem_digit : (CharSet.range '0' '9').mem c = true ↔ c.isDigit = true :=
  mem_range.trans Char.isDigit_iff_toNat.symm

theorem mem_letterOrDigit : letterOrDigit.mem c = true ↔ c.isAlphanum = true := by
  have hor : c.isAlphanum = true ↔ (c.isUpper = true ∨ c.isLower = true) ∨ c.isDigit = true :=
    Bool.or_eq_true_iff.trans (or_congr_left Bool.or_eq_true_iff)
  rw [hor, or_comm (a := c.isUpper = true), ← mem_lower, ← mem_upper, ← mem_digit]
  simp only [letterOrDigit, CharSet.mem, Bool.or_eq_true, Bool.false_or]

theorem mem_labelChar : labelChar.mem c = true ↔ c.isAlphanum = true ∨ c = '-' := by
  have hhyphen : (CharSet.range '-' '-').mem c = true ↔ c = '-' := CharSet.mem_single '-' c
  rw [labelChar, CharSet.mem, Bool.or_eq_true, mem_letterOrDigit, hhyphen]

theorem isAlphanum_ne_hyphen (h : c.isAlphanum = true) : c ≠ '-' := by
  rintro rfl
  exact absurd h (by decide)

end Characters

section Labels

variable {w mid : List Char} {c d : Char}

theorem isLabel_singleton : IsLabel [c] ↔ c.isAlphanum = true := by
  constructor
  · intro h
    exact (h.chars c (List.mem_singleton_self c)).resolve_right fun hc => h.first (congrArg some hc)
  · intro h
    have hends : some c ≠ some '-' := fun hc => isAlphanum_ne_hyphen h (Option.some.inj hc)
    exact ⟨Nat.le_refl 1, Nat.le_add_left 1 62, List.forall_mem_singleton.mpr (.inl h), hends, hends⟩

theorem isLabel_ends : IsLabel (c :: (mid ++ [d])) ↔ c.isAlphanum = true ∧
    (mid.length ≤ 61 ∧ ∀ x ∈ mid, x.isAlphanum = true ∨ x = '-') ∧ d.isAlphanum = true := by
  have hlast : (c :: (mid ++ [d])).getLast? = some d := List.getLast?_concat (l := c :: mid)
  have hlength : (c :: (mid ++ [d])).length = mid.length + 2 := by simp
  constructor
  · intro h
    obtain ⟨hc, hrest⟩ := List.forall_mem_cons.mp h.chars
    obtain ⟨hmid, hd⟩ := List.forall_mem_append.mp hrest
    have hshort := h.short
    rw [hlength] at hshort
    exact ⟨hc.resolve_right fun hc => h.first (congrArg some hc), ⟨by omega, hmid⟩,
      (hd d (List.mem_singleton_self d)).resolve_right fun hd => h.last (hlast.trans (congrArg some hd))⟩
  · rintro ⟨hc, ⟨hshort, hmid⟩, hd⟩
    refine ⟨by omega, by omega, ?_, fun h => isAlphanum_ne_hyphen hc (Option.some.inj h), ?_⟩
    · exact List.forall_mem_cons.mpr
        ⟨.inl hc, List.forall_mem_append.mpr ⟨hmid, List.forall_mem_singleton.mpr (.inl hd)⟩⟩
    · rw [hlast]
      exact fun h => isAlphanum_ne_hyphen hd (Option.some.inj h)

theorem lookFree_labelParts : ∀ e ∈ labelParts, e.lookFree = true := by decide

theorem accepts_labelRest : (concat labelRest).Accepts w ↔ ∃ mid d, w = mid ++ [d] ∧
    (mid.length ≤ 61 ∧ ∀ x ∈ mid, x.isAlphanum = true ∨ x = '-') ∧ d.isAlphanum = true := by
  rw [labelRest, accepts_concat_cons (by decide) (by decide)]
  simp only [concat, accepts_copies_one, accepts_one, mem_letterOrDigit, mem_labelChar]
  constructor
  · rintro ⟨mid, _, rfl, hmid, d, rfl, hd⟩
    exact ⟨mid, d, rfl, hmid, hd⟩
  · rintro ⟨mid, d, rfl, hmid, hd⟩
    exact ⟨mid, [d], rfl, hmid, d, rfl, hd⟩

theorem accepts_labelParts : (concat labelParts).Accepts w ↔ IsLabel w := by
  rw [labelParts, accepts_concat_cons (by decide) (by decide)]
  simp only [concat, accepts_optional (e := concat labelRest) (by decide), accepts_one, mem_letterOrDigit,
    accepts_labelRest]
  constructor
  · rintro ⟨_, _, rfl, ⟨c, rfl, hc⟩, rfl | ⟨mid, d, rfl, hmid, hd⟩⟩
    · exact isLabel_singleton.mpr hc
    · exact isLabel_ends.mpr ⟨hc, hmid, hd⟩
  · intro h
    obtain ⟨c, v, rfl⟩ := List.exists_cons_of_length_pos h.nonempty
    obtain rfl | ⟨mid, d, rfl⟩ := List.eq_nil_or_concat' v
    · exact ⟨[c], [], rfl, ⟨c, rfl, isLabel_singleton.mp h⟩, .inl rfl⟩
    · obtain ⟨hc, hmid, hd⟩ := isLabel_ends.mp h
      exact ⟨[c], mid ++ [d], rfl, ⟨c, rfl, hc⟩, .inr ⟨mid, d, rfl, hmid, hd⟩⟩

theorem dot_notMem (h : IsLabel w) : '.' ∉ w := by
  intro hdot
  exact absurd (h.chars '.' hdot) (by decide)

theorem accepts_dotted :
    (concat (labelParts ++ [one (.single '.')])).Accepts w ↔ ∃ l, w = l ++ ['.'] ∧ IsLabel l := by
  rw [accepts_concat_append lookFree_labelParts (by decide)]
  simp only [accepts_labelParts, concat, accepts_one, CharSet.mem_single]
  constructor
  · rintro ⟨l, _, rfl, hl, _, rfl, rfl⟩
    exact ⟨l, rfl, hl⟩
  · rintro ⟨l, rfl, hl⟩
    exact ⟨l, ['.'], rfl, hl, '.', rfl, rfl⟩

theorem accepts_labels : (copies (concat (labelParts ++ [one (.single '.')])) 0 none true).Accepts w ↔
    ∃ ls : List (List Char), w = (ls.map (· ++ ['.'])).flatten ∧ ∀ l ∈ ls, IsLabel l := by
  rw [accepts_star_iff (by decide)]
  simp only [accepts_dotted]
  constructor
  · rintro ⟨ws, rfl, hws⟩
    induction ws with
    | nil => exact ⟨[], rfl, List.forall_mem_nil _⟩
    | cons u ws ih =>
      obtain ⟨⟨l, rfl, hl⟩, htail⟩ := List.forall_mem_cons.mp hws
      obtain ⟨ls, hflat, hls⟩ := ih htail
      refine ⟨l :: ls, ?_, List.forall_mem_cons.mpr ⟨hl, hls⟩⟩
      rw [List.flatten_cons, hflat, List.map_cons, List.flatten_cons]
  · rintro ⟨ls, rfl, hls⟩
    exact ⟨_, rfl, List.forall_mem_map.mpr fun l hl => ⟨l, rfl, hls l hl⟩⟩

theorem intercalate_concat (ls : List (List Char)) (last : List Char) :
    ['.'].intercalate (ls ++ [last]) = (ls.map (· ++ ['.'])).flatten ++ last := by
  induction ls with
  | nil => simp
  | cons l ls ih =>
    obtain ⟨m, rest, hrest⟩ := List.exists_cons_of_ne_nil (List.concat_ne_nil last ls)
    rw [List.cons_append, hrest, List.intercalate_cons_cons, ← hrest, ih, List.map_cons, List.flatten_cons,
      List.append_assoc _ _ last]

theorem accepts_pattern : pattern.Accepts w ↔ ∀ l ∈ w.splitOn '.', IsLabel l := by
  rw [pattern, accepts_concat_cons (by decide) lookFree_labelParts]
  simp only [accepts_labels, accepts_labelParts]
  constructor
  · rintro ⟨_, last, rfl, ⟨ls, rfl, hls⟩, hlast⟩
    have hall : ∀ l ∈ ls ++ [last], IsLabel l :=
      List.forall_mem_append.mpr ⟨hls, List.forall_mem_singleton.mpr hlast⟩
    rw [← intercalate_concat, List.splitOn_intercalate '.' (fun l hl => dot_notMem (hall l hl)) (by simp)]
    exact hall
  · intro h
    obtain hnil | ⟨ls, last, hpieces⟩ := List.eq_nil_or_concat' (w.splitOn '.')
    · exact absurd hnil (List.splitOn_ne_nil '.' w)
    · rw [hpieces] at h
      obtain ⟨hls, hlast⟩ := List.forall_mem_append.mp h
      refine ⟨_, last, ?_, ⟨ls, rfl, hls⟩, List.forall_mem_singleton.mp hlast⟩
      rw [← intercalate_concat, ← hpieces, List.intercalate_splitOn]

end Labels

section Lengths

variable {w : List Char} {c : Char}

theorem utf8Size_labelChar (h : c.isAlphanum = true ∨ c = '-') : c.utf8Size = 1 := by
  rw [Char.utf8Size_eq_one_iff, UInt32.le_iff_toNat_le]
  rcases h with h | rfl
  · exact Nat.le_trans (isAlphanum_bounds h).2 (by decide)
  · decide

theorem utf8ByteSize_label (h : IsLabel w) : (String.ofList w).utf8ByteSize = w.length := by
  have hsize := h.chars
  clear h
  rw [String.utf8ByteSize_ofList]
  induction w with
  | nil => rfl
  | cons c w ih =>
    obtain ⟨hc, hw⟩ := List.forall_mem_cons.mp hsize
    rw [String.utf8Len_cons, ih hw, utf8Size_labelChar hc, List.length_cons]

end Lengths

theorem isDomain_iff {v : String} :
    IsDomain v ↔ pattern.Accepts v.toList ∧ ExtraCheck.domainLengths.accepts v = true := by
  rw [accepts_pattern]
  constructor
  · intro h
    refine ⟨h.labels, ?_⟩
    simp only [ExtraCheck.accepts, Bool.and_eq_true, decide_eq_true_eq, List.all_eq_true, Bool.not_eq_true',
      List.isEmpty_eq_false_iff]
    refine ⟨h.short, fun l hl => ⟨?_, ?_⟩⟩
    · exact List.ne_nil_of_length_pos (h.labels l hl).nonempty
    · rw [utf8ByteSize_label (h.labels l hl)]
      exact (h.labels l hl).short
  · rintro ⟨hlabels, hlengths⟩
    simp only [ExtraCheck.accepts, Bool.and_eq_true, decide_eq_true_eq] at hlengths
    exact ⟨hlengths.1, hlabels⟩

theorem isValid_domain : ∃ s, Shorthand.lookup? "domain" = some s ∧
    ∀ v, s.validator.isValid v = true ↔ IsDomain v := by
  obtain ⟨s, hs, hextra, hread⟩ := read?_pattern
  have hcompiles := shorthand_compiles s (List.mem_of_find?_eq_some hs)
  refine ⟨s, hs, fun v => ?_⟩
  rw [Validator.isValid, Bool.and_eq_true, isMatch_anchored hcompiles hread, Validator.acceptsExtra,
    isDomain_iff]
  simp only [Shorthand.validator, Shorthand.validatorWith, hextra, Option.all_some]

end Domain

/-- What a match gives to a slot: a stretch of the text which the pattern of the variable spans and the rule beside
that pattern accepts. -/
structure Slot.Takes (text : List Char) (s : Slot) (w : String × String) : Prop where
  name : w.1 = s.var.name
  spans : ∃ e i j, read? s.var.pattern.toList = some e ∧ e.Spans text i j ∧ w.2.toList = stretch text i j
  extra : s.var.validator.acceptsExtra w.2 = true

theorem Slot.Takes.isDomain {kind : TemplateKind} {span : List Char × List Char} {s : Slot} (h : s.Made kind span)
    {text : List Char} {w : String × String} (hw : s.Takes text w) (hc : constraint? span.2 = some "domain") :
    IsDomain w.2 := by
  obtain ⟨d, hd, hextra, hread⟩ := Domain.read?_pattern
  obtain ⟨e, i, j, he, hspans, hvalue⟩ := hw.spans
  have haccepts := hw.extra
  rw [h.var.pattern, hc, constraintPattern, hd, Option.map_some, Option.getD_some, hread] at he
  obtain rfl := Option.some.inj he
  rw [Validator.acceptsExtra, h.var.extra, hc, constraintExtra, Option.bind_some, hd, Option.bind_some, hextra,
    Option.all_some] at haccepts
  refine Domain.isDomain_iff.mpr ⟨?_, haccepts⟩
  rw [hvalue]
  exact hspans.accepts_stretch (by decide)

namespace Template

variable {t : Template} {cut : Cut} {kind : TemplateKind}

/-- The slots of a match take stretches which their patterns span, wherever the search began. -/
theorem takes_of_search {hs : List (Slot × Pattern)} (hparse : ∀ x ∈ hs, x.1.Parses x.2) {e : Pattern}
    {es : List Pattern} (hd : (e :: (holes hs ++ es)).Pairwise fun e f => ∀ n ∈ e.groups, n ∉ f.groups)
    {text : List Char} {found : Found} (h : (concat (e :: (holes hs ++ es))).search text = some found)
    {ws : List (String × String)} (hws : values (hs.map (·.1)) found text = some ws) :
    List.Forall₂ (Slot.Takes text) (hs.map (·.1)) ws := by
  cases search_run h with
  | cons _ hrun =>
    have hcaptures := run_holes_spans (List.pairwise_cons.mp hd).2 hrun
    rw [values_eq_some, List.forall₂_map_left_iff] at hws
    rw [List.forall₂_map_left_iff]
    refine ((List.forall₂_and_left ..).mpr ⟨fun x hx => And.intro (hparse x hx) (hcaptures x hx), hws⟩).imp ?_
    rintro ⟨s, f⟩ w ⟨⟨hparse, i, j, hspans, hfind⟩, hname, hextra⟩
    have hgroup : found.group? text s.var.group = some (stretch text i j) := by
      rw [Found.group?, hfind]
      rfl
    refine ⟨congrArg Prod.fst hname, ⟨f, i, j, hparse.pattern, hspans, ?_⟩, hextra⟩
    rw [hname, hgroup, Option.getD_some, String.toList_ofList]

theorem Built.slots_eq_nil (h : t.Built cut) (hp : t.presenceOnly = true) : t.slots = [] := by
  obtain ⟨hquery, hempty⟩ := h.presenceOnly.mp hp
  have hslash : ¬ t.DropsSlash := fun hd => nomatch hquery.symm.trans hd.1.2
  have hcore : t.core = [] := by rw [core, if_neg hslash, List.isEmpty_iff.mp hempty]
  have hcut : some (⟨[], []⟩ : Cut) = some cut := by rw [← h.ofChars, hcore]; rfl
  have hslots := h.slots
  rw [← Option.some.inj hcut] at hslots
  exact List.forall₂_nil_left_iff.mp hslots

/-- Whatever stands in front of the pattern of a template, its slots take stretches which their patterns span. -/
theorem Built.takes (h : t.Built cut) (hown : ∀ span ∈ cut.spans, OnItsOwn (constraint? span.2))
    {start : List Char} {e : Pattern} (hstart : Spells start [e]) {r : RequestRouter.Regex}
    (hr : Regex.compile? (String.ofList (start ++ t.pattern cut.tail)) = some r) {text : String}
    {ws : List (String × String)} (hws : t.capturesWith r text = some ws) :
    List.Forall₂ (Slot.Takes text.toList) t.slots ws := by
  obtain ⟨found, hfound, hvalues⟩ := Option.bind_eq_some_iff.mp hws
  cases hp : t.presenceOnly with
  | true =>
    rw [h.slots_eq_nil hp] at hvalues ⊢
    obtain rfl := List.forall₂_nil_left_iff.mp (values_eq_some.mp hvalues)
    exact .nil
  | false =>
    have hstrict : decide t.Strict = true → t.kind ≠ .leading :=
      fun hs hl => nomatch hl.symm.trans (of_decide_eq_true hs).2
    obtain ⟨hs, hmap, hparse⟩ := exists_holes h.slots fun span hspan s hm => hm.parses (hown span hspan)
    have hread := (read?_of_compile? hr).1
    rw [String.toList_ofList, pattern, hp] at hread
    obtain ⟨hexpr, hd⟩ := eq_concat_of_read? (hstart.append (spells_regexBody hmap hparse _ hstrict)) hread
    rw [← hmap] at hvalues ⊢
    rw [Regex.search, hexpr] at hfound
    exact takes_of_search hparse hd hfound hvalues

theorem suffix_eq_none {source : String} {options : TemplateOptions} {cache cache' : PatternCache}
    (h : compile source kind options cache = (.ok t, cache')) (hk : kind ≠ .host) : t.suffix = none := by
  unfold compile compileWith compileWhole at h
  dsimp only at h
  split at h
  · cases h
  · split at h
    · cases h
    · split at h
      · cases h
      · rename_i hwhole
        cases h
        split at hwhole
        · cases hwhole
        · rw [if_neg hk] at hwhole
          cases hwhole
          rfl

theorem takes_of_captures {cache cache' : PatternCache}
    (h : compile t.source t.kind t.options cache = (.ok t, cache')) (hbuilt : t.Built cut)
    (hown : ∀ span ∈ cut.spans, OnItsOwn (constraint? span.2)) {text : String} {ws : List (String × String)}
    (hws : t.captures text = some ws ∨ t.capturesSuffix text = some ws) :
    List.Forall₂ (Slot.Takes text.toList) t.slots ws := by
  have hstart : Spells ['^'] [look .textStart] := .char (a := .caret) fun _ => rfl
  have hwhole (hws : t.capturesWith t.regex text = some ws) := hbuilt.takes hown hstart hbuilt.regex hws
  rcases hws with hws | hws
  · exact hwhole hws
  · rw [capturesSuffix] at hws
    by_cases hk : t.kind = .host
    · obtain ⟨hsuffix, hsome⟩ := hbuilt.suffix hk
      obtain ⟨r, hr⟩ := Option.isSome_iff_exists.mp hsome
      rw [hr] at hsuffix hws
      exact hbuilt.takes hown spells_labelStart hsuffix hws
    · rw [suffix_eq_none h hk] at hws
      exact hwhole hws

/-- The variables of a template with their constraints, in order. -/
def declared (kind : TemplateKind) (source : String) : List (String × Option String) :=
  ((Cut.ofChars? (splitKey kind source.toList).2).elim [] (·.spans)).map fun span =>
    (String.ofList (Form.cut ':' span.2).1, constraint? span.2)

theorem isDomain_of_takes {spans : List (List Char × List Char)} {slots : List Slot} {text : List Char}
    {ws : List (String × String)} (h : List.Forall₂ (Slot.Made kind) spans slots)
    (hws : List.Forall₂ (Slot.Takes text) slots ws) :
    List.Forall₂ (fun span w => w.1 = String.ofList (Form.cut ':' span.2).1 ∧
      (constraint? span.2 = some "domain" → IsDomain w.2)) spans ws := by
  induction h generalizing ws with
  | nil =>
    cases hws
    exact .nil
  | cons hs _ ih =>
    cases hws with
    | cons hw hws => exact .cons ⟨hw.name.trans hs.var.name, hw.isDomain hs⟩ (ih hws)

/-- The check of the constraint `domain` accepts the domain names, and nothing else is captured for a variable with
that constraint, whichever of its patterns a template is matched with. -/
theorem captures_domain {source : String} {kind : TemplateKind} {options : TemplateOptions}
    {cache cache' : PatternCache} {t : Template} (hcache : cache.Faithful)
    (h : compile source kind options cache = (.ok t, cache')) (hown : ∀ c ∈ constraints kind source, OnItsOwn c) :
    (∃ s, Shorthand.lookup? "domain" = some s ∧ ∀ v, s.validator.isValid v = true ↔ IsDomain v) ∧
      ∀ text ws, t.captures text = some ws ∨ t.capturesSuffix text = some ws →
        List.Forall₂ (fun v w => w.1 = v.1 ∧ (v.2 = some "domain" → IsDomain w.2)) (declared kind source) ws := by
  obtain ⟨rfl, rfl, rfl, ⟨cut, hbuilt⟩, -⟩ := compile_built hcache h
  obtain ⟨tail, hcut⟩ := ofChars?_body hbuilt.ofChars
  have hdeclared : declared t.kind t.source =
      cut.spans.map fun span => (String.ofList (Form.cut ':' span.2).1, constraint? span.2) := by
    rw [declared, ← body, hcut, Option.elim_some]
  rw [hdeclared]
  refine ⟨Domain.isValid_domain, fun text ws hws => ?_⟩
  rw [List.forall₂_map_left_iff]
  exact isDomain_of_takes hbuilt.slots (takes_of_captures h hbuilt (hbuilt.onItsOwn hown) hws)

/-- A tenant has a name of two labels; the zone behind it is a pattern of its own. -/
theorem captures_domain_tenant :
    ∃ t cache', compile "{tenant:domain}.{zone:[a-z]+}.com" .host ⟨false, false⟩ .new = (.ok t, cache') ∧
      t.captures "a-1.b.shop.com" = some [("tenant", "a-1.b"), ("zone", "shop")] ∧ IsDomain "a-1.b" := by
  have hcompiled : ((compile "{tenant:domain}.{zone:[a-z]+}.com" .host ⟨false, false⟩ .new).1.toOption.bind
      (·.captures "a-1.b.shop.com")) = some [("tenant", "a-1.b"), ("zone", "shop")] := by decide +kernel
  obtain ⟨t, ht, hcaptures⟩ := Option.bind_eq_some_iff.mp hcompiled
  have hdeclared : declared .host "{tenant:domain}.{zone:[a-z]+}.com" =
      [("tenant", some "domain"), ("zone", some "[a-z]+")] := by decide +kernel
  have hconstraints : constraints .host "{tenant:domain}.{zone:[a-z]+}.com" = [some "domain", some "[a-z]+"] := by
    decide +kernel
  have hzone : (Regex.compile? "[a-z]+").isSome = true := by decide +kernel
  have hown : ∀ c ∈ constraints .host "{tenant:domain}.{zone:[a-z]+}.com", OnItsOwn c := by
    rw [hconstraints]
    intro c hc
    rcases List.mem_cons.mp hc with rfl | hc
    · rintro _ ⟨⟩ hnone
      exact absurd hnone (by decide +kernel)
    · obtain rfl := List.mem_singleton.mp hc
      rintro _ ⟨⟩ -
      exact hzone
  have hcompile := eq_ok_of_toOption ht
  have htaken := (captures_domain PatternCache.faithful_new hcompile hown).2 _ _ (.inl hcaptures)
  rw [hdeclared] at htaken
  exact ⟨t, _, hcompile, hcaptures, (List.forall₂_cons.mp htaken).1.2 rfl⟩

end Template
end RequestRouter
