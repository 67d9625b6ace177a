import RequestRouter.Proofs.Pattern.Grammar
import RequestRouter.Proofs.Pattern.Language
import RequestRouter.Proofs.Regex.Ending
/-!
Templates without variables. Their text stands for itself in every kind of template, whatever its characters mean in a
pattern, and no values are taken. Nor does it ever spoil the pattern: if it is not too long, it compiles.
-/
namespace RequestRouter

open RequestRouter.Text RequestRouter.Regex RequestRouter.Regex.Expr

namespace Regex

section Frame

variable {s t w : List Char}

def Light (ps : List Part) : Prop := deepest ps ≤ 100 ∧ (ps.map (·.expr.weight)).sum ≤ 1000

instance (ps : List Part) : Decidable (Light ps) := inferInstanceAs (Decidable (_ ∧ _))

/-- What may stand in front of literal text: it is read as a few parts where a pattern begins. -/
def Begins (s : List Char) : Prop :=
  ∃ ts ps, Opens s ts ∧ Reading.initial.run ts = some (Reading.initial.more ps) ∧ Light ps

/-- What may stand behind literal text: it is read as a few parts where a pattern ends. -/
def Concludes (s : List Char) : Prop :=
  s.head? ≠ some '?' ∧
    ∃ ts ps, Tokenizes s ts ∧ (∀ r : Reading, r.flags = .initial → r.run ts = some (r.more ps)) ∧ Light ps

theorem begins_caret : Begins ['^'] :=
  ⟨[.atom .caret], [Atom.caret.part .initial], fun _ _ _ h => .cons rfl h, rfl, by decide⟩

theorem begins_labels : Begins "(?:^|\\.)".toList :=
  ⟨[.enter none [], .atom .caret, .bar, .atom (.char '.'), .leave],
    [⟨.alt (.look .textStart) (.one (.single '.')), 2⟩],
    fun _ _ _ h => .cons rfl (.cons rfl (.cons rfl (.cons rfl (.cons rfl h)))), rfl, by decide⟩

theorem concludes_nil : Concludes [] := ⟨nofun, [], [], .nil, fun _ _ => rfl, by decide⟩

theorem concludes_dollar : Concludes ['$'] :=
  ⟨by decide, [.atom .dollar], [Atom.dollar.part .initial], .cons rfl .nil, fun _ hr => hr ▸ rfl, by decide⟩

theorem concludes_slash : Concludes "[/]?$".toList :=
  ⟨by decide, [.atom (.cls (.bracket false (.union .nothing (.range '/' '/')))), .quantity 0 (some 1) true,
    .atom .dollar], [optionalPart .initial, Atom.dollar.part .initial],
    .cons (t := ['?', '$']) rfl (.cons (t := ['$']) rfl (.cons rfl .nil)), fun _ hr => hr ▸ rfl, by decide⟩

theorem concludes_anything : Concludes ".*$".toList :=
  ⟨by decide, [.atom .dot, .quantity 0 none true, .atom .dollar],
    [⟨(Atom.dot.part .initial).expr.copies 0 none (true != Flags.initial.swapGreed), 1⟩, Atom.dollar.part .initial],
    .cons (t := ['*', '$']) rfl (.cons (t := ['$']) rfl (.cons rfl .nil)), fun _ hr => hr ▸ rfl, by decide⟩

theorem Reading.depth_initial_more (ps : List Part) : (Reading.initial.more ps).inner.depth ≤ deepest ps + 1 := by
  have hinner : (Reading.initial.more ps).inner.depth = (Reading.initial.more ps).items.part.depth := rfl
  rw [hinner, Items.part, Reading.items_more]
  dsimp only
  split
  · exact Nat.le_succ _
  · exact Nat.le_refl _

theorem Reading.weight_initial_more (ps : List Part) :
    (Reading.initial.more ps).inner.expr.weight ≤ 32 + (ps.map (·.expr.weight)).sum := by
  rw [Reading.inner_more]
  simpa [Reading.initial, choices, Function.comp_def] using concat_weight_le_sum (ps.map (·.expr))

def charParts (w : List Char) : List Part := (w.map Atom.char).map (·.part .initial)

theorem deepest_charParts (w : List Char) : deepest (charParts w) = 0 := by
  induction w with
  | nil => rfl
  | cons c w ih => exact (Nat.zero_max _).trans ih

theorem weight_charParts (w : List Char) : ((charParts w).map (·.expr.weight)).sum = 32 * w.length := by
  induction w with
  | nil => rfl
  | cons c w ih =>
    have hchar : ((charParts (c :: w)).map (·.expr.weight)).sum = 32 + ((charParts w).map (·.expr.weight)).sum := rfl
    rw [hchar, ih, List.length_cons]
    omega

/-- Literal text is a pattern between such ends. A character weighs 32, so the bound on its length leaves room. -/
theorem Begins.compile?_literal (hs : Begins s) (ht : Concludes t) (hw : w.length ≤ 10000) :
    (Regex.compile? (String.ofList (s ++ Regex.literal w ++ t))).isSome = true := by
  obtain ⟨ts, ps, hopens, hrun, hps⟩ := hs
  obtain ⟨hhead, us, qs, htokens, hend, hqs⟩ := ht
  have hliteral : Opens (s ++ Regex.literal w) (ts ++ (w.map Atom.char).map .atom) := by
    refine hopens.append ?_ ?_
    · simpa [Function.comp_def] using Opens.literal w
    · simpa using head?_literal_append w (t := []) nofun
  have hread : Reading.initial.run (ts ++ (w.map Atom.char).map .atom) =
      some (Reading.initial.more (ps ++ charParts w)) :=
    Reading.run_append.mpr ⟨_, hrun, (Reading.run_atoms _ _).trans (congrArg some (Reading.more_append _ _ _))⟩
  refine Option.isSome_of_eq_some (hliteral.compile?_more hread hhead htokens (hend _ rfl) rfl ?_ ?_)
  · rw [Reading.more_append]
    refine Nat.le_trans (Reading.depth_initial_more _) ?_
    rw [deepest_append, deepest_append, deepest_charParts, maxDepth]
    have hdepth := hps.1
    have hdepth' := hqs.1
    omega
  · rw [Reading.more_append]
    refine Nat.le_trans (Reading.weight_initial_more _) ?_
    rw [List.map_append, List.map_append, List.sum_append, List.sum_append, weight_charParts, maxWeight]
    have hweight := hps.2
    have hweight' := hqs.2
    omega

end Frame

end Regex

/-- A text without its final slash, if it has one. -/
def stem (s : String) : String := if s.toList.getLast? = some '/' then String.ofList s.toList.dropLast else s

namespace Template

/-- The template accepts the texts with this property, and takes no values out of them. -/
def AcceptsOnly (t : Template) (P : String → Prop) : Prop :=
  ∀ text vars, t.captures text = some vars ↔ vars = [] ∧ P text

theorem AcceptsOnly.congr {t : Template} {P Q : String → Prop} (h : t.AcceptsOnly P) (hiff : ∀ text, P text ↔ Q text) :
    t.AcceptsOnly Q :=
  fun text vars => (h text vars).trans (and_congr_right fun _ => hiff text)

section Literal

variable {t : Template} {source s : String} {w : List Char} {kind : TemplateKind} {options : TemplateOptions}
variable {cache : PatternCache}

theorem captures_iff_of_slots (h : t.slots = []) {text : String} {vars : List (String × String)} :
    t.captures text = some vars ↔ vars = [] ∧ (t.regex.expr.search text.toList).isSome = true := by
  rw [captures_eq_some, h, Option.isSome_iff_exists]
  simp only [List.forall₂_nil_left_iff, exists_and_right]
  exact and_comm

/-- A template that is one literal text accepts this text with what may stand behind it. -/
theorem Built.acceptsOnly (h : t.Built ⟨[], w⟩) (hp : t.presenceOnly = false) :
    t.AcceptsOnly fun text => ∃ rest, text.toList = literalText t.kind w ++ rest ∧ t.Ends rest := by
  intro text vars
  rw [captures_iff_of_slots (List.forall₂_nil_left_iff.mp h.slots), h.search_of_value hp (List.forall_mem_nil _)]
  refine and_congr_right fun _ => ⟨?_, ?_⟩
  · rintro ⟨_, ⟨⟨rest, hrest⟩, rfl⟩, hends⟩
    rw [drop_add hrest.symm] at hends
    exact ⟨rest, hrest.symm, hends⟩
  · rintro ⟨rest, htext, hends⟩
    have hdrop : text.toList.drop 0 = literalText t.kind w ++ rest := htext
    rw [← drop_add hdrop] at hends
    exact ⟨_, ⟨⟨rest, hdrop.symm⟩, rfl⟩, hends⟩

/-- Compiling a text without braces keeps it whole, but for a final slash that is optional. -/
theorem built_of_braceless (hc : cache.Faithful) (hs : Braceless (bodyOf kind source))
    (h : (compile source kind options cache).1 = .ok t) :
    t.source = source ∧ t.kind = kind ∧ t.options = options ∧ t.Built ⟨[], coreOf kind options source⟩ := by
  obtain ⟨rfl, rfl, rfl, ⟨cut, hbuilt⟩, -⟩ := compile_built hc (Prod.ext h rfl)
  refine ⟨rfl, rfl, rfl, ?_⟩
  have hcore : Braceless t.core := by
    have hbody : Braceless t.body := hs
    rw [body_eq] at hbody
    exact (braceless_append.mp hbody).1
  have hcut : Cut.ofChars? t.core = some ⟨[], t.core⟩ :=
    Cut.ofChars?_eq_some.mpr ⟨rfl, List.forall_mem_nil _, List.forall_mem_nil _, hcore⟩
  obtain rfl := Option.some.inj (hbuilt.ofChars.symm.trans hcut)
  exact hbuilt

/-- Text without braces accepts itself with what may stand behind it, unless it is a key alone. -/
theorem acceptsOnly_of_braceless (hc : cache.Faithful) (hs : Braceless (bodyOf kind source))
    (hvalue : kind ≠ .query ∨ bodyOf kind source ≠ []) (h : (compile source kind options cache).1 = .ok t) :
    t.AcceptsOnly fun text => ∃ rest, text.toList = literalText kind (coreOf kind options source) ++ rest ∧
      (kind = .leading ∨ ExtraSlash (options.strictSlash = true ∧ kind = .path) rest) := by
  obtain ⟨rfl, rfl, rfl, hbuilt⟩ := built_of_braceless hc hs h
  refine hbuilt.acceptsOnly (Bool.eq_false_iff.mpr fun hp => ?_)
  obtain ⟨hk, hempty⟩ := hbuilt.presenceOnly.mp hp
  exact hvalue.elim (absurd hk) (absurd (List.isEmpty_iff.mp hempty))

/-- Where no slash is optional, something may stand behind the text only if it is the beginning of a path. -/
theorem acceptsOnly_of_not_strict (hc : cache.Faithful) (hbody : bodyOf kind source = w) (hs : Braceless w)
    (hvalue : kind ≠ .query ∨ w ≠ []) (hstrict : ¬ (options.strictSlash = true ∧ kind = .path))
    (h : (compile source kind options cache).1 = .ok t) :
    t.AcceptsOnly fun text => ∃ rest, text.toList = literalText kind w ++ rest ∧ (kind = .leading ∨ rest = []) := by
  subst hbody
  have hcore : coreOf kind options source = bodyOf kind source := if_neg fun hopen => hstrict hopen.1
  have haccepts := acceptsOnly_of_braceless hc hs hvalue h
  simpa only [hcore, hstrict, ExtraSlash, decide_false, Bool.false_eq_true, false_and, or_false] using haccepts

theorem concludes_ending {strict presenceOnly : Bool} (hstrict : strict = true → kind = .path)
    (hp : presenceOnly = true → kind = .query) :
    Concludes ((if strict then "[/]?".toList else []) ++
      ((if presenceOnly then kind.defaultPattern.toList else []) ++ (if kind = .leading then [] else ['$']))) := by
  cases strict with
  | true =>
    obtain rfl := hstrict rfl
    cases presenceOnly with
    | true => cases hp rfl
    | false => exact concludes_slash
  | false =>
    cases presenceOnly with
    | true =>
      obtain rfl := hp rfl
      exact concludes_anything
    | false =>
      cases kind with
      | leading => exact concludes_nil
      | path | host | query => exact concludes_dollar

theorem length_literalText (kind : TemplateKind) (w : List Char) : (literalText kind w).length = w.length := by
  rw [literalText]
  split
  · exact List.length_map _
  · rfl

theorem compile_ok_of_braceless (hc : cache.Faithful) (hs : Braceless (bodyOf kind source))
    (hlen : (bodyOf kind source).length ≤ 10000) : ∃ t, (compile source kind options cache).1 = .ok t := by
  have hcuts : Cut.Cuts ⟨[], bodyOf kind source⟩ (bodyOf kind source) :=
    ⟨rfl, List.forall_mem_nil _, List.forall_mem_nil _, hs⟩
  refine (compile_ok_iff hc).mpr ⟨_, hcuts, wellFormed_nil, ?_⟩
  have hlength : (literalText kind (Cut.core ⟨[], bodyOf kind source⟩ kind options source).tail).length ≤ 10000 := by
    rw [length_literalText]
    refine Nat.le_trans ?_ hlen
    rw [Cut.core]
    split
    · rw [List.length_dropLast]
      exact Nat.sub_le _ _
    · exact Nat.le_refl _
  have hstrict : decide (options.strictSlash ∧ kind = .path) = true → kind = .path := fun h => (of_decide_eq_true h).2
  have hp : decide (kind = .query ∧ (bodyOf kind source).isEmpty) = true → kind = .query :=
    fun h => (of_decide_eq_true h).1
  have hend := concludes_ending hstrict hp
  have hspans : (Cut.core ⟨[], bodyOf kind source⟩ kind options source).spans = [] := rfl
  rw [patternOf, Cut.assembled, hspans, List.zipIdx_nil, List.flatMap_nil, List.nil_append, List.append_assoc,
    List.append_assoc]
  exact ⟨begins_caret.compile?_literal hend hlength, fun _ => begins_labels.compile?_literal hend hlength⟩

theorem bodyOf_of_ne (hk : kind ≠ .query) : bodyOf kind source = source.toList := by
  rw [bodyOf, splitKey, if_neg hk]

theorem coreOf_strict (encoded : Bool) (s : String) : coreOf .path ⟨true, encoded⟩ s = (stem s).toList := by
  have hopen : EndsOpen .path ⟨true, encoded⟩ s ↔ s.toList.getLast? = some '/' := and_iff_right ⟨rfl, rfl⟩
  by_cases hlast : s.toList.getLast? = some '/'
  · rw [coreOf, if_pos (hopen.mpr hlast), stem, if_pos hlast, String.toList_ofList, bodyOf_of_ne (by decide)]
  · rw [coreOf, if_neg (mt hopen.mp hlast), stem, if_neg hlast, bodyOf_of_ne (by decide)]

/-- Text without braces never acts as a pattern. As a path it accepts itself, and with an optional slash itself without
its final slash and with one; as the beginning of a path, what begins with it; as a host, itself in lower case; and as
the value of a query, if it is not empty, itself. -/
theorem captures_braceless (hc : cache.Faithful) (hs : Braceless s.toList) (options : TemplateOptions)
    (encoded : Bool) :
    (∀ t, (compile s .path ⟨false, encoded⟩ cache).1 = .ok t → t.AcceptsOnly (· = s)) ∧
    (∀ t, (compile s .path ⟨true, encoded⟩ cache).1 = .ok t →
      t.AcceptsOnly fun text => text = stem s ∨ text = stem s ++ "/") ∧
    (∀ t, (compile s .leading options cache).1 = .ok t → t.AcceptsOnly fun text => s.toList <+: text.toList) ∧
    (∀ t, (compile s .host options cache).1 = .ok t → t.AcceptsOnly (· = s.toLower)) ∧
    ∀ k t, '=' ∉ k.toList → s ≠ "" → (compile (k ++ "=" ++ s) .query options cache).1 = .ok t →
      t.queryKey = some k ∧ t.AcceptsOnly (· = s) := by
  refine ⟨fun t ht => ?_, fun t ht => ?_, fun t ht => ?_, fun t ht => ?_, fun k t hk hne ht => ?_⟩
  · have hpath := acceptsOnly_of_not_strict hc (bodyOf_of_ne (by decide)) hs (.inl (by decide)) (by simp) ht
    refine hpath.congr fun text => ?_
    simp [literalText, String.toList_inj]
  · have hbody : Braceless (bodyOf .path s) := hs
    have hstrict := acceptsOnly_of_braceless hc hbody (.inl (by decide)) ht
    refine hstrict.congr fun text => ?_
    simp [coreOf_strict, ExtraSlash, literalText, and_or_left, exists_or, ← String.toList_inj]
  · have hleading := acceptsOnly_of_not_strict hc (bodyOf_of_ne (by decide)) hs (.inl (by decide)) (by simp) ht
    refine hleading.congr fun text => ?_
    simp [literalText, List.IsPrefix, eq_comm]
  · have hhost := acceptsOnly_of_not_strict hc (bodyOf_of_ne (by decide)) hs (.inl (by decide)) (by simp) ht
    have hlower : s.toLower.toList = s.toList.map Char.toLower := String.toList_map
    refine hhost.congr fun text => ?_
    simp [literalText, ← String.toList_inj, hlower]
  · have hsplit : splitKey .query (k ++ "=" ++ s).toList = (some k.toList, s.toList) := by
      rw [← bodyOf_pair hk]
      simp
    have hbody : bodyOf .query (k ++ "=" ++ s) = s.toList := congrArg Prod.snd hsplit
    have hquery := acceptsOnly_of_not_strict hc hbody hs (.inr (by simpa using hne)) (by simp) ht
    obtain ⟨hsource, hkind, -, hbuilt⟩ := built_of_braceless hc (hbody.symm ▸ hs) ht
    refine ⟨?_, hquery.congr fun text => ?_⟩
    · rw [hbuilt.queryKey, hkind, hsource, hsplit, Option.map_some, String.ofList_toList]
    · simp [literalText, String.toList_inj]

/-- The text has a character of each kind that means something in a pattern, a line break, and capitals with and without
a mark. -/
theorem captures_braceless_metacharacters :
    ∃ path strict leading host query : Template,
      (compile "/Ȧ.B|(c*)+?^\n$\\d/" .path ⟨false, false⟩ .new).1 = .ok path ∧
      path.AcceptsOnly (· = "/Ȧ.B|(c*)+?^\n$\\d/") ∧
      (compile "/Ȧ.B|(c*)+?^\n$\\d/" .path ⟨true, false⟩ .new).1 = .ok strict ∧
      strict.AcceptsOnly (fun text => text = "/Ȧ.B|(c*)+?^\n$\\d" ∨ text = "/Ȧ.B|(c*)+?^\n$\\d/") ∧
      (compile "/Ȧ.B|(c*)+?^\n$\\d/" .leading ⟨false, false⟩ .new).1 = .ok leading ∧
      leading.AcceptsOnly (fun text => "/Ȧ.B|(c*)+?^\n$\\d/".toList <+: text.toList) ∧
      (compile "/Ȧ.B|(c*)+?^\n$\\d/" .host ⟨false, false⟩ .new).1 = .ok host ∧
      host.AcceptsOnly (· = "/Ȧ.b|(c*)+?^\n$\\d/") ∧
      (compile ("q" ++ "=" ++ "/Ȧ.B|(c*)+?^\n$\\d/") .query ⟨false, false⟩ .new).1 = .ok query ∧
      query.queryKey = some "q" ∧ query.AcceptsOnly (· = "/Ȧ.B|(c*)+?^\n$\\d/") := by
  have hcompiles (source : String) (kind : TemplateKind) (options : TemplateOptions)
      (h : Braceless (bodyOf kind source) ∧ (bodyOf kind source).length ≤ 10000) :
      ∃ t, (compile source kind options .new).1 = .ok t :=
    compile_ok_of_braceless PatternCache.faithful_new h.1 h.2
  obtain ⟨path, hpath⟩ := hcompiles "/Ȧ.B|(c*)+?^\n$\\d/" .path ⟨false, false⟩ (by decide +kernel)
  obtain ⟨strict, hstrict⟩ := hcompiles "/Ȧ.B|(c*)+?^\n$\\d/" .path ⟨true, false⟩ (by decide +kernel)
  obtain ⟨leading, hleading⟩ := hcompiles "/Ȧ.B|(c*)+?^\n$\\d/" .leading ⟨false, false⟩ (by decide +kernel)
  obtain ⟨host, hhost⟩ := hcompiles "/Ȧ.B|(c*)+?^\n$\\d/" .host ⟨false, false⟩ (by decide +kernel)
  obtain ⟨query, hquery⟩ := hcompiles ("q" ++ "=" ++ "/Ȧ.B|(c*)+?^\n$\\d/") .query ⟨false, false⟩ (by decide +kernel)
  obtain ⟨hplain, hopen, hbegins, hlower, hvalue⟩ := captures_braceless (s := "/Ȧ.B|(c*)+?^\n$\\d/")
    PatternCache.faithful_new (by decide +kernel) ⟨false, false⟩ false
  have hstem : stem "/Ȧ.B|(c*)+?^\n$\\d/" = "/Ȧ.B|(c*)+?^\n$\\d" := by decide +kernel
  have hslash : "/Ȧ.B|(c*)+?^\n$\\d" ++ "/" = "/Ȧ.B|(c*)+?^\n$\\d/" := by decide +kernel
  have hcase : "/Ȧ.B|(c*)+?^\n$\\d/".toLower = "/Ȧ.b|(c*)+?^\n$\\d/" := by decide +kernel
  rw [hstem, hslash] at hopen
  rw [hcase] at hlower
  obtain ⟨hkey, honly⟩ := hvalue "q" query (by decide) (by decide) hquery
  exact ⟨path, strict, leading, host, query, hpath, hplain path hpath, hstrict, hopen strict hstrict, hleading,
    hbegins leading hleading, hhost, hlower host hhost, hquery, hkey, honly⟩

end Literal

end Template

end RequestRouter
