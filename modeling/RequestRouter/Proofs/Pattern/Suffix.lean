import RequestRouter.Proofs.Pattern.Language
import RequestRouter.Proofs.Regex.Shift
/-!
Hosts that end with a template. The suffix pattern of a host template may begin behind any dot of a host; a search
for it takes apart what the template takes apart in the longest suffix that it accepts.
-/
namespace RequestRouter

open RequestRouter.Text RequestRouter.Regex RequestRouter.Regex.Expr

section Rest

variable {es : List Pattern} {text : List Char} {k : Nat}

/-- A search for an anchored pattern finds what the pattern finds from the beginning on. -/
theorem search_textStart {q : Progress} (h : ((concat es).beginnings text).testBit 0 = true)
    (hq : ((concat es).plan text).follow (everywhere text) ⟨0, []⟩ = q) :
    (concat (look .textStart :: es)).search text = some ⟨0, q.place, q.captures⟩ := by
  obtain ⟨j, hspans⟩ := (testBit_beginnings _ _ _).mp h
  have hsome : ((concat (look .textStart :: es)).search text).isSome = true :=
    (search_isSome_iff _ _).mpr ⟨0, j, spans_textStart.mpr ⟨rfl, hspans⟩⟩
  obtain ⟨⟨start, stop, captures⟩, hfound⟩ := Option.isSome_iff_exists.mp hsome
  obtain ⟨hfollow, -, hfirst⟩ := search_eq_some hfound
  obtain rfl : start = 0 := Nat.le_zero.mp (hfirst 0 j (spans_textStart.mpr ⟨rfl, hspans⟩))
  have hstart : ((look .textStart : Pattern).plan text).follow (((concat es).plan text).starts (everywhere text))
      ⟨0, []⟩ = ⟨0, []⟩ := rfl
  rw [follow_concat_cons, hstart, hq] at hfollow
  rw [hfound, hfollow]

theorem group?_moved (text : List Char) (d : Nat) (q : Progress) (i j i' j' : Nat) (name : String) :
    (Found.mk i j (q.moved d).captures).group? text name =
      (Found.mk i' j' q.captures).group? (text.drop d) name := by
  simp only [Found.group?, Progress.moved, List.find?_map, Option.map_map, Function.comp_def, stretch_drop]

/-- An anchored search in the rest of a text captures what the pattern captures from there on. -/
theorem search_drop (hes : ∀ e ∈ es, e.ahead = true) (hk : k ≤ text.length)
    (h : ((concat es).beginnings text).testBit k = true) {stop : Nat} {captures : List (String × Nat × Nat)}
    (hfollow : ((concat es).plan text).follow (everywhere text) ⟨k, []⟩ = ⟨stop, captures⟩) (start : Nat) :
    ∃ f, (concat (look .textStart :: es)).search (text.drop k) = some f ∧
      ∀ name, (Found.mk start stop captures).group? text name = f.group? (text.drop k) name := by
  have hahead := ahead_concat hes
  have hwithin := within_everywhere text
  have hmoved : (⟨k, []⟩ : Progress) = Progress.moved ⟨0, []⟩ k := by simp [Progress.moved]
  rw [beginnings] at h
  rw [hmoved, follow_shift hk hahead _ hwithin _ (by simpa using h), everywhere_shift text hk] at hfollow
  have hbegins : ((concat es).beginnings (text.drop k)).testBit 0 = true := by
    rw [beginnings, ← everywhere_shift text hk, ← starts_shift hahead hk hwithin, testBit_shift, Nat.zero_add]
    exact h
  refine ⟨_, search_textStart hbegins rfl, fun name => ?_⟩
  obtain rfl : captures = _ := (congrArg Progress.captures hfollow).symm
  exact group?_moved ..

theorem search_drop_eq_none (hes : ∀ e ∈ es, e.ahead = true) (hk : k ≤ text.length) :
    (concat (look .textStart :: es)).search (text.drop k) = none ↔ ∀ j, ¬ (concat es).Spans text k j := by
  have hdrop := exists_spans_drop (i := 0) (ahead_concat hes) hk fun _ => True
  simp only [Nat.zero_add, true_and] at hdrop
  rw [← Option.not_isSome_iff_eq_none, search_isSome_iff, ← not_exists, hdrop]
  simp only [spans_textStart, exists_and_left, exists_eq_left]

end Rest

namespace Template

section Search

variable {es : List Pattern} {text : List Char} {goal : Marks} {i k start : Nat}

/-- Of the places behind the start of a label, a search comes to the first one from which it can go on. -/
theorem le_of_follow_labelStart (hg : Within text.length goal) (hgoal : goal.testBit k = true)
    (hlabel : labelStart.Spans text i k) (hle : start ≤ i) {p : Progress}
    (hp : (labelStart.plan text).follow goal ⟨start, []⟩ = p) (hspans : labelStart.Spans text start p.place) :
    p.place ≤ k := by
  rcases spans_labelStart.mp hspans with ⟨-, hzero⟩ | ⟨hdot, -⟩
  · exact hzero ▸ Nat.zero_le k
  · rcases spans_labelStart.mp hlabel with ⟨rfl, rfl⟩ | ⟨hdot', -⟩
    · -- Both labels start at the beginning of the text, and the one without a dot is preferred.
      obtain rfl := Nat.le_zero.mp hle
      have hstart : (((look .textStart : Pattern).plan text).starts goal).testBit 0 = true :=
        (starts_plan text (look .textStart) goal hg 0).mpr ⟨0, hgoal, spans_look_textStart.mpr ⟨rfl, rfl⟩⟩
      have hstay : (labelStart.plan text).follow goal ⟨0, []⟩ = ⟨0, []⟩ := if_pos hstart
      exact Nat.le_of_eq (congrArg Progress.place (hp.symm.trans hstay))
    · omega

/-- A search behind the start of a label finds what an anchored search finds in the longest rest of the text
that begins with a label and in which something is found. -/
theorem search_labelStart (hes : ∀ e ∈ es, e.ahead = true) {f : Found}
    (h : (concat (labelStart :: es)).search text = some f) :
    ∃ i k f', labelStart.Spans text i k ∧ (concat (look .textStart :: es)).search (text.drop k) = some f' ∧
      (∀ name, f.group? text name = f'.group? (text.drop k) name) ∧
      ∀ i' k', labelStart.Spans text i' k' → k' < k →
        (concat (look .textStart :: es)).search (text.drop k') = none := by
  obtain ⟨start, stop, captures⟩ := f
  obtain ⟨hfollow, hbegin, hfirst⟩ := search_eq_some h
  have hw := (starts_plan text (concat es)).within (within_everywhere text)
  rw [beginnings, starts_concat_cons] at hbegin
  obtain ⟨hgoal, hpass⟩ := follow_plan text labelStart _ hw ⟨start, []⟩ hbegin
  rw [follow_concat_cons] at hfollow
  generalize hp : (labelStart.plan text).follow _ ⟨start, []⟩ = p at hfollow hgoal hpass
  obtain ⟨k, cs⟩ := p
  obtain rfl : cs = [] := hpass.captures.captures_eq
  obtain ⟨f', hf', hgroups⟩ := search_drop hes hpass.spans.inside hgoal hfollow start
  refine ⟨start, k, f', hpass.spans, hf', hgroups, fun i' k' hlabel hlt => ?_⟩
  rw [search_drop_eq_none hes hlabel.inside]
  intro j hspans
  have hle : start ≤ i' := hfirst i' j (spans_concat_cons.mpr ⟨k', hlabel, hspans⟩)
  have hgoal' := (testBit_beginnings _ _ k').mpr ⟨j, hspans⟩
  exact absurd (le_of_follow_labelStart hw hgoal' hlabel hle hp hpass.spans) (Nat.not_le_of_lt hlt)

theorem search_labelStart_eq_none (hes : ∀ e ∈ es, e.ahead = true) :
    (concat (labelStart :: es)).search text = none ↔
      ∀ i k, labelStart.Spans text i k → (concat (look .textStart :: es)).search (text.drop k) = none := by
  constructor
  · intro h i k hlabel
    rw [search_drop_eq_none hes hlabel.inside]
    intro j hspans
    rw [← Option.not_isSome_iff_eq_none, search_isSome_iff] at h
    exact h ⟨i, j, spans_concat_cons.mpr ⟨k, hlabel, hspans⟩⟩
  · intro h
    rw [Option.eq_none_iff_forall_ne_some]
    intro f hf
    obtain ⟨i, k, f', hlabel, hfound, -⟩ := search_labelStart hes hf
    rw [h i k hlabel] at hfound
    cases hfound

end Search

section Labels

variable {suffix host : String}

/-- The text is the host or what stands behind one of its dots. -/
def LabelSuffix (suffix host : String) : Prop := suffix = host ∨ ∃ front, host = front ++ "." ++ suffix

theorem labelSuffix_iff :
    LabelSuffix suffix host ↔
      ∃ i k, labelStart.Spans host.toList i k ∧ suffix.toList = host.toList.drop k := by
  simp only [spans_labelStart]
  constructor
  · rintro (rfl | ⟨front, rfl⟩)
    · exact ⟨0, 0, .inl ⟨rfl, rfl⟩, rfl⟩
    · refine ⟨front.toList.length, _, .inr ⟨rfl, ?_⟩, ?_⟩
      · simp [String.toList_append]
      · simp [String.toList_append]
  · rintro ⟨i, k, ⟨rfl, rfl⟩ | ⟨rfl, hdot⟩, hsuffix⟩
    · exact .inl (String.toList_injective hsuffix)
    · refine .inr ⟨String.ofList (host.toList.take i), String.toList_injective ?_⟩
      obtain ⟨hlt, hget⟩ := List.getElem?_eq_some_iff.mp hdot
      rw [String.toList_append, String.toList_append, String.toList_ofList, hsuffix, List.append_assoc]
      show _ = host.toList.take i ++ '.' :: host.toList.drop (i + 1)
      rw [← hget, List.getElem_cons_drop, List.take_append_drop]

theorem LabelSuffix.eq_of_length {other : String} (h : LabelSuffix suffix host) (ho : LabelSuffix other host)
    (hlen : suffix.length = other.length) : suffix = other := by
  obtain ⟨_, k, hk, hs⟩ := labelSuffix_iff.mp h
  obtain ⟨_, l, hl, ho⟩ := labelSuffix_iff.mp ho
  refine String.toList_injective ?_
  rw [← String.length_toList, ← String.length_toList, hs, ho, List.length_drop, List.length_drop] at hlen
  have hk' := hk.inside
  have hl' := hl.inside
  rw [hs, ho, show k = l by omega]

end Labels

variable {t : Template} {cut : Cut}

theorem ahead_holes {hs : List (Slot × Pattern)} (h : ∀ x ∈ hs, x.2.lookFree = true) :
    ∀ e ∈ holes hs, e.ahead = true := by
  induction hs with
  | nil => exact fun e he => absurd he List.not_mem_nil
  | cons x hs ih =>
    intro e he
    rcases List.mem_append.mp he with he | he
    · obtain ⟨c, -, rfl⟩ := List.mem_map.mp he
      rfl
    · rcases List.mem_cons.mp he with rfl | he
      · exact ahead_of_lookFree (h x List.mem_cons_self)
      · exact ih (fun y hy => h y (List.mem_cons_of_mem _ hy)) e he

theorem ahead_closing (kind : TemplateKind) (strict : Bool) : ∀ e ∈ closing kind strict, e.ahead = true := by
  cases kind <;> cases strict <;> decide

theorem Built.exists_spells (h : t.Built cut) (hk : t.kind = .host)
    (hself : ∀ span ∈ cut.spans, SelfContained (constraint? span.2)) :
    ∃ es, (∀ e ∈ es, e.ahead = true) ∧ Spells (t.pattern cut.tail) es := by
  obtain ⟨hs, hmap, hreads⟩ := exists_reads h.slots hself
  refine ⟨holes hs ++ ((literalText t.kind cut.tail).map charPart ++ closing t.kind t.Strict), ?_, ?_⟩
  · intro e he
    rcases List.mem_append.mp he with he | he
    · exact ahead_holes (fun x hx => (hreads x hx).lookFree) e he
    · rcases List.mem_append.mp he with he | he
      · obtain ⟨c, -, rfl⟩ := List.mem_map.mp he
        rfl
      · exact ahead_closing _ _ e he
  · rw [pattern, h.presenceOnly_eq_false (by simp [hk])]
    exact spells_regexBody hmap (fun x hx => (hreads x hx).parses) _ (by simp [hk])

theorem Built.exists_parts (h : t.Built cut) (hk : t.kind = .host)
    (hself : ∀ span ∈ cut.spans, SelfContained (constraint? span.2)) :
    ∃ es, (∀ e ∈ es, e.ahead = true) ∧ t.regex.expr = concat (look .textStart :: es) ∧
      (t.suffix.getD t.regex).expr = concat (labelStart :: es) := by
  obtain ⟨es, hes, hbody⟩ := h.exists_spells hk hself
  obtain ⟨hsuffix, hsome⟩ := h.suffix hk
  obtain ⟨r, hr⟩ := Option.isSome_iff_exists.mp hsome
  rw [hr] at hsuffix
  have hread := (read?_of_compile? h.regex).1
  have hread' := (read?_of_compile? hsuffix).1
  rw [String.toList_ofList] at hread hread'
  have hstart : Spells ['^'] [look .textStart] := .char (a := .caret) fun _ => rfl
  refine ⟨es, hes, (eq_concat_of_read? (hstart.append hbody) hread).1, ?_⟩
  rw [hr]
  exact (eq_concat_of_read? (spells_labelStart.append hbody) hread').1

/-- Without rules beside the patterns a template rejects the texts in which its pattern finds nothing. -/
theorem Built.capturesWith_eq_none (h : t.Built cut) (hrule : t.RuleFree) {r : RequestRouter.Regex} {text : String} :
    t.capturesWith r text = none ↔ r.expr.search text.toList = none := by
  rw [← Option.not_isSome_iff_eq_none, ← Option.not_isSome_iff_eq_none, not_iff_not]
  exact ⟨search_of_capturesWith, h.capturesWith_of_search hrule⟩

/-- What the suffix pattern takes apart is the longest suffix of the host that the template accepts. -/
theorem Built.exists_longest (h : t.Built cut) (hk : t.kind = .host)
    (hself : ∀ span ∈ cut.spans, SelfContained (constraint? span.2)) (hrule : t.RuleFree) {host : String}
    {ws : List (String × String)} (hws : t.capturesSuffix host = some ws) :
    ∃ suffix, LabelSuffix suffix host ∧ t.captures suffix = some ws ∧
      ∀ longer, LabelSuffix longer host → suffix.length < longer.length → t.captures longer = none := by
  obtain ⟨es, hes, hexpr, hsuffix⟩ := h.exists_parts hk hself
  obtain ⟨f, hf, hvalues⟩ := Option.bind_eq_some_iff.mp hws
  rw [Regex.search, hsuffix] at hf
  obtain ⟨i, k, f', hlabel, hf', hgroups, hfirst⟩ := search_labelStart hes hf
  rw [← hexpr] at hf'
  refine ⟨String.ofList (host.toList.drop k), labelSuffix_iff.mpr ⟨i, k, hlabel, String.toList_ofList⟩, ?_, ?_⟩
  · rw [captures, capturesWith, Regex.search, String.toList_ofList, hf', ← hvalues]
    exact (values_congr fun s _ => hgroups s.var.group).symm
  · intro longer hlonger hlen
    obtain ⟨i', k', hlabel', hlist⟩ := labelSuffix_iff.mp hlonger
    rw [captures, h.capturesWith_eq_none hrule, hlist, hexpr]
    refine hfirst i' k' hlabel' ?_
    rw [← String.length_toList, ← String.length_toList, hlist, String.toList_ofList, List.length_drop,
      List.length_drop] at hlen
    omega

/-- The template rejects a host with its suffix pattern exactly if it rejects all suffixes of the host. -/
theorem Built.capturesSuffix_eq_none (h : t.Built cut) (hk : t.kind = .host)
    (hself : ∀ span ∈ cut.spans, SelfContained (constraint? span.2)) (hrule : t.RuleFree) (host : String) :
    t.capturesSuffix host = none ↔ ∀ suffix, LabelSuffix suffix host → t.captures suffix = none := by
  obtain ⟨es, hes, hexpr, hsuffix⟩ := h.exists_parts hk hself
  rw [capturesSuffix, h.capturesWith_eq_none hrule, hsuffix, search_labelStart_eq_none hes]
  constructor
  · intro hnone suffix hs
    obtain ⟨i, k, hlabel, hlist⟩ := labelSuffix_iff.mp hs
    rw [captures, h.capturesWith_eq_none hrule, hlist, hexpr]
    exact hnone i k hlabel
  · intro hnone i k hlabel
    have hs := labelSuffix_iff.mpr ⟨i, k, hlabel, String.toList_ofList⟩
    have hrejected := hnone _ hs
    rwa [captures, h.capturesWith_eq_none hrule, String.toList_ofList, hexpr] at hrejected

/-- A host template takes apart the longest suffix of a host, from its beginning or from behind a dot, that it
accepts as a whole host; it rejects the host if there is none. -/
theorem capturesSuffix_longest {source : String} {options : TemplateOptions} {cache cache' : PatternCache}
    {t : Template} (hcache : cache.Faithful) (h : compile source .host options cache = (.ok t, cache'))
    (hc : ∀ c ∈ constraints .host source, SelfContained c ∧ c ≠ some "domain") (host : String) :
    (∀ ws, t.capturesSuffix host = some ws ↔
      ∃ suffix, LabelSuffix suffix host ∧ t.captures suffix = some ws ∧
        ∀ longer, LabelSuffix longer host → suffix.length < longer.length → t.captures longer = none) ∧
    (t.capturesSuffix host = none ↔ ∀ suffix, LabelSuffix suffix host → t.captures suffix = none) := by
  obtain ⟨rfl, hk, -, ⟨cut, hbuilt⟩, -⟩ := compile_built hcache h
  rw [← hk] at hc
  have hself : ∀ span ∈ cut.spans, SelfContained (constraint? span.2) :=
    fun span hspan => (hc _ (hbuilt.mem_constraints hspan)).1
  have hrule : t.RuleFree := fun c hm => (hc c hm).2
  have hnone := hbuilt.capturesSuffix_eq_none hk hself hrule host
  refine ⟨fun ws => ⟨hbuilt.exists_longest hk hself hrule, ?_⟩, hnone⟩
  rintro ⟨suffix, hsuffix, hcaptures, hlongest⟩
  have hsome : t.capturesSuffix host ≠ none := by
    intro hall
    rw [hnone.mp hall suffix hsuffix] at hcaptures
    cases hcaptures
  obtain ⟨us, hus⟩ := Option.ne_none_iff_exists'.mp hsome
  obtain ⟨other, hother, hcaptures', hlongest'⟩ := hbuilt.exists_longest hk hself hrule hus
  have hle : ¬ suffix.length < other.length := by
    intro hlt
    rw [hlongest other hother hlt] at hcaptures'
    cases hcaptures'
  have hge : ¬ other.length < suffix.length := by
    intro hlt
    rw [hlongest' suffix hsuffix hlt] at hcaptures
    cases hcaptures
  obtain rfl := hsuffix.eq_of_length hother (by omega)
  rw [hus, ← hcaptures', hcaptures]

/-- The variable has one label or two, so the template accepts two suffixes of the host, and the longer one counts. -/
theorem capturesSuffix_longest_two_labels :
    ∃ t cache', compile "{tenant:[a-z]+(?:[.][a-z]+)?}.com" .host ⟨false, false⟩ .new = (.ok t, cache') ∧
      t.captures "acme.com" = some [("tenant", "acme")] ∧
      t.capturesSuffix "www.api.acme.com" = some [("tenant", "api.acme")] ∧
      (∃ suffix, LabelSuffix suffix "www.api.acme.com" ∧ t.captures suffix = some [("tenant", "api.acme")] ∧
        ∀ longer, LabelSuffix longer "www.api.acme.com" → suffix.length < longer.length →
          t.captures longer = none) ∧
      ∀ suffix, LabelSuffix suffix "www.acme.org" → t.captures suffix = none := by
  have hcompiled : ((compile "{tenant:[a-z]+(?:[.][a-z]+)?}.com" .host ⟨false, false⟩ .new).1.toOption.map
      fun t => (t.captures "acme.com", t.capturesSuffix "www.api.acme.com", t.capturesSuffix "www.acme.org")) =
        some (some [("tenant", "acme")], some [("tenant", "api.acme")], none) := by decide +kernel
  obtain ⟨t, ht, hvalues⟩ := Option.map_eq_some_iff.mp hcompiled
  simp only [Prod.mk.injEq] at hvalues
  obtain ⟨hwhole, hsuffix, hother⟩ := hvalues
  have hconstraints : constraints .host "{tenant:[a-z]+(?:[.][a-z]+)?}.com" = [some "[a-z]+(?:[.][a-z]+)?"] := by
    decide +kernel
  have hreads : (Regex.compile? "[a-z]+(?:[.][a-z]+)?").any (·.expr.lookFree) = true := by decide +kernel
  have hc : ∀ c ∈ constraints .host "{tenant:[a-z]+(?:[.][a-z]+)?}.com",
      SelfContained c ∧ c ≠ some "domain" := by
    rw [hconstraints]
    intro c hc
    obtain rfl := List.mem_singleton.mp hc
    refine ⟨?_, by decide⟩
    rintro _ ⟨⟩ -
    exact (Option.any_eq_true _ _).mp hreads
  have hcompile := eq_ok_of_toOption ht
  have hlongest := (capturesSuffix_longest PatternCache.faithful_new hcompile hc "www.api.acme.com").1
  have hnone := (capturesSuffix_longest PatternCache.faithful_new hcompile hc "www.acme.org").2
  exact ⟨t, _, hcompile, hwhole, hsuffix, (hlongest _).mp hsuffix, hnone.mp hother⟩

end Template

end RequestRouter
