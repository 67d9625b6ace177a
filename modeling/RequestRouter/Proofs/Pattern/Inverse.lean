import RequestRouter.Proofs.Pattern.Whole
import RequestRouter.Router.Vars
/-!
Matching and building are inverse to each other for paths and hosts that need not end in a slash: a text is
accepted exactly if it can be built, and what it is built from are the values taken out of it.
-/
namespace RequestRouter

open RequestRouter.Text RequestRouter.Regex RequestRouter.Regex.Expr

namespace Vars

theorem get?_putAll_of_not_mem {vars : Vars} {ps : List (String × String)} {n : String}
    (h : n ∉ ps.map (·.1)) : (putAll vars ps).get? n = vars.get? n := by
  induction ps generalizing vars with
  | nil => rfl
  | cons p ps ih =>
    rw [List.map_cons, List.mem_cons, not_or] at h
    rw [putAll_cons, ih h.2, get?_put, if_neg h.1]

theorem get?_putAll_of_mem {vars : Vars} {ps : List (String × String)} {n v : String}
    (hn : (ps.map (·.1)).Nodup) (h : (n, v) ∈ ps) : (putAll vars ps).get? n = some v := by
  induction ps generalizing vars with
  | nil => cases h
  | cons p ps ih =>
    rw [List.map_cons, List.nodup_cons] at hn
    rw [putAll_cons]
    rcases List.mem_cons.mp h with rfl | h
    · rw [get?_putAll_of_not_mem hn.1, get?_put, if_pos rfl]
    · exact ih hn.2 h

end Vars

namespace Template

variable {t : Template} {slots : List Slot} {kind : TemplateKind}

/-- A value for each slot that is there and valid. -/
def Supplied (values : String → Option String) (s : Slot) (v : String) : Prop :=
  values s.var.name = some v ∧ s.var.validator.isValid v = true

theorem resolve_eq_ok {values : String → Option String} {filled : List (Slot × String)} :
    resolve values slots = .ok filled ↔
      ∃ vs, filled = slots.zip vs ∧ List.Forall₂ (Supplied values) slots vs := by
  induction slots generalizing filled with
  | nil =>
    constructor
    · intro h
      cases h
      exact ⟨[], rfl, .nil⟩
    · rintro ⟨vs, rfl, ⟨⟩⟩
      rfl
  | cons s slots ih =>
    constructor
    · intro h
      unfold resolve at h
      split at h
      · cases h
      · rename_i v hv
        split at h
        · rename_i hvalid
          obtain ⟨rest, hrest, rfl⟩ := exists_of_map_eq_ok h
          obtain ⟨vs, rfl, hall⟩ := ih.mp hrest
          exact ⟨v :: vs, rfl, .cons ⟨hv, hvalid⟩ hall⟩
        · cases h
    · rintro ⟨_, rfl, hall⟩
      cases hall with
      | cons hs hall =>
        rename_i v vs
        rw [resolve, hs.1]
        dsimp only
        rw [if_pos hs.2, ih.mpr ⟨vs, rfl, hall⟩]
        rfl

theorem fill_zip (hk : kind ≠ .query) (slots : List Slot) (vs : List String) (tail : List Char) :
    fill kind (slots.zip vs) tail = spread slots (vs.map (·.toList)) ++ tail := by
  simp only [fill, if_neg hk]
  congr 1
  induction slots generalizing vs with
  | nil => rfl
  | cons s slots ih =>
    cases vs with
    | nil => rfl
    | cons v vs => simpa [spread] using ih vs

theorem expand_eq_ok (hk : t.kind ≠ .query) (hq : t.queryKey = none) {values : String → Option String}
    {s : String} :
    t.expand values = .ok s ↔ ∃ vs, List.Forall₂ (Supplied values) t.slots vs ∧
      s.toList = spread t.slots (vs.map (·.toList)) ++ t.tail := by
  constructor
  · intro h
    obtain ⟨filled, hr, rfl⟩ := exists_of_map_eq_ok h
    obtain ⟨vs, rfl, hall⟩ := resolve_eq_ok.mp hr
    exact ⟨vs, hall, by simp only [hq, fill_zip hk, String.toList_ofList]⟩
  · rintro ⟨vs, hall, hs⟩
    rw [expand, resolve_eq_ok.mpr ⟨vs, rfl, hall⟩]
    simp only [Except.map, hq, fill_zip hk]
    rw [← hs, String.ofList_toList]

/-- The value that a match gives to a slot: what its group stands for, which the rules accept. -/
def Captured (found : Found) (text : List Char) (s : Slot) (w : String × String) : Prop :=
  w = (s.var.name, String.ofList ((found.group? text s.var.group).getD [])) ∧
    s.var.validator.acceptsExtra w.2 = true

theorem values_eq_some {found : Found} {text : List Char} {ws : List (String × String)} :
    values slots found text = some ws ↔ List.Forall₂ (Captured found text) slots ws := by
  induction slots generalizing ws with
  | nil =>
    constructor
    · intro h
      cases h
      exact .nil
    · rintro ⟨⟩
      rfl
  | cons s slots ih =>
    rw [values, List.mapM_cons]
    constructor
    · intro h
      obtain ⟨w, hw, h⟩ := Option.bind_eq_some_iff.mp h
      obtain ⟨rest, hrest, h⟩ := Option.bind_eq_some_iff.mp h
      cases h
      dsimp only at hw
      split at hw
      · rename_i hextra
        cases hw
        exact .cons ⟨rfl, hextra⟩ (ih.mp hrest)
      · cases hw
    · intro h
      cases h with
      | cons hw hrest =>
        rename_i w rest
        obtain ⟨rfl, hextra⟩ := hw
        refine Option.bind_eq_some_iff.mpr ⟨_, if_pos hextra, ?_⟩
        exact Option.bind_eq_some_iff.mpr ⟨rest, ih.mpr hrest, rfl⟩

theorem values_congr {found found' : Found} {text text' : List Char}
    (h : ∀ s ∈ slots, found.group? text s.var.group = found'.group? text' s.var.group) :
    values slots found text = values slots found' text' := by
  induction slots with
  | nil => rfl
  | cons s slots ih =>
    have hrest := ih fun x hx => h x (List.mem_cons_of_mem _ hx)
    simp only [values] at hrest ⊢
    rw [List.mapM_cons, List.mapM_cons, h s List.mem_cons_self, hrest]

variable {hs : List (Slot × Pattern)}

/-- Captured values are what the groups stand for, each under the name of its variable and valid for it. -/
theorem captured_values {found : Found} {text : List Char} {us : List (List Char)}
    {ws : List (String × String)} (hreads : ∀ x ∈ hs, x.1.Reads x.2)
    (hus : List.Forall₂ (fun x u => x.2.Accepts u ∧ found.group? text x.1.var.group = some u) hs us)
    (hws : List.Forall₂ (Captured found text) (hs.map (·.1)) ws) :
    ws.map (·.2.toList) = us ∧
      List.Forall₂ (fun s w => s.var.name = w.1 ∧ s.var.validator.isValid w.2 = true) (hs.map (·.1)) ws := by
  induction hus generalizing ws with
  | nil =>
    cases hws
    exact ⟨rfl, .nil⟩
  | @cons x u hs us hu _ ih =>
    cases hws with
    | cons hw hws =>
      obtain ⟨rfl, hextra⟩ := hw
      obtain ⟨rfl, hall⟩ := ih (fun x hx => hreads x (List.mem_cons_of_mem _ hx)) hws
      have hvalue : ((found.group? text x.1.var.group).getD []) = u := by rw [hu.2, Option.getD_some]
      have hvalid := ((hreads x List.mem_cons_self).valid _).mpr ⟨?_, hextra⟩
      · exact ⟨by simp [hvalue], .cons ⟨rfl, hvalid⟩ hall⟩
      · rw [hvalue, String.toList_ofList]
        exact hu.1

theorem supplied_of_valid {values : String → Option String} {ws : List (String × String)}
    (h : List.Forall₂ (fun s w => s.var.name = w.1 ∧ s.var.validator.isValid w.2 = true) slots ws)
    (hv : ∀ w ∈ ws, values w.1 = some w.2) : List.Forall₂ (Supplied values) slots (ws.map (·.2)) := by
  induction h with
  | nil => exact .nil
  | @cons s w slots ws hs _ ih =>
    refine .cons ⟨?_, hs.2⟩ (ih fun w hw => hv w (List.mem_cons_of_mem _ hw))
    rw [hs.1]
    exact hv w List.mem_cons_self

theorem names_of_valid {ws : List (String × String)}
    (h : List.Forall₂ (fun s w => s.var.name = w.1 ∧ s.var.validator.isValid w.2 = true) slots ws) :
    ws.map (·.1) = slots.map (·.var.name) := by
  induction h with
  | nil => rfl
  | cons hs _ ih => rw [List.map_cons, List.map_cons, ih, hs.1]

theorem accepts_of_valid {vs : List String} (hreads : ∀ x ∈ hs, x.1.Reads x.2)
    (h : List.Forall₂ (fun s v => s.var.validator.isValid v = true) (hs.map (·.1)) vs) :
    List.Forall₂ (fun x u => x.2.Accepts u) hs (vs.map (·.toList)) := by
  induction hs generalizing vs with
  | nil =>
    cases h
    exact .nil
  | cons x hs ih =>
    cases h with
    | cons hv h =>
      refine .cons ?_ (ih (fun x hx => hreads x (List.mem_cons_of_mem _ hx)) h)
      exact (((hreads x List.mem_cons_self).valid _).mp hv).1

theorem values_isSome (h : ∀ s ∈ slots, s.var.validator.extra = none) (found : Found) (text : List Char) :
    (values slots found text).isSome = true := by
  have hall : List.Forall₂ (Captured found text) slots
      (slots.map fun s => (s.var.name, String.ofList ((found.group? text s.var.group).getD []))) := by
    induction slots with
    | nil => exact .nil
    | cons s slots ih =>
      have hs : s.var.validator.extra = none := h s List.mem_cons_self
      exact .cons ⟨rfl, by simp [Validator.acceptsExtra, hs]⟩ (ih fun s hs => h s (List.mem_cons_of_mem _ hs))
  rw [values_eq_some.mpr hall]
  rfl

theorem constraintExtra_eq_none {c : Option String} (h : c ≠ some "domain") : constraintExtra c = none := by
  have hall : ∀ s ∈ Shorthand.all, s.name ≠ "domain" → s.extra = none := by decide
  cases c with
  | none => rfl
  | some p =>
    cases hs : Shorthand.lookup? p with
    | none => simp [constraintExtra, hs]
    | some s =>
      have hname : s.name = p := by simpa using List.find?_some hs
      have hextra := hall s (List.mem_of_find?_eq_some hs) fun heq => h (by rw [← heq, hname])
      simp [constraintExtra, hs, hextra]

theorem extra_eq_none {spans : List (List Char × List Char)}
    (h : List.Forall₂ (Slot.Made kind) spans slots)
    (hc : ∀ span ∈ spans, constraint? span.2 ≠ some "domain") :
    ∀ s ∈ slots, s.var.validator.extra = none := by
  induction h with
  | nil => exact nofun
  | @cons span s spans slots hs _ ih =>
    intro x hx
    rcases List.mem_cons.mp hx with rfl | hx
    · rw [hs.var.extra, constraintExtra_eq_none (hc span List.mem_cons_self)]
    · exact ih (fun y hy => hc y (List.mem_cons_of_mem _ hy)) x hx

theorem captures_eq_some {text : String} {ws : List (String × String)} :
    t.captures text = some ws ↔ ∃ found, t.regex.expr.search text.toList = some found ∧
      List.Forall₂ (Captured found text.toList) t.slots ws := by
  rw [captures, capturesWith, Option.bind_eq_some_iff]
  simp only [values_eq_some]
  rfl

theorem Laid.expand_captures (hl : t.Laid false t.tail hs) (hk : t.kind ≠ .query) (hq : t.queryKey = none)
    (hn : t.varNames.Nodup) {text : String} {ws : List (String × String)} (h : t.captures text = some ws) :
    List.Forall₂ (fun s w => s.var.name = w.1 ∧ s.var.validator.isValid w.2 = true) t.slots ws ∧
      t.expand (Vars.ofPairs ws).get? = .ok text := by
  obtain ⟨found, hfound, hws⟩ := captures_eq_some.mp h
  obtain ⟨us, slash, hslash, htext, hus⟩ := hl.search_cuts hfound
  have hnil : slash = [] := hslash.resolve_right fun h => Bool.noConfusion h.1
  obtain ⟨rfl, hvalid⟩ := captured_values hl.reads hus (hl.slots.symm ▸ hws)
  rw [hl.slots] at hvalid
  have hnames : (ws.map (·.1)).Nodup := names_of_valid hvalid ▸ hn
  have hget : ∀ w ∈ ws, (Vars.ofPairs ws).get? w.1 = some w.2 :=
    fun w hw => Vars.get?_putAll_of_mem hnames hw
  refine ⟨hvalid, (expand_eq_ok hk hq).mpr ⟨_, supplied_of_valid hvalid hget, ?_⟩⟩
  rw [htext, hnil, List.append_nil, List.map_map]
  rfl

theorem Laid.captures_expand (hl : t.Laid false t.tail hs) (hk : t.kind ≠ .query) (hq : t.queryKey = none)
    (hextra : ∀ s ∈ t.slots, s.var.validator.extra = none) {text : String}
    {values : String → Option String} (h : t.expand values = .ok text) :
    (t.captures text).isSome = true := by
  obtain ⟨vs, hsupplied, htext⟩ := (expand_eq_ok hk hq).mp h
  have hvalid := hsupplied.imp fun _ _ h => h.2
  have haccepts := accepts_of_valid hl.reads (hl.slots.symm ▸ hvalid)
  rw [← List.append_nil t.tail] at htext
  obtain ⟨found, hfound⟩ := Option.isSome_iff_exists.mp (hl.search_isSome haccepts (.inl rfl) htext)
  obtain ⟨ws, hws⟩ := Option.isSome_iff_exists.mp (values_isSome hextra found text.toList)
  rw [captures_eq_some.mpr ⟨found, hfound, values_eq_some.mp hws⟩]
  rfl

theorem Made.queryKey_eq_none (h : t.Made) (hk : t.kind ≠ .query) : t.queryKey = none := by
  rw [h.queryKey, splitKey, if_neg hk]
  rfl

theorem Made.presenceOnly_eq_false (h : t.Made) (hk : t.kind ≠ .query) : t.presenceOnly = false :=
  Bool.eq_false_iff.mpr fun hp => hk (h.presenceOnly.mp hp).1

/-- Matching and building are inverse to each other. A text is accepted exactly if some variables build it,
and the values taken out of it are valid and build it again. -/
theorem captures_inverse_expand {source : String} {kind : TemplateKind} {options : TemplateOptions}
    {cache cache' : PatternCache} {t : Template} (hkind : kind = .path ∨ kind = .host)
    (hstrict : options.strictSlash = false) (hcache : cache.Faithful)
    (h : compile source kind options cache = (.ok t, cache'))
    (hc : ∀ c ∈ constraints kind source, SelfContained c ∧ c ≠ some "domain") :
    (∀ text, (t.captures text).isSome = true ↔ ∃ vars : Vars, t.expand vars.get? = .ok text) ∧
      ∀ text ws, t.captures text = some ws →
        List.Forall₂ (fun s w => s.var.name = w.1 ∧ s.var.validator.isValid w.2 = true) t.slots ws ∧
          t.expand (Vars.ofPairs ws).get? = .ok text := by
  obtain ⟨rfl, rfl, rfl, hmade, -⟩ := compile_spec hcache h
  have hquery : t.kind ≠ .query := by rcases hkind with hk | hk <;> simp [hk]
  have hleading : t.kind ≠ .leading := by rcases hkind with hk | hk <;> simp [hk]
  have hkey := hmade.queryKey_eq_none hquery
  obtain ⟨cut, hcut, hslots⟩ := hmade.cut
  have hdomain : ∀ span ∈ cut.spans, constraint? span.2 ≠ some "domain" :=
    fun span hspan => (hc _ (mem_constraints hcut hspan)).2
  have hextra := extra_eq_none hslots hdomain
  obtain ⟨hs, tail, slash, hlaid, htail, hslash⟩ :=
    hmade.laid hleading (hmade.presenceOnly_eq_false hquery) fun c hm => (hc c hm).1
  simp only [hstrict, Bool.false_eq_true, false_and, decide_false] at hlaid hslash
  have hnil : slash = [] := hslash.resolve_right fun h => Bool.noConfusion h.1
  rw [hnil, List.append_nil] at htail
  subst htail
  refine ⟨fun text => ⟨fun hsome => ?_, ?_⟩, fun text ws hws => hlaid.expand_captures hquery hkey hmade.names hws⟩
  · obtain ⟨ws, hws⟩ := Option.isSome_iff_exists.mp hsome
    exact ⟨Vars.ofPairs ws, (hlaid.expand_captures hquery hkey hmade.names hws).2⟩
  · rintro ⟨vars, hvars⟩
    exact hlaid.captures_expand hquery hkey hextra hvars

/-- The constraint of the first variable is a pattern with two alternatives, that of the second a name. -/
theorem captures_inverse_expand_alternatives :
    ∃ t cache', compile "/{unit:km|mi}/{length:int}" .path ⟨false, false⟩ .new = (.ok t, cache') ∧
      t.captures "/mi/26" = some [("unit", "mi"), ("length", "26")] ∧
      t.expand (Vars.ofPairs [("unit", "mi"), ("length", "26")]).get? = .ok "/mi/26" ∧
      ∀ text, (t.captures text).isSome = true ↔ ∃ vars : Vars, t.expand vars.get? = .ok text := by
  have hcompiled : ((compile "/{unit:km|mi}/{length:int}" .path ⟨false, false⟩ .new).1.toOption.bind
      (·.captures "/mi/26")) = some [("unit", "mi"), ("length", "26")] := by decide +kernel
  obtain ⟨t, ht, hcaptures⟩ := Option.bind_eq_some_iff.mp hcompiled
  have hconstraints : constraints .path "/{unit:km|mi}/{length:int}" = [some "km|mi", some "int"] := by
    decide +kernel
  have hunit : (Regex.compile? "km|mi").any (·.expr.lookFree) = true := by decide +kernel
  have hint : Shorthand.lookup? "int" ≠ none := by decide +kernel
  have hc : ∀ c ∈ constraints .path "/{unit:km|mi}/{length:int}", SelfContained c ∧ c ≠ some "domain" := by
    rw [hconstraints]
    intro c hc
    rcases List.mem_cons.mp hc with rfl | hc
    · refine ⟨?_, by decide⟩
      rintro _ ⟨⟩ -
      exact (Option.any_eq_true _ _).mp hunit
    · obtain rfl := List.mem_singleton.mp hc
      refine ⟨?_, by decide⟩
      rintro _ ⟨⟩ hnone
      exact absurd hnone hint
  have hcompile := eq_ok_of_toOption ht
  obtain ⟨hiff, hback⟩ := captures_inverse_expand (.inl rfl) rfl PatternCache.faithful_new hcompile hc
  exact ⟨t, _, hcompile, hcaptures, (hback _ _ hcaptures).2, hiff⟩

end Template

end RequestRouter
