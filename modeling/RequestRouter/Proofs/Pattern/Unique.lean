import RequestRouter.Proofs.Pattern.Inverse
/-!
When a built text gives its values back. Values without a slash, with a slash in the literal text between any
two of them, can be told apart in only one way; so the match of a text that was built finds the values it was
built from.
-/
namespace RequestRouter

open RequestRouter.Text RequestRouter.Regex RequestRouter.Regex.Expr

namespace Regex.Expr

def avoids (c : Char) : Pattern → Bool
  | empty | look _ => true
  | one s => !s.mem c
  | seq a b | alt a b => avoids c a && avoids c b
  | capture _ e | times e _ | upTo e _ _ | plus e _ => avoids c e

theorem Matches.not_mem {e : Pattern} {b a : Option Char} {w : List Char} {c : Char} (h : Matches e b w a)
    (hc : e.avoids c = true) : c ∉ w := by
  induction h with
  | empty => exact List.not_mem_nil
  | one hd =>
    intro hm
    rw [List.mem_singleton] at hm
    simp [avoids, hm, hd] at hc
  | look => exact List.not_mem_nil
  | seq _ _ ihe ihf =>
    rw [avoids, Bool.and_eq_true] at hc
    exact fun hm => (List.mem_append.mp hm).elim (ihe hc.1) (ihf hc.2)
  | left _ ih =>
    rw [avoids, Bool.and_eq_true] at hc
    exact ih hc.1
  | right _ ih =>
    rw [avoids, Bool.and_eq_true] at hc
    exact ih hc.2
  | capture _ ih => exact ih hc
  | timesZero => exact List.not_mem_nil
  | timesSucc _ _ ihe ihf => exact fun hm => (List.mem_append.mp hm).elim (ihe hc) (ihf hc)
  | upToStop => exact List.not_mem_nil
  | upToMore _ _ ihe ihf => exact fun hm => (List.mem_append.mp hm).elim (ihe hc) (ihf hc)
  | plusOnce _ ih => exact ih hc
  | plusMore _ _ ihe ihf => exact fun hm => (List.mem_append.mp hm).elim (ihe hc) (ihf hc)

end Regex.Expr

def Plain (c : Option String) : Prop := ∀ p, c = some p → (Shorthand.lookup? p).isSome = true

instance (c : Option String) : Decidable (Plain c) :=
  decidable_of_iff (c.all fun p => (Shorthand.lookup? p).isSome) (Option.all_eq_true _ _)

theorem Plain.selfContained {c : Option String} (h : Plain c) : SelfContained c := by
  intro p hp hnone
  have hsome := h p hp
  rw [hnone] at hsome
  cases hsome

/-- What holds of the default pattern of paths and of the patterns of the shorthands holds of the expressions of such
variables. -/
theorem Plain.of_all {P : Pattern → Bool} (hdefault : (read? TemplateKind.path.defaultPattern.toList).all P = true)
    (hshort : Shorthand.all.all (fun s => (read? s.pattern.toList).all P) = true) {c : Option String} (h : Plain c)
    {e : Pattern} (he : read? (constraintPattern .path c).toList = some e) : P e = true := by
  cases c with
  | none => exact Option.all_eq_true _ _ |>.mp hdefault e he
  | some p =>
    obtain ⟨s, hs⟩ := Option.isSome_iff_exists.mp (h p rfl)
    have hall := List.all_eq_true.mp hshort s (List.mem_of_find?_eq_some hs)
    rw [constraintPattern, hs] at he
    exact Option.all_eq_true _ _ |>.mp hall e he

theorem Plain.avoids {c : Option String} (h : Plain c) {e : Pattern}
    (he : read? (constraintPattern .path c).toList = some e) : e.avoids '/' = true :=
  Plain.of_all (by decide +kernel) (by decide +kernel) h he

section Unique

variable {x y s t z z' tail : List Char}

theorem takeWhile_append_of_not_mem (hx : '/' ∉ x) (hs : '/' ∈ s) :
    (x ++ (s ++ t)).takeWhile (· != '/') = x ++ s.takeWhile (· != '/') := by
  have hall : ∀ c ∈ x, (c != '/') = true := by
    intro c hc
    have hne : c ≠ '/' := fun h => hx (h ▸ hc)
    simpa using hne
  rw [List.takeWhile_append_of_pos hall]
  cases hd : s.dropWhile (· != '/') with
  | nil =>
    have htake : s.takeWhile (· != '/') = s := by
      simpa [hd] using List.takeWhile_append_dropWhile (p := (· != '/')) (l := s)
    rw [← htake] at hs
    exact absurd (List.all_eq_true.mp List.all_takeWhile _ hs) (by decide)
  | cons c rest => rw [takeWhile_append_of_cons hd]

theorem eq_of_append_slash (hx : '/' ∉ x) (hy : '/' ∉ y) (hs : '/' ∈ s)
    (h : x ++ (s ++ t) = y ++ (s ++ z)) : x = y := by
  have htake := congrArg (List.takeWhile (· != '/')) h
  rw [takeWhile_append_of_not_mem hx hs, takeWhile_append_of_not_mem hy hs] at htake
  exact List.append_cancel_right htake

/-- What stands behind the last value leaves only one choice for it. -/
def Determines (z z' : List Char) : Prop :=
  ∀ x y : List Char, '/' ∉ x → '/' ∉ y → x ++ z = y ++ z' → x = y

theorem determines_self (z : List Char) : Determines z z :=
  fun _ _ _ _ h => List.append_cancel_right h

theorem no_extra_slash (hx : '/' ∉ x) (hy : '/' ∉ y) (h : x ++ tail = y ++ (tail ++ ['/'])) : False := by
  by_cases hs : '/' ∈ tail
  · have h' : x ++ (tail ++ []) = y ++ (tail ++ ['/']) := by rwa [List.append_nil]
    rw [eq_of_append_slash hx hy hs h'] at h
    have hlen := congrArg List.length (List.append_cancel_left h)
    simp at hlen
  · have hmem : '/' ∈ x ++ tail := by
      rw [h]
      simp
    exact (List.mem_append.mp hmem).elim hx hs

theorem determines_slash {strict : Bool} {slash slash' : List Char} (h : ExtraSlash strict slash)
    (h' : ExtraSlash strict slash') : Determines (tail ++ slash) (tail ++ slash') := by
  rcases h with rfl | ⟨-, rfl⟩ <;> rcases h' with rfl | ⟨-, rfl⟩
  · exact determines_self _
  · intro x y hx hy heq
    rw [List.append_nil] at heq
    exact (no_extra_slash hx hy heq).elim
  · intro x y hx hy heq
    rw [List.append_nil] at heq
    exact (no_extra_slash hy hx heq.symm).elim
  · exact determines_self _

theorem spread_unique {slots : List Slot} {us ws : List (List Char)} (hu : us.length = slots.length)
    (hw : ws.length = slots.length) (hslash : ∀ s ∈ slots.tail, '/' ∈ s.before)
    (hus : ∀ u ∈ us, '/' ∉ u) (hws : ∀ w ∈ ws, '/' ∉ w) (hz : Determines z z')
    (h : spread slots us ++ z = spread slots ws ++ z') : us = ws := by
  induction slots generalizing us ws with
  | nil =>
    rw [List.length_nil] at hu hw
    rw [List.eq_nil_of_length_eq_zero hu, List.eq_nil_of_length_eq_zero hw]
  | cons s slots ih =>
    obtain ⟨u, us, rfl⟩ := List.exists_cons_of_length_eq_add_one hu
    obtain ⟨w, ws, rfl⟩ := List.exists_cons_of_length_eq_add_one hw
    simp only [spread, List.append_assoc] at h
    have hrest := List.append_cancel_left h
    have huw : u = w := by
      have hu' := hus u List.mem_cons_self
      have hw' := hws w List.mem_cons_self
      cases slots with
      | nil =>
        rw [List.eq_nil_of_length_eq_zero (Nat.succ.inj hu),
          List.eq_nil_of_length_eq_zero (Nat.succ.inj hw)] at hrest
        exact hz u w hu' hw' hrest
      | cons s' rest =>
        obtain ⟨u', us, rfl⟩ := List.exists_cons_of_length_eq_add_one (Nat.succ.inj hu)
        obtain ⟨w', ws, rfl⟩ := List.exists_cons_of_length_eq_add_one (Nat.succ.inj hw)
        simp only [spread, List.append_assoc] at hrest
        exact eq_of_append_slash hu' hw' (hslash s' List.mem_cons_self) hrest
    have hall := ih (Nat.succ.inj hu) (Nat.succ.inj hw)
      (fun s hs => hslash s (List.mem_of_mem_tail hs))
      (fun u hu => hus u (List.mem_cons_of_mem _ hu)) (fun w hw => hws w (List.mem_cons_of_mem _ hw))
      (List.append_cancel_left (huw ▸ hrest))
    rw [huw, hall]

end Unique

namespace Template

variable {t : Template} {hs : List (Slot × Pattern)}

theorem captured_zip {found : Found} {text : List Char} {vs : List String}
    (hreads : ∀ x ∈ hs, x.1.Reads x.2)
    (hvalid : List.Forall₂ (fun s v => s.var.validator.isValid v = true) (hs.map (·.1)) vs)
    (hfound : List.Forall₂ (fun x u => x.2.Accepts u ∧ found.group? text x.1.var.group = some u) hs
      (vs.map (·.toList))) :
    List.Forall₂ (Captured found text) (hs.map (·.1)) ((hs.map (·.1.var.name)).zip vs) := by
  induction hs generalizing vs with
  | nil => exact .nil
  | cons x hs ih =>
    cases hvalid with
    | @cons _ v _ vs hv hvalid =>
      cases hfound with
      | cons hx hfound =>
        refine .cons ⟨?_, ?_⟩ (ih (fun y hy => hreads y (List.mem_cons_of_mem _ hy)) hvalid hfound)
        · rw [hx.2, Option.getD_some, String.ofList_toList]
        · exact (((hreads x List.mem_cons_self).valid v).mp hv).2

/-- If the text can be cut in one way only, the match finds the valid values that it was built from. -/
theorem Laid.captures_of_unique {strict : Bool} {tail slash : List Char} (hl : t.Laid strict tail hs)
    {text : String} {vs : List String} (hslash : ExtraSlash strict slash)
    (hvalid : List.Forall₂ (fun s v => s.var.validator.isValid v = true) t.slots vs)
    (htext : text.toList = spread t.slots (vs.map (·.toList)) ++ (tail ++ slash))
    (hunique : ∀ us slash', ExtraSlash strict slash' → List.Forall₂ (fun x u => x.2.Accepts u) hs us →
      text.toList = spread t.slots us ++ (tail ++ slash') → us = vs.map (·.toList)) :
    t.captures text = some (t.varNames.zip vs) := by
  rw [← hl.slots] at hvalid
  have haccepts := accepts_of_valid hl.reads hvalid
  obtain ⟨found, hfound⟩ := Option.isSome_iff_exists.mp (hl.search_isSome haccepts hslash htext)
  obtain ⟨us, slash', hslash', htext', hus⟩ := hl.search_cuts hfound
  have hsame := hunique us slash' hslash' (hus.imp fun _ _ h => h.1) htext'
  have hcaptured := captured_zip hl.reads hvalid (hsame ▸ hus)
  have hnames : t.varNames = hs.map (·.1.var.name) := by
    rw [varNames, ← hl.slots, List.map_map]
    rfl
  rw [hl.slots, ← hnames] at hcaptured
  exact captures_eq_some.mpr ⟨found, hfound, hcaptured⟩

theorem not_mem_of_accepts {us : List (List Char)} (ha : ∀ x ∈ hs, x.2.avoids '/' = true)
    (h : List.Forall₂ (fun x u => x.2.Accepts u) hs us) : ∀ u ∈ us, '/' ∉ u := by
  induction h with
  | nil => exact nofun
  | @cons x u hs us hu _ ih =>
    intro v hv
    rcases List.mem_cons.mp hv with rfl | hv
    · exact Matches.not_mem hu (ha x List.mem_cons_self)
    · exact ih (fun y hy => ha y (List.mem_cons_of_mem _ hy)) v hv

/-- Variables without patterns of their own. -/
def PlainVars (t : Template) : Prop := ∀ c ∈ constraints t.kind t.source, Plain c

instance (t : Template) : Decidable t.PlainVars :=
  inferInstanceAs (Decidable (∀ c ∈ constraints t.kind t.source, Plain c))

theorem plain_slots {spans : List (List Char × List Char)} {slots : List Slot} {kind : TemplateKind}
    (h : List.Forall₂ (Slot.Made kind) spans slots) (hc : ∀ span ∈ spans, Plain (constraint? span.2)) :
    ∀ s ∈ slots, ∃ c, Plain c ∧ s.var.pattern = constraintPattern kind c := by
  induction h with
  | nil => exact nofun
  | @cons span s spans slots hs _ ih =>
    intro x hx
    rcases List.mem_cons.mp hx with rfl | hx
    · exact ⟨_, hc span List.mem_cons_self, hs.var.pattern⟩
    · exact ih (fun y hy => hc y (List.mem_cons_of_mem _ hy)) x hx

theorem Made.plain_slots (h : t.Made) (hp : t.PlainVars) :
    ∀ s ∈ t.slots, ∃ c, Plain c ∧ s.var.pattern = constraintPattern t.kind c := by
  obtain ⟨cut, hcut, hslots⟩ := h.cut
  exact Template.plain_slots hslots fun span hspan => hp _ (mem_constraints hcut hspan)

theorem Made.captures_path (h : t.Made) (hk : t.kind = .path) (hp : t.PlainVars)
    (hslash : ∀ s ∈ t.slots.tail, '/' ∈ s.before) {values : String → Option String} {text : String}
    (he : t.expand values = .ok text) :
    ∃ vs, List.Forall₂ (Supplied values) t.slots vs ∧ t.captures text = some (t.varNames.zip vs) := by
  have hquery : t.kind ≠ .query := by simp [hk]
  obtain ⟨hs, tail, slash, hl, htail, hextra⟩ := h.laid (by simp [hk]) (h.presenceOnly_eq_false hquery)
    fun c hc => (hp c hc).selfContained
  obtain ⟨vs, hsupplied, htext⟩ := (expand_eq_ok hquery (h.queryKey_eq_none hquery)).mp he
  have hvalid := hsupplied.imp fun _ _ h => h.2
  have havoids : ∀ x ∈ hs, x.2.avoids '/' = true := by
    intro x hx
    have hmem : x.1 ∈ t.slots := by
      rw [← hl.slots]
      exact List.mem_map_of_mem hx
    obtain ⟨c, hc, hpattern⟩ := h.plain_slots hp x.1 hmem
    rw [hk] at hpattern
    exact hc.avoids (hpattern ▸ (hl.reads x hx).pattern)
  have hvs := accepts_of_valid hl.reads (hl.slots.symm ▸ hvalid)
  rw [htail] at htext
  refine ⟨vs, hsupplied, hl.captures_of_unique hextra hvalid htext fun us slash' hextra' hus htext' => ?_⟩
  have hlen : t.slots.length = hs.length := by rw [← hl.slots, List.length_map]
  exact spread_unique (by rw [hlen, hus.length_eq]) (by rw [hlen, hvs.length_eq]) hslash
    (not_mem_of_accepts havoids hus) (not_mem_of_accepts havoids hvs)
    (determines_slash hextra' hextra) (htext'.symm.trans htext)

structure KeyValue (t : Template) (key : String) (s : Slot) : Prop where
  key : t.queryKey = some key
  slots : t.slots = [s]
  before : s.before = []
  tail : t.tail = []

theorem exists_keyValue_iff : (∃ key s, t.KeyValue key s) ↔
    t.queryKey.isSome = true ∧ t.slots.map (·.before) = [[]] ∧ t.tail = [] := by
  constructor
  · rintro ⟨key, s, h⟩
    exact ⟨by simp [h.key], by simp [h.slots, h.before], h.tail⟩
  · rintro ⟨hkey, hslots, htail⟩
    obtain ⟨key, hkey⟩ := Option.isSome_iff_exists.mp hkey
    obtain ⟨s, hs, hbefore⟩ := List.map_eq_singleton_iff.mp hslots
    exact ⟨key, s, hkey, hs, hbefore, htail⟩

instance (t : Template) : Decidable (∃ key s, t.KeyValue key s) := decidable_of_iff' _ exists_keyValue_iff

variable {key : String} {s : Slot}

theorem KeyValue.spread (h : t.KeyValue key s) (v : List Char) : spread t.slots [v] = v := by
  simp [h.slots, h.before, RequestRouter.spread]

theorem Made.presenceOnly_of_keyValue (h : t.Made) (hq : t.KeyValue key s) : t.presenceOnly = false := by
  cases hp : t.presenceOnly with
  | false => rfl
  | true =>
    obtain ⟨cut, hcut, hslots⟩ := h.cut
    rw [List.isEmpty_iff.mp (h.presenceOnly.mp hp).2] at hcut
    cases hcut
    rw [hq.slots] at hslots
    cases hslots

theorem Made.expand_query (h : t.Made) (hk : t.kind = .query) (hq : t.KeyValue key s)
    {values : String → Option String} {text : String} (he : t.expand values = .ok text) :
    ∃ v, Supplied values s v ∧
      text.toList = Percent.encode key.toList ++ '=' :: Percent.encode v.toList := by
  obtain ⟨filled, hr, rfl⟩ := exists_of_map_eq_ok he
  obtain ⟨vs, rfl, hall⟩ := resolve_eq_ok.mp hr
  rw [hq.slots] at hall
  cases hall with
  | @cons _ v _ vs hv hvs =>
    cases hvs
    refine ⟨v, hv, ?_⟩
    simp only [hq.key, h.presenceOnly_of_keyValue hq, hq.slots, hq.tail, fill, hk]
    simp [hq.before]

theorem Made.captures_query (h : t.Made) (hk : t.kind = .query) (hp : t.PlainVars) (hq : t.KeyValue key s)
    {value : String} (hv : s.var.validator.isValid value = true) :
    t.captures value = some [(s.var.name, value)] := by
  obtain ⟨hs, tail, slash, hl, htail, hextra⟩ := h.laid (by simp [hk]) (h.presenceOnly_of_keyValue hq)
    fun c hc => (hp c hc).selfContained
  have hstrict : decide (t.options.strictSlash = true ∧ t.kind = .path) = false := by simp [hk]
  rw [hstrict] at hl hextra
  obtain ⟨rfl, rfl⟩ := List.append_eq_nil_iff.mp (htail.symm.trans hq.tail)
  have hvalid : List.Forall₂ (fun s v => s.var.validator.isValid v = true) t.slots [value] := by
    rw [hq.slots]
    exact .cons hv .nil
  have htext : value.toList = RequestRouter.spread t.slots [value.toList] ++ ([] ++ []) := by
    rw [hq.spread, List.append_nil, List.append_nil]
  have hunique : ∀ us slash', ExtraSlash false slash' → List.Forall₂ (fun x u => x.2.Accepts u) hs us →
      value.toList = RequestRouter.spread t.slots us ++ ([] ++ slash') → us = [value].map (·.toList) := by
    intro us slash' hextra' hus htext'
    have hslash : slash' = [] := hextra'.resolve_right fun h => Bool.noConfusion h.1
    have hlen : us.length = 1 := by
      rw [← hus.length_eq, ← List.length_map, hl.slots, hq.slots]
      rfl
    obtain ⟨u, rfl⟩ := List.length_eq_one_iff.mp hlen
    rw [hslash, hq.spread, List.append_nil, List.append_nil] at htext'
    rw [← htext']
    rfl
  have hcaptures := hl.captures_of_unique hextra hvalid htext hunique
  rw [hcaptures, varNames, hq.slots]
  rfl

end Template

end RequestRouter
