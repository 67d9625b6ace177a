import RequestRouter.Proofs.Pattern.Braces
import RequestRouter.Proofs.Pattern.FinalSlash
import RequestRouter.Proofs.Regex.Ending
/-!
The optional slash of a path. If no match of what stands before it ends in a slash, the search of a path with a
final slash passes the same places as the search of the path without it, and only the optional slash reads the one
that was added. So both give the same values.
-/
namespace RequestRouter

open RequestRouter.Text RequestRouter.Regex RequestRouter.Regex.Expr

section Search

variable {text : List Char} {es fs : List Pattern} {f f' : Found} {k : Nat}

theorem captures_of_search (hfs : (concat fs).groups = [])
    (h : (concat (look .textStart :: (es ++ fs))).search text = some f) :
    (((concat es).plan text).starts ((concat fs).beginnings text)).testBit 0 = true ∧
      (((concat es).plan text).follow ((concat fs).beginnings text) ⟨0, []⟩).captures = f.captures := by
  obtain ⟨hfollow, hstart, -⟩ := search_eq_some h
  have hzero : f.start = 0 := (spans_textStart.mp (search_passes h).spans).1
  rw [hzero] at hfollow hstart
  have hmark : (((concat (es ++ fs)).plan text).starts (everywhere text)).testBit 0 = true := by
    rw [beginnings, starts_concat_cons] at hstart
    exact (Bool.and_eq_true_iff.mp ((Nat.testBit_and ..).symm.trans hstart)).2
  have hstay (goal : Marks) : ((look .textStart : Pattern).plan text).follow goal ⟨0, []⟩ = ⟨0, []⟩ := rfl
  rw [follow_concat_cons, hstay] at hfollow
  have hcaptures := captures_concat_append (p := ⟨0, []⟩) hfs (within_everywhere text) hmark
  rw [hfollow] at hcaptures
  rw [starts_concat_append] at hmark
  exact ⟨hmark, hcaptures.symm⟩

theorem testBit_closing (text : List Char) (k : Nat) :
    ((concat (closing .path true)).beginnings text).testBit k = true ↔
      k ≤ text.length ∧ ExtraSlash true (text.drop k) := by
  have hpath : true = true → TemplateKind.path ≠ .leading := fun _ => by decide
  rw [testBit_beginnings]
  constructor
  · rintro ⟨j, h⟩
    have hk := h.le_length
    exact ⟨hk, ((spans_closing hpath hk).mp ⟨j, h⟩).resolve_left (by decide)⟩
  · rintro ⟨hk, h⟩
    exact (spans_closing hpath hk).mpr (.inr h)

theorem extraSlash_drop (hlast : text.getLast? ≠ some '/') (hk : k ≤ text.length) :
    ExtraSlash true (text.drop k) ↔ k = text.length := by
  constructor
  · rintro (hnil | ⟨-, hslash⟩)
    · exact Nat.le_antisymm hk (List.drop_eq_nil_iff.mp hnil)
    · refine absurd ?_ hlast
      rw [← List.take_append_drop k text, hslash, List.getLast?_concat]
  · rintro rfl
    exact .inl List.drop_length

theorem extraSlash_drop_append (hk : k ≤ text.length) :
    ExtraSlash true ((text ++ ['/']).drop k) ↔ k = text.length := by
  rw [List.drop_append_of_le_length hk]
  constructor
  · rintro (hnil | ⟨-, hslash⟩)
    · simp at hnil
    · have hrest : text.drop k = [] := by simpa using hslash
      exact Nat.le_antisymm hk (List.drop_eq_nil_iff.mp hrest)
  · rintro rfl
    exact .inr ⟨rfl, by rw [List.drop_length, List.nil_append]⟩

theorem captures_of_slash (hes : ∀ e ∈ es, e.lookFree = true) (hlast : text.getLast? ≠ some '/')
    (hinside : ∀ j, (concat es).Spans (text ++ ['/']) 0 j → j ≤ text.length)
    (h : (concat (look .textStart :: (es ++ closing .path true))).search text = some f)
    (h' : (concat (look .textStart :: (es ++ closing .path true))).search (text ++ ['/']) = some f') :
    f'.captures = f.captures := by
  have hgroups : (concat (closing .path true)).groups = [] := rfl
  obtain ⟨-, hcaptures⟩ := captures_of_search hgroups h
  obtain ⟨hmark, hcaptures'⟩ := captures_of_search hgroups h'
  have hw := (starts_plan text (concat (closing .path true))).within (within_everywhere text)
  have hw' := (starts_plan (text ++ ['/']) (concat (closing .path true))).within (within_everywhere _)
  obtain ⟨hgoal, hpass⟩ := follow_plan _ (concat es) _ hw' ⟨0, []⟩ hmark
  have hplace := hinside _ hpass.spans
  have hwhole := (extraSlash_drop_append hplace).mp ((testBit_closing _ _).mp hgoal).2
  have hblind : Blind [] ['/'] (concat es) := .of_lookFree (lookFree_concat hes)
  have hkeeps := follow_part text hblind
    ((concat (closing .path true)).beginnings text) ((concat (closing .path true)).beginnings (text ++ ['/']))
    hw hw' ⟨0, []⟩
  rw [← hcaptures, ← hcaptures']
  refine congrArg Progress.captures ((hkeeps ?_ hmark ⟨text.length, hwhole, ?_⟩).trans (Progress.moved_zero _))
  · intro j _ hj
    obtain ⟨hle, hj⟩ := (testBit_closing _ _).mp hj
    refine (testBit_closing _ _).mpr ⟨by simp; omega, ?_⟩
    exact (extraSlash_drop_append hle).mpr ((extraSlash_drop hlast hle).mp hj)
  · exact (testBit_closing _ _).mpr ⟨Nat.le_refl _, .inl List.drop_length⟩

end Search

theorem Plain.firm {c : Option String} (h : Plain c) {e : Pattern}
    (he : read? (constraintPattern .path c).toList = some e) : e.firm = true :=
  Plain.of_all (by decide +kernel) (by decide +kernel) h he

namespace Template

variable {t : Template} {cut : Cut} {s : String}

theorem lookFree_holes {hs : List (Slot × Pattern)} (h : ∀ x ∈ hs, x.2.lookFree = true) :
    ∀ e ∈ holes hs, e.lookFree = true := by
  induction hs with
  | nil => exact nofun
  | cons x hs ih =>
    intro e he
    rcases List.mem_append.mp he with he | he
    · obtain ⟨c, -, rfl⟩ := List.mem_map.mp he
      rfl
    · rcases List.mem_cons.mp he with rfl | he
      · exact h x List.mem_cons_self
      · exact ih (fun y hy => h y (List.mem_cons_of_mem _ hy)) e he

/-- If the optional slash is the only one at the end, no match of what stands before it ends in one. -/
theorem Built.firm (h : t.Built cut) (hk : t.kind = .path) (hstrict : t.options.strictSlash = true)
    (hplain : t.PlainVars) (hend : ¬ "//".toList <:+ t.source.toList) : cut.Firm t.kind := by
  have hbody : t.body = t.source.toList := by simp [body, splitKey, hk]
  refine ⟨fun hlast => ?_, fun _ span hspan e he => ?_⟩
  · have hwhole : cut.toChars = t.core := (Cut.ofChars?_eq_some.mp h.ofChars).whole
    have hcore : t.core.getLast? = some '/' := by
      rw [← hwhole, Cut.toChars, List.getLast?_append, hlast]
      rfl
    obtain ⟨front, hfront⟩ := List.getLast?_eq_some_iff.mp hcore
    by_cases hdrops : t.DropsSlash
    · refine hend ⟨front, ?_⟩
      rw [← hbody, body_eq, if_pos hdrops, hfront, List.append_assoc]
      rfl
    · refine hdrops ⟨⟨hstrict, hk⟩, ?_⟩
      rwa [core, if_neg hdrops] at hcore
  · rw [hk] at he
    exact (hplain _ (h.mem_constraints (List.mem_of_getLast? hspan))).firm he

section Slash

variable (h : t.Built cut) (hk : t.kind = .path) (hstrict : t.options.strictSlash = true)
  (hself : ∀ span ∈ cut.spans, SelfContained (constraint? span.2)) (hfirm : cut.Firm t.kind)

include h hk hstrict hself hfirm

theorem Built.search_slash_isSome {text : List Char} (hlast : text.getLast? ≠ some '/') :
    (t.regex.expr.search (text ++ ['/'])).isSome = true ↔ (t.regex.expr.search text).isSome = true := by
  have hquery : t.kind ≠ .query := by simp [hk]
  have hown : ∀ span ∈ cut.spans, OnItsOwn (constraint? span.2) := fun span hs => (hself span hs).onItsOwn
  have hdecide : decide t.Strict = true := decide_eq_true ⟨hstrict, hk⟩
  constructor
  · intro hsearch
    have hspans := h.spans_of_search_slash hk hself hfirm hsearch
    exact (h.search_isSome hquery hown).mpr ⟨_, hspans, .inr (.inl List.drop_length)⟩
  · intro hsearch
    obtain ⟨k, hspans, hends⟩ := (h.search_isSome hquery hown).mp hsearch
    have hle := hspans.le_length (Nat.zero_le _)
    have hextra := hends.resolve_left (by simp [hk])
    rw [hdecide] at hextra
    obtain rfl := (extraSlash_drop hlast hle).mp hextra
    refine (h.search_isSome hquery hown).mpr ⟨_, (Cut.spansFrom_more hself hle).mpr hspans, .inr ?_⟩
    rw [hdecide]
    exact (extraSlash_drop_append hle).mpr rfl

theorem Built.captures_slash (hlast : s.toList.getLast? ≠ some '/') : t.captures (s ++ "/") = t.captures s := by
  have hregex := h.regex
  rw [pattern, h.presenceOnly_eq_false (by simp [hk])] at hregex
  obtain ⟨hs, hlaid⟩ := laid_of_compile? h.slots hself (by simp [hk]) hregex
  have hexpr : t.regex.expr = concat (look .textStart ::
      ((holes hs ++ (literalText t.kind cut.tail).map charPart) ++ closing .path true)) := by
    rw [hlaid.expr, ending, decide_eq_true (show t.Strict from ⟨hstrict, hk⟩), List.append_assoc]
    rfl
  have hlookFree : ∀ e ∈ holes hs ++ (literalText t.kind cut.tail).map charPart, e.lookFree = true := by
    intro e he
    rcases List.mem_append.mp he with he | he
    · exact lookFree_holes hlaid.lookFree e he
    · obtain ⟨c, -, rfl⟩ := List.mem_map.mp he
      rfl
  have hinside : ∀ j, (concat (holes hs ++ (literalText t.kind cut.tail).map charPart)).Spans
      (s.toList ++ ['/']) 0 j → j ≤ s.toList.length := by
    intro j hspans
    rw [← List.append_nil (List.map ..), Cut.spans_slots h.slots hlaid.slots fun x hx => (hlaid.reads x hx).parses]
      at hspans
    obtain ⟨k, hcut, hrest⟩ := hspans
    obtain ⟨rfl, -⟩ := spans_concat_nil.mp hrest
    exact Cut.Spans.le_of_firm (.inl hk) hfirm hcut
  have hiff := h.search_slash_isSome hk hstrict hself hfirm hlast
  rw [captures, captures, capturesWith, capturesWith, Regex.search, Regex.search, Path.toList_append_slash]
  cases hfound : t.regex.expr.search s.toList with
  | none =>
    rw [hfound, Option.isSome_none, iff_false_right Bool.false_ne_true, Bool.not_eq_true,
      Option.isSome_eq_false_iff, Option.isNone_iff_eq_none] at hiff
    rw [hiff]
    rfl
  | some found =>
    obtain ⟨found', hfound'⟩ := Option.isSome_iff_exists.mp (hiff.mpr (by rw [hfound]; rfl))
    rw [hfound']
    refine values_congr fun slot hslot => ?_
    obtain ⟨x, hx, rfl⟩ := List.mem_map.mp (hlaid.slots ▸ hslot)
    have hsame : found'.captures = found.captures := by
      rw [hexpr] at hfound hfound'
      exact captures_of_slash hlookFree hlast hinside hfound hfound'
    rw [hlaid.expr] at hfound
    cases search_run hfound with
    | cons _ hrun =>
      have hin := run_holes_inside (List.pairwise_cons.mp hlaid.disjoint).2 hrun x hx
      rw [Found.group?, Found.group?, hsame]
      exact Option.map_congr fun c hc => stretch_more (hin c hc)

end Slash

end Template

end RequestRouter
