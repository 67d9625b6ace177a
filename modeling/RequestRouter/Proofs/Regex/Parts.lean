import RequestRouter.Proofs.Regex.Search
/-!
Patterns made of parts one after the other, as templates spell them: literal characters, groups that capture,
and conditions at both ends. What a part without conditions accepts does not depend on where it stands. A
search passes the parts in order, and each group keeps the stretch that it stands for.
-/
namespace RequestRouter.Regex

namespace Expr

section LookFree

variable {σ α : Type}

def lookFree : Expr σ α → Bool
  | empty | one _ => true
  | look _ => false
  | seq a b | alt a b => lookFree a && lookFree b
  | capture _ e | times e _ | upTo e _ _ | plus e _ => lookFree e

end LookFree

variable {text : List Char} {e f : Pattern} {es fs : List Pattern} {i j k : Nat}

def Accepts (e : Pattern) (w : List Char) : Prop := Matches e none w none

/-- Without conditions the characters around a stretch do not count. -/
theorem Matches.moved {w : List Char} {b a : Option Char} (h : Matches e b w a) (hl : e.lookFree = true)
    (b' a' : Option Char) : Matches e b' w a' := by
  induction h generalizing b' a' with
  | empty => exact .empty
  | one hc => exact .one hc
  | look => cases hl
  | seq _ _ ihe ihf =>
    rw [lookFree, Bool.and_eq_true] at hl
    exact .seq (ihe hl.1 _ _) (ihf hl.2 _ _)
  | left _ ih =>
    rw [lookFree, Bool.and_eq_true] at hl
    exact .left (ih hl.1 _ _)
  | right _ ih =>
    rw [lookFree, Bool.and_eq_true] at hl
    exact .right (ih hl.2 _ _)
  | capture _ ih => exact .capture (ih hl _ _)
  | timesZero => exact .timesZero
  | timesSucc _ _ ihe ihf => exact .timesSucc (ihe hl _ _) (ihf hl _ _)
  | upToStop => exact .upToStop
  | upToMore _ _ ihe ihf => exact .upToMore (ihe hl _ _) (ihf hl _ _)
  | plusOnce _ ih => exact .plusOnce (ih hl _ _)
  | plusMore _ _ ihe ihf => exact .plusMore (ihe hl _ _) (ihf hl _ _)

theorem matches_iff_accepts (hl : e.lookFree = true) {w : List Char} {b a : Option Char} :
    Matches e b w a ↔ e.Accepts w :=
  ⟨fun h => h.moved hl none none, fun h => h.moved hl b a⟩

theorem Spans.accepts_stretch (h : e.Spans text i j) (hl : e.lookFree = true) :
    e.Accepts (stretch text i j) :=
  (matches_iff_accepts hl).mp h.accepts

theorem stretch_add_length {u v : List Char} (h : text.drop i = u ++ v) :
    stretch text i (i + u.length) = u := by
  rw [stretch, List.drop_take, Nat.add_sub_cancel_left, h, List.take_left]

theorem spans_of_accepts {u v : List Char} (h : text.drop i = u ++ v) (hi : i ≤ text.length)
    (hl : e.lookFree = true) (he : e.Accepts u) : e.Spans text i (i + u.length) := by
  have hlen : (text.drop i).length = u.length + v.length := by rw [h, List.length_append]
  rw [List.length_drop] at hlen
  refine ⟨Nat.le_add_right i _, by omega, ?_⟩
  rw [stretch_add_length h]
  exact he.moved hl _ _

theorem spans_whole (text : List Char) : e.Spans text 0 text.length ↔ e.Accepts text := by
  have hw : stretch text 0 text.length = text := by simp [stretch]
  constructor
  · intro h
    simpa [hw, Accepts] using h.accepts
  · intro h
    exact ⟨Nat.zero_le _, Nat.le_refl _, by simpa [hw, Accepts] using h⟩

section Concat

theorem spans_concat_nil : (concat ([] : List Pattern)).Spans text i j ↔ i = j ∧ j ≤ text.length :=
  spans_empty

theorem spans_concat_cons :
    (concat (e :: es)).Spans text i j ↔ ∃ k, e.Spans text i k ∧ (concat es).Spans text k j := by
  cases es with
  | nil =>
    simp only [concat, spans_empty]
    constructor
    · intro h
      exact ⟨j, h, rfl, h.inside⟩
    · rintro ⟨k, h, rfl, -⟩
      exact h
  | cons f fs => exact spans_seq

theorem starts_concat_cons (goal : Marks) :
    ((concat (e :: es)).plan text).starts goal =
      (e.plan text).starts (((concat es).plan text).starts goal) := by
  cases es <;> rfl

theorem follow_concat_cons (goal : Marks) (p : Progress) :
    ((concat (e :: es)).plan text).follow goal p = ((concat es).plan text).follow goal
      ((e.plan text).follow (((concat es).plan text).starts goal) p) := by
  cases es with
  | nil => rfl
  | cons f fs => exact Plan.follow_seq _ _ goal p

theorem spans_concat_append :
    (concat (es ++ fs)).Spans text i j ↔ ∃ k, (concat es).Spans text i k ∧ (concat fs).Spans text k j := by
  induction es generalizing i with
  | nil =>
    simp only [List.nil_append, spans_concat_nil]
    constructor
    · exact fun h => ⟨i, ⟨rfl, h.le_length⟩, h⟩
    · rintro ⟨k, ⟨rfl, -⟩, h⟩
      exact h
  | cons e es ih =>
    simp only [List.cons_append, spans_concat_cons, ih]
    constructor
    · rintro ⟨m, he, k, hes, hfs⟩
      exact ⟨k, ⟨m, he, hes⟩, hfs⟩
    · rintro ⟨k, ⟨m, he, hes⟩, hfs⟩
      exact ⟨m, he, k, hes, hfs⟩

theorem starts_concat_append (goal : Marks) :
    ((concat (es ++ fs)).plan text).starts goal =
      ((concat es).plan text).starts (((concat fs).plan text).starts goal) := by
  induction es with
  | nil => rfl
  | cons e es ih => rw [List.cons_append, starts_concat_cons, ih, starts_concat_cons]

theorem follow_concat_append (goal : Marks) (p : Progress) :
    ((concat (es ++ fs)).plan text).follow goal p = ((concat fs).plan text).follow goal
      (((concat es).plan text).follow (((concat fs).plan text).starts goal) p) := by
  induction es generalizing p with
  | nil => rfl
  | cons e es ih => rw [List.cons_append, follow_concat_cons, ih, starts_concat_append, follow_concat_cons]

theorem lookFree_concat (h : ∀ e ∈ es, e.lookFree = true) : (concat es).lookFree = true := by
  induction es with
  | nil => rfl
  | cons e es ih =>
    have he := h e List.mem_cons_self
    have hes := ih fun x hx => h x (List.mem_cons_of_mem _ hx)
    cases es with
    | nil => exact he
    | cons f fs => exact (Bool.and_eq_true ..).mpr ⟨he, hes⟩

inductive Run (text : List Char) : List Pattern → Progress → Progress → Prop where
  | nil (p : Progress) : Run text [] p p
  | cons {e es p q r} : e.Passes text p q → Run text es q r → Run text (e :: es) p r

theorem run_concat {goal : Marks} (hg : Within text.length goal) {p : Progress}
    (hp : (((concat es).plan text).starts goal).testBit p.place = true) :
    goal.testBit (((concat es).plan text).follow goal p).place = true ∧
      Run text es p (((concat es).plan text).follow goal p) := by
  induction es generalizing p with
  | nil => exact ⟨hp, .nil p⟩
  | cons e es ih =>
    rw [starts_concat_cons] at hp
    obtain ⟨hmid, hpass⟩ :=
      follow_plan text e _ ((starts_plan text (concat es)).within hg) p hp
    obtain ⟨hgoal, hrun⟩ := ih hmid
    rw [follow_concat_cons]
    exact ⟨hgoal, .cons hpass hrun⟩

theorem search_run {f : Found} (h : (concat es).search text = some f) :
    Run text es ⟨f.start, []⟩ ⟨f.stop, f.captures⟩ := by
  obtain ⟨hfollow, hstart, -⟩ := search_eq_some h
  rw [← hfollow]
  exact (run_concat (p := ⟨f.start, []⟩) (within_everywhere text) hstart).2

variable {p q : Progress}

theorem Passes.find_eq (h : e.Passes text p q) {name : String} (hn : name ∉ e.groups) :
    q.captures.find? (·.1 == name) = p.captures.find? (·.1 == name) := by
  obtain ⟨new, hq, hnew⟩ := h.captures
  have hnone : new.find? (·.1 == name) = none := by
    rw [List.find?_eq_none]
    rintro c hc heq
    exact hn (by simpa [← (beq_iff_eq.mp heq)] using hnew c hc)
  rw [hq, List.find?_append, hnone, Option.none_or]

theorem Run.find_eq (h : Run text es p q) {name : String} (hn : ∀ e ∈ es, name ∉ e.groups) :
    q.captures.find? (·.1 == name) = p.captures.find? (·.1 == name) := by
  induction h with
  | nil => rfl
  | cons he _ ih =>
    rw [ih fun e hm => hn e (List.mem_cons_of_mem _ hm), he.find_eq (hn _ List.mem_cons_self)]

end Concat

end Expr

end RequestRouter.Regex
