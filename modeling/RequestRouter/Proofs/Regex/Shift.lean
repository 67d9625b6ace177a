import RequestRouter.Proofs.Regex.Parts
/-!
A part of a text. An expression whose conditions look only at what comes next matches from a place of a text on as
it matches the rest of the text alone, and without conditions it matches in any part of a text as in the part
alone: it spans the same stretches, marks the same places and prefers the same way, all of them moved by the place
where the part begins. Fewer goals do not change the way that is preferred as long as it ends at one of them.
-/
namespace RequestRouter.Regex

open Relation

/-- The condition does not look at the character before the place. -/
def Assertion.ahead : Assertion → Bool
  | textEnd | lineEnd => true
  | textStart | lineStart | lineStartCrlf | lineEndCrlf | wordBoundary | notWordBoundary | wordStart | wordEnd =>
    false

theorem Assertion.holds_of_ahead {x : Assertion} (h : x.ahead = true) (b b' a : Option Char) :
    x.holds b a = x.holds b' a := by
  cases x <;> first | rfl | cases h

def Progress.moved (p : Progress) (d : Nat) : Progress :=
  ⟨p.place + d, p.captures.map fun c => (c.1, c.2.1 + d, c.2.2 + d)⟩

@[simp] theorem Progress.moved_place (p : Progress) (d : Nat) : (p.moved d).place = p.place + d := rfl

@[simp] theorem Progress.moved_zero (p : Progress) : p.moved 0 = p := by simp [moved]

/-- A loop in a part of a text decides like the loop in the text, which can take another copy, as `more'` says, or
stay, as `stop'` says: what the loop in the part may do, the other one may do too, and of what the other one does it
may do what satisfies `P`. -/
theorem Progress.moved_choice {P : Progress → Prop} {p q r : Progress} {greedy more more' stop stop' : Bool} {d : Nat}
    (hP : P (if greedy then if more' then q else p.moved d else if stop' then p.moved d else q))
    (h : stop' = true ∨ more' = true) (hmore : more = true → more' = true) (hstop : stop = true → stop' = true)
    (hstay : P (p.moved d) → stop = true) (hgo : more' = true → P q → more = true ∧ q = r.moved d) :
    (if greedy then if more' then q else p.moved d else if stop' then p.moved d else q) =
      (if greedy then if more then r else p else if stop then p else r).moved d := by
  cases greedy with
  | true =>
    cases hm : more' with
    | true =>
      simp only [hm, if_true] at hP
      obtain ⟨hmore, rfl⟩ := hgo hm hP
      simp [hmore]
    | false =>
      have hno : more = false := by cases more <;> simp_all
      simp [hno]
  | false =>
    cases hs : stop' with
    | true =>
      simp only [hs, if_true, Bool.false_eq_true, if_false] at hP
      simp [hstay hP]
    | false =>
      simp only [hs, Bool.false_eq_true, if_false] at hP
      have hno : stop = false := by cases stop <;> simp_all
      obtain ⟨-, rfl⟩ := hgo (h.resolve_left (by simp [hs])) hP
      simp [hno]

section Marks

variable {goal : Marks} {d n : Nat}

theorem testBit_shift (goal : Marks) (d i : Nat) : (goal >>> d).testBit i = goal.testBit (i + d) := by
  rw [Nat.testBit_shiftRight, Nat.add_comm]

theorem Within.shift (h : Within n goal) (d : Nat) : Within (n - d) (goal >>> d) := by
  intro i hi
  rw [testBit_shift] at hi
  exact Nat.le_sub_of_add_le (h _ hi)

theorem everywhere_shift (text : List Char) (h : d ≤ text.length) :
    everywhere text >>> d = everywhere (text.drop d) := by
  refine Nat.eq_of_testBit_eq fun i => Bool.eq_iff_iff.mpr ?_
  rw [testBit_shift, Expr.testBit_everywhere, Expr.testBit_everywhere, List.length_drop]
  omega

end Marks

namespace Expr

def ahead : Pattern → Bool
  | empty | one _ => true
  | look x => x.ahead
  | seq a b | alt a b => ahead a && ahead b
  | capture _ e | times e _ | upTo e _ _ | plus e _ => ahead e

theorem ahead_of_lookFree {e : Pattern} (h : e.lookFree = true) : e.ahead = true := by
  induction e with
  | empty | one => rfl
  | look => cases h
  | seq a b iha ihb | alt a b iha ihb =>
    rw [lookFree, Bool.and_eq_true] at h
    rw [ahead, iha h.1, ihb h.2, Bool.and_true]
  | capture _ e ih | times e _ ih | upTo e _ _ ih | plus e _ ih => exact ih h

theorem ahead_concat {es : List Pattern} (h : ∀ e ∈ es, e.ahead = true) : (concat es).ahead = true := by
  induction es with
  | nil => rfl
  | cons e es ih =>
    have he := h e List.mem_cons_self
    have hes := ih fun x hx => h x (List.mem_cons_of_mem _ hx)
    cases es with
    | nil => exact he
    | cons f fs => exact (Bool.and_eq_true ..).mpr ⟨he, hes⟩

theorem Matches.after {e : Pattern} {b a : Option Char} {w : List Char} (h : Matches e b w a)
    (he : e.ahead = true) (b' : Option Char) : Matches e b' w a := by
  induction h generalizing b' with
  | empty => exact .empty
  | one hc => exact .one hc
  | look hx => exact .look (Assertion.holds_of_ahead he _ _ _ ▸ hx)
  | seq _ _ ihe ihf =>
    rw [ahead, Bool.and_eq_true] at he
    exact .seq (ihe he.1 _) (ihf he.2 _)
  | left _ ih =>
    rw [ahead, Bool.and_eq_true] at he
    exact .left (ih he.1 _)
  | right _ ih =>
    rw [ahead, Bool.and_eq_true] at he
    exact .right (ih he.2 _)
  | capture _ ih => exact .capture (ih he _)
  | timesZero => exact .timesZero
  | timesSucc _ _ ihe ihf => exact .timesSucc (ihe he _) (ihf he _)
  | upToStop => exact .upToStop
  | upToMore _ _ ihe ihf => exact .upToMore (ihe he _) (ihf he _)
  | plusOnce _ ih => exact .plusOnce (ih he _)
  | plusMore _ _ ihe ihf => exact .plusMore (ihe he _) (ihf he _)

section Stretch

variable {text more : List Char} {e : Pattern} {d i j : Nat}

theorem stretch_drop (text : List Char) (d i j : Nat) :
    stretch (text.drop d) i j = stretch text (i + d) (j + d) := by
  rw [stretch, stretch, List.take_drop, List.drop_drop, Nat.add_comm d j, Nat.add_comm d i]

theorem stretch_more (hj : j ≤ text.length) : stretch (text ++ more) i j = stretch text i j := by
  rw [stretch, List.take_append_of_le_length hj, stretch]

theorem spans_drop (he : e.ahead = true) (hd : d ≤ text.length) :
    e.Spans (text.drop d) i j ↔ e.Spans text (i + d) (j + d) := by
  have hplace : i ≤ j ↔ i + d ≤ j + d := (Nat.add_le_add_iff_right ..).symm
  have hend : j ≤ (text.drop d).length ↔ j + d ≤ text.length := by
    rw [List.length_drop]
    omega
  have hafter : ((text.drop d).drop j).head? = (text.drop (j + d)).head? := by
    rw [List.drop_drop, Nat.add_comm]
  constructor
  · rintro ⟨hi, hj, h⟩
    rw [stretch_drop, hafter] at h
    exact ⟨hplace.mp hi, hend.mp hj, h.after he _⟩
  · rintro ⟨hi, hj, h⟩
    rw [← stretch_drop, ← hafter] at h
    exact ⟨hplace.mpr hi, hend.mpr hj, h.after he _⟩

theorem spans_more (hl : e.lookFree = true) (hj : j ≤ text.length) :
    e.Spans (text ++ more) i j ↔ e.Spans text i j := by
  constructor
  · intro h
    have haccepts := h.accepts_stretch hl
    rw [stretch_more hj] at haccepts
    exact ⟨h.le, hj, (matches_iff_accepts hl).mpr haccepts⟩
  · intro h
    have hsame : stretch (text ++ more) i j = stretch text i j := stretch_more hj
    have haccepts := h.accepts_stretch hl
    rw [← hsame] at haccepts
    have hinside : j ≤ (text ++ more).length := by
      rw [List.length_append]
      omega
    exact ⟨h.le, hinside, (matches_iff_accepts hl).mpr haccepts⟩

theorem exists_spans_drop (he : e.ahead = true) (hd : d ≤ text.length) (P : Nat → Prop) :
    (∃ j, P j ∧ e.Spans text (i + d) j) ↔ ∃ j, P (j + d) ∧ e.Spans (text.drop d) i j := by
  constructor
  · rintro ⟨j, hj, h⟩
    obtain ⟨k, rfl⟩ : ∃ k, j = k + d := ⟨j - d, by have := h.le; omega⟩
    exact ⟨k, hj, (spans_drop he hd).mpr h⟩
  · rintro ⟨j, hj, h⟩
    exact ⟨j + d, hj, (spans_drop he hd).mp h⟩

end Stretch

/-- No condition of the expression looks to a side of a text on which something is added. -/
structure Blind (front more : List Char) (e : Pattern) : Prop where
  back : front = [] ∨ e.ahead = true
  ahead : more = [] ∨ e.lookFree = true

namespace Blind

variable {front more : List Char} {a b e : Pattern}

theorem of_lookFree (h : e.lookFree = true) : Blind front more e := ⟨.inr (ahead_of_lookFree h), .inr h⟩

theorem parts (h : Blind front more (seq a b)) : Blind front more a ∧ Blind front more b := by
  obtain ⟨hback, hahead⟩ := h
  simp only [Expr.ahead, lookFree, Bool.and_eq_true] at hback hahead
  exact ⟨⟨hback.imp_right And.left, hahead.imp_right And.left⟩,
    hback.imp_right And.right, hahead.imp_right And.right⟩

end Blind

/-- Of the places to which `R` leads from place `i` of a part of a text, the goals in the part are goals in the text,
where the part begins at place `d`. -/
def Subgoals (d : Nat) (R : Nat → Nat → Prop) (goal goal' : Marks) (i : Nat) : Prop :=
  ∀ j, R (i + d) (j + d) → goal.testBit j = true → goal'.testBit (j + d) = true

def Lands (d : Nat) (goal : Marks) (q : Progress) : Prop := ∃ k, q.place = k + d ∧ goal.testBit k = true

section Part

variable {front text more : List Char} {e : Pattern} {goal goal' : Marks} {i j : Nat}

theorem spans_part (hb : Blind front more e) (hj : j ≤ text.length) :
    e.Spans (front ++ (text ++ more)) (i + front.length) (j + front.length) ↔ e.Spans text i j := by
  have hfront : e.Spans (front ++ (text ++ more)) (i + front.length) (j + front.length) ↔
      e.Spans (text ++ more) i j := by
    rcases hb.back with rfl | he
    · rfl
    · rw [← spans_drop he (by simp), List.drop_left]
  rw [hfront]
  rcases hb.ahead with rfl | hl
  · rw [List.append_nil]
  · exact spans_more hl hj

theorem reaches_part (hb : Blind front more e) (hj : j ≤ text.length) :
    ReflTransGen (e.Spans (front ++ (text ++ more))) (i + front.length) (j + front.length) ↔
      ReflTransGen (e.Spans text) i j := by
  constructor
  · intro h
    generalize hk : j + front.length = k at h
    induction h generalizing j with
    | refl => exact Nat.add_right_cancel hk ▸ .refl
    | @tail m k h hs ih =>
      subst hk
      have hle := le_of_reaches (fun _ _ h => h.le) h
      obtain ⟨m, rfl⟩ : ∃ m', m = m' + front.length := ⟨m - front.length, by omega⟩
      have hmj := hs.le
      exact (ih (by omega) rfl).tail ((spans_part hb hj).mp hs)
  · intro h
    induction h with
    | refl => exact .refl
    | @tail m k h hs ih => exact (ih hs.le_length).tail ((spans_part hb hs.inside).mpr hs)

theorem starts_of_subgoals (hb : Blind front more e) (hg : Within text.length goal)
    (hg' : Within (front ++ (text ++ more)).length goal')
    (hsub : Subgoals front.length (e.Spans (front ++ (text ++ more))) goal goal' i)
    (h : ((e.plan text).starts goal).testBit i = true) :
    ((e.plan (front ++ (text ++ more))).starts goal').testBit (i + front.length) = true := by
  obtain ⟨j, hj, hs⟩ := (starts_plan text e goal hg i).mp h
  have hs' : e.Spans (front ++ (text ++ more)) (i + front.length) (j + front.length) :=
    (spans_part hb hs.inside).mpr hs
  exact (starts_plan _ e goal' hg' _).mpr ⟨_, hsub j hs' hj, hs'⟩

/-- From where the expression leads to a goal in the part, there is a mark of the part. -/
theorem starts_of_lands (hb : Blind front more e) (hg : Within text.length goal) {q : Progress}
    (hs : e.Spans (front ++ (text ++ more)) (i + front.length) q.place) (hq : Lands front.length goal q) :
    ((e.plan text).starts goal).testBit i = true := by
  obtain ⟨k, hk, hgoal⟩ := hq
  rw [hk] at hs
  exact (starts_plan text e goal hg i).mpr ⟨k, hgoal, (spans_part hb (hg k hgoal)).mp hs⟩

theorem closure_of_subgoals (hb : Blind front more e) (hg : Within text.length goal)
    (hg' : Within (front ++ (text ++ more)).length goal')
    (hsub : Subgoals front.length (ReflTransGen (e.Spans (front ++ (text ++ more)))) goal goal' i)
    (h : (closure (e.plan text).starts goal).testBit i = true) :
    (closure (e.plan (front ++ (text ++ more))).starts goal').testBit (i + front.length) = true := by
  obtain ⟨j, hj, hs⟩ := ((starts_plan text e).closure hg i).mp h
  have hs' : ReflTransGen (e.Spans (front ++ (text ++ more))) (i + front.length) (j + front.length) :=
    (reaches_part hb (hg j hj)).mpr hs
  exact ((starts_plan _ e).closure hg' _).mpr ⟨_, hsub j hs' hj, hs'⟩

theorem closure_of_lands (hb : Blind front more e) (hg : Within text.length goal) {q : Progress}
    (hs : ReflTransGen (e.Spans (front ++ (text ++ more))) (i + front.length) q.place)
    (hq : Lands front.length goal q) : (closure (e.plan text).starts goal).testBit i = true := by
  obtain ⟨k, hk, hgoal⟩ := hq
  rw [hk] at hs
  exact ((starts_plan text e).closure hg i).mpr ⟨k, hgoal, (reaches_part hb (hg k hgoal)).mp hs⟩

theorem Subgoals.above (hb : Blind front more e) (hg : Within text.length goal)
    (hg' : Within (front ++ (text ++ more)).length goal')
    (hsub : Subgoals front.length (ReflTransGen (e.Spans (front ++ (text ++ more)))) goal goal' i) :
    Subgoals front.length (e.Spans (front ++ (text ++ more))) (above (closure (e.plan text).starts goal) i)
      (above (closure (e.plan (front ++ (text ++ more))).starts goal') (i + front.length)) i := by
  intro j hs hj
  obtain ⟨hlt, hj⟩ := (testBit_above _ _ _).mp hj
  exact (testBit_above _ _ _).mpr ⟨by omega, closure_of_subgoals hb hg hg' (fun k hk => hsub k (.head hs hk)) hj⟩

theorem Subgoals.firstGoal (hb : Blind front more e) (hg : Within text.length goal)
    (hg' : Within (front ++ (text ++ more)).length goal')
    (hsub : Subgoals front.length (TransGen (e.Spans (front ++ (text ++ more)))) goal goal' i) :
    Subgoals front.length (e.Spans (front ++ (text ++ more))) (firstGoal text e goal i)
      (firstGoal (front ++ (text ++ more)) e goal' (i + front.length)) i := by
  intro j hs hj
  rcases testBit_firstGoal.mp hj with ⟨hlt, hj⟩ | ⟨rfl, hj⟩
  · exact testBit_firstGoal.mpr
      (.inl ⟨by omega, closure_of_subgoals hb hg hg' (fun k hk => hsub k (.head' hs hk)) hj⟩)
  · exact testBit_firstGoal.mpr (.inr ⟨rfl, hsub _ (.single hs) hj⟩)

end Part

/-- A way that is followed in the text and ends at a goal in the part is the way that is followed in the part. -/
def Keeps (front text more : List Char) (e : Pattern) : Prop :=
  ∀ goal goal', Within text.length goal → Within (front ++ (text ++ more)).length goal' →
    ∀ p : Progress, Subgoals front.length (e.Spans (front ++ (text ++ more))) goal goal' p.place →
      ((e.plan (front ++ (text ++ more))).starts goal').testBit (p.place + front.length) = true →
      Lands front.length goal ((e.plan (front ++ (text ++ more))).follow goal' (p.moved front.length)) →
        (e.plan (front ++ (text ++ more))).follow goal' (p.moved front.length) =
          ((e.plan text).follow goal p).moved front.length

namespace Keeps

variable {front text more : List Char} {e : Pattern} {goal goal' : Marks} {n : Nat} {g : Bool} {p : Progress}

/-- A way through the expression, and then on through `f` to a goal in the part, comes to a mark of `f`. -/
theorem lands_starts {f : Pattern} (hb : Blind front more f) (hg : Within text.length goal) {q r : Progress}
    (hle : front.length ≤ q.place) (hs : f.Spans (front ++ (text ++ more)) q.place r.place)
    (hr : Lands front.length goal r) : Lands front.length ((f.plan text).starts goal) q := by
  obtain ⟨k, hk⟩ : ∃ k, q.place = k + front.length := ⟨q.place - front.length, by omega⟩
  rw [hk] at hs
  exact ⟨k, hk, starts_of_lands hb hg hs hr⟩

theorem times (h : e.Keeps front text more) (hb : Blind front more e) (n : Nat) (hg : Within text.length goal)
    (hg' : Within (front ++ (text ++ more)).length goal')
    (hsub : Subgoals front.length ((Expr.times e n).Spans (front ++ (text ++ more))) goal goal' p.place)
    (hp : (Nat.repeat (e.plan (front ++ (text ++ more))).starts n goal').testBit (p.place + front.length) = true)
    (hlands : Lands front.length goal ((rungs (e.plan (front ++ (text ++ more))).starts n goal').foldl
      (fun p stage => (e.plan (front ++ (text ++ more))).follow stage p) (p.moved front.length))) :
    (rungs (e.plan (front ++ (text ++ more))).starts n goal').foldl
        (fun p stage => (e.plan (front ++ (text ++ more))).follow stage p) (p.moved front.length) =
      ((rungs (e.plan text).starts n goal).foldl (fun p stage => (e.plan text).follow stage p) p).moved
        front.length := by
  induction n generalizing p with
  | zero => rfl
  | succ n ih =>
    have hw : Within text.length (Nat.repeat (e.plan text).starts n goal) :=
      (starts_plan text (Expr.times e n)).within hg
    have hw' : Within (front ++ (text ++ more)).length
        (Nat.repeat (e.plan (front ++ (text ++ more))).starts n goal') :=
      (starts_plan _ (Expr.times e n)).within hg'
    have hbn : Blind front more (Expr.times e n) := ⟨hb.back, hb.ahead⟩
    have hrest : ∀ k, e.Spans (front ++ (text ++ more)) (p.place + front.length) (k + front.length) →
        Subgoals front.length ((Expr.times e n).Spans (front ++ (text ++ more))) goal goal' k :=
      fun k hs j hj => hsub j (spans_times_succ.mpr ⟨_, hs, hj⟩)
    obtain ⟨hmid, hpass⟩ := follow_plan _ e _ hw' (p.moved front.length) hp
    have hspans := ((follow_plan _ e).times n hg' hmid).2.spans
    simp only [rungs, List.foldl_cons] at hlands ⊢
    have hstep := h _ _ hw hw' p (fun k hs => starts_of_subgoals hbn hg hg' (hrest k hs)) hp
      (lands_starts hbn hg (Nat.le_trans (Nat.le_add_left _ _) hpass.spans.le) hspans hlands)
    have hfirst := hpass.spans
    rw [hstep] at hmid hlands hfirst ⊢
    exact ih (hrest _ hfirst) hmid hlands

theorem upTo (h : e.Keeps front text more) (hb : Blind front more e) (n : Nat) (g : Bool)
    (hg : Within text.length goal) (hg' : Within (front ++ (text ++ more)).length goal')
    (hsub : Subgoals front.length ((Expr.upTo e n g).Spans (front ++ (text ++ more))) goal goal' p.place)
    (hp : (Nat.repeat (fun x => goal' ||| (e.plan (front ++ (text ++ more))).starts x) n goal').testBit
      (p.place + front.length) = true)
    (hlands : Lands front.length goal (followUpTo (e.plan (front ++ (text ++ more))).starts
      (e.plan (front ++ (text ++ more))).follow g goal'
      (rungs (fun x => goal' ||| (e.plan (front ++ (text ++ more))).starts x) n goal') (p.moved front.length))) :
    followUpTo (e.plan (front ++ (text ++ more))).starts (e.plan (front ++ (text ++ more))).follow g goal'
        (rungs (fun x => goal' ||| (e.plan (front ++ (text ++ more))).starts x) n goal') (p.moved front.length) =
      (followUpTo (e.plan text).starts (e.plan text).follow g goal
        (rungs (fun x => goal ||| (e.plan text).starts x) n goal) p).moved front.length := by
  induction n generalizing p with
  | zero => rfl
  | succ n ih =>
    have hw : Within text.length (Nat.repeat (fun x => goal ||| (e.plan text).starts x) n goal) :=
      (starts_plan text (Expr.upTo e n g)).within hg
    have hw' : Within (front ++ (text ++ more)).length
        (Nat.repeat (fun x => goal' ||| (e.plan (front ++ (text ++ more))).starts x) n goal') :=
      (starts_plan _ (Expr.upTo e n g)).within hg'
    have hbn : Blind front more (Expr.upTo e n g) := ⟨hb.back, hb.ahead⟩
    have hrest : ∀ k, e.Spans (front ++ (text ++ more)) (p.place + front.length) (k + front.length) →
        Subgoals front.length ((Expr.upTo e n g).Spans (front ++ (text ++ more))) goal goal' k :=
      fun k hs j hj => hsub j (spans_upTo_succ.mpr (.inr ⟨_, hs, hj⟩))
    have hstages : Subgoals front.length (e.Spans (front ++ (text ++ more)))
        (Nat.repeat (fun x => goal ||| (e.plan text).starts x) n goal)
        (Nat.repeat (fun x => goal' ||| (e.plan (front ++ (text ++ more))).starts x) n goal') p.place :=
      fun k hs => starts_of_subgoals hbn hg hg' (hrest k hs)
    rw [Nat.repeat, Nat.testBit_or, Bool.or_eq_true] at hp
    have hstop (hgoal : goal.testBit p.place = true) : goal'.testBit (p.place + front.length) = true := by
      have hle := hg _ hgoal
      exact hsub _ (spans_upTo_succ.mpr (.inl ⟨rfl, by simp only [List.length_append]; omega⟩)) hgoal
    simp only [rungs] at hlands ⊢
    rw [followUpTo] at hlands
    rw [followUpTo, followUpTo]
    refine Progress.moved_choice (P := Lands front.length goal) hlands hp
      (starts_of_subgoals hb hw hw' hstages) hstop ?_ fun hs hlands => ?_
    · rintro ⟨k, hk, hgoal⟩
      exact Nat.add_right_cancel hk ▸ hgoal
    · obtain ⟨hmid, hpass⟩ := follow_plan _ e _ hw' (p.moved front.length) hs
      have hspans := ((follow_plan _ e).upTo n g hg' hmid).2.spans
      have hplace := lands_starts hbn hg (Nat.le_trans (Nat.le_add_left _ _) hpass.spans.le) hspans hlands
      have hstep := h _ _ hw hw' p hstages hs hplace
      have hfirst := hpass.spans
      refine ⟨starts_of_lands hb hw hfirst hplace, ?_⟩
      rw [hstep] at hmid hlands hfirst ⊢
      exact ih (hrest _ hfirst) hmid hlands

/-- Both loops come to the same place. They have different fuel, as each counts from the goals of its own text, but
neither runs out of it. -/
theorem loop (h : e.Keeps front text more) (hb : Blind front more e) (hg : Within text.length goal)
    (hg' : Within (front ++ (text ++ more)).length goal') (fuel fuel' : Nat)
    (hsub : Subgoals front.length (ReflTransGen (e.Spans (front ++ (text ++ more)))) goal goal' p.place)
    (hp : (closure (e.plan (front ++ (text ++ more))).starts goal').testBit (p.place + front.length) = true)
    (hfuel : goal.log2 + 1 ≤ p.place + fuel) (hfuel' : goal'.log2 + 1 ≤ p.place + front.length + fuel')
    (hlands : Lands front.length goal (followLoop (e.plan (front ++ (text ++ more))).starts
      (e.plan (front ++ (text ++ more))).follow g goal'
      (closure (e.plan (front ++ (text ++ more))).starts goal') fuel' (p.moved front.length))) :
    followLoop (e.plan (front ++ (text ++ more))).starts (e.plan (front ++ (text ++ more))).follow g goal'
        (closure (e.plan (front ++ (text ++ more))).starts goal') fuel' (p.moved front.length) =
      (followLoop (e.plan text).starts (e.plan text).follow g goal (closure (e.plan text).starts goal) fuel
        p).moved front.length := by
  have hstarts := starts_plan text e
  have hstarts' := starts_plan (front ++ (text ++ more)) e
  induction fuel' generalizing p fuel with
  | zero =>
    have hle := hstarts'.le_log2 hg' hp
    omega
  | succ fuel' ih =>
    obtain _ | fuel := fuel
    · have hsteps := ((follow_plan _ e).loop (g := g) (p := p.moved front.length) hg' (fuel' + 1) hp hfuel').2.1
      have hle := hstarts.le_log2 hg (closure_of_lands hb hg hsteps hlands)
      omega
    · have hw := hstarts.above_within hg p.place
      have hw' := hstarts'.above_within hg' (p.place + front.length)
      have hnext := Subgoals.above hb hg hg' hsub
      rw [followLoop] at hlands
      rw [followLoop, followLoop]
      refine Progress.moved_choice (P := Lands front.length goal) hlands (hstarts'.moves hg' hp)
        (starts_of_subgoals hb hw hw' hnext) (hsub _ .refl) ?_ fun hs hlands => ?_
      · rintro ⟨k, hk, hgoal⟩
        exact Nat.add_right_cancel hk ▸ hgoal
      · simp only [Progress.moved_place] at hs hlands ⊢
        obtain ⟨hmid, hpass⟩ := follow_plan _ e _ hw' (p.moved front.length) hs
        obtain ⟨hlt, hreach⟩ := (testBit_above _ _ _).mp hmid
        have hkeeps := h _ _ hw hw' p hnext hs
        generalize (e.plan (front ++ (text ++ more))).follow (above (closure (e.plan (front ++ (text ++ more))).starts
          goal') (p.place + front.length)) (p.moved front.length) = q at hlands hpass hlt hreach hkeeps ⊢
        have hsteps := ((follow_plan _ e).loop (g := g) hg' fuel' hreach (by omega)).2.1
        obtain ⟨k, hk⟩ : ∃ k, q.place = k + front.length := ⟨q.place - front.length, by omega⟩
        rw [hk] at hsteps
        have hplace : Lands front.length (above (closure (e.plan text).starts goal) p.place) q :=
          ⟨k, hk, (testBit_above _ _ _).mpr ⟨by omega, closure_of_lands hb hg hsteps hlands⟩⟩
        have hfirst := hpass.spans
        obtain rfl := hkeeps hplace
        refine ⟨starts_of_lands hb hw hfirst hplace, ?_⟩
        simp only [Progress.moved_place] at hlt
        exact ih fuel (fun j hj => hsub j (.head hfirst hj)) hreach (by omega) (by omega) hlands

theorem plus (h : e.Keeps front text more) (hb : Blind front more e) (g : Bool) :
    (Expr.plus e g).Keeps front text more := by
  intro goal goal' hg hg' p hsub hp hlands
  have hstarts := starts_plan text e
  have hstarts' := starts_plan (front ++ (text ++ more)) e
  have hw := hstarts.firstGoal_within hg p.place
  have hw' := hstarts'.firstGoal_within hg' (p.place + front.length)
  have hfirst := hstarts'.first hg' hp
  obtain ⟨hmid, hpass⟩ := follow_plan _ e _ hw' (p.moved front.length) hfirst
  have hsteps : Subgoals front.length (TransGen (e.Spans (front ++ (text ++ more)))) goal goal' p.place :=
    fun j hj => hsub j (spans_plus.mpr hj)
  have hgoals := Subgoals.firstGoal hb hg hg' hsteps
  rw [follow_plus] at hlands
  rw [follow_plus, follow_plus]
  have hkeeps := h _ _ hw hw' p hgoals hfirst
  obtain ⟨q, hq⟩ : ∃ q, (e.plan (front ++ (text ++ more))).follow
    (firstGoal (front ++ (text ++ more)) e goal' (p.place + front.length)) (p.moved front.length) = q := ⟨_, rfl⟩
  simp only [Progress.moved_place, hq] at hlands hmid hpass hkeeps ⊢
  have hspans := hpass.spans
  have hle := hspans.le
  simp only [Progress.moved_place] at hle
  by_cases hstay : q.place = p.place + front.length
  · rw [if_pos hstay] at hlands ⊢
    obtain ⟨k, hk, hgoal⟩ := hlands
    obtain rfl : k = p.place := by omega
    obtain rfl := hkeeps ⟨_, hk, testBit_firstGoal.mpr (.inr ⟨rfl, hgoal⟩)⟩
    rw [if_pos (Nat.add_right_cancel hstay)]
  · rw [if_neg hstay] at hlands ⊢
    rcases testBit_firstGoal.mp hmid with ⟨hlt, hreach⟩ | ⟨hplace, -⟩
    · have hloop := ((follow_plan _ e).loop (g := g) hg' (goal'.log2 + 1) hreach (by omega)).2.1
      obtain ⟨k, hk⟩ : ∃ k, q.place = k + front.length := ⟨q.place - front.length, by omega⟩
      rw [hk] at hloop
      have hclosure := closure_of_lands hb hg hloop hlands
      obtain rfl := hkeeps ⟨k, hk, testBit_firstGoal.mpr (.inl ⟨by omega, hclosure⟩)⟩
      simp only [Progress.moved_place, Nat.add_right_cancel_iff] at hstay hlt
      rw [if_neg hstay]
      exact h.loop hb hg hg' _ _ (fun j hj => hsteps j (.head' hspans hj)) hreach (by omega) (by omega) hlands
    · exact absurd hplace hstay

end Keeps

theorem follow_part {front more : List Char} (text : List Char) {e : Pattern} (hb : Blind front more e) :
    e.Keeps front text more := by
  induction e with
  | empty => exact fun _ _ _ _ _ _ _ _ => rfl
  | look => exact fun _ _ _ _ _ _ _ _ => rfl
  | one =>
    intro goal goal' _ _ p _ _ _
    show Progress.mk (p.place + front.length + 1) _ = Progress.mk (p.place + 1 + front.length) _
    rw [Nat.add_right_comm]
    rfl
  | seq a b iha ihb =>
    obtain ⟨hba, hbb⟩ := hb.parts
    intro goal goal' hg hg' p hsub hp hlands
    have hw := (starts_plan text b).within hg
    have hw' := (starts_plan (front ++ (text ++ more)) b).within hg'
    have hrest : ∀ k, a.Spans (front ++ (text ++ more)) (p.place + front.length) (k + front.length) →
        Subgoals front.length (b.Spans (front ++ (text ++ more))) goal goal' k :=
      fun k hs j hj => hsub j (spans_seq.mpr ⟨_, hs, hj⟩)
    obtain ⟨hmid, hpass⟩ := follow_plan _ a _ hw' (p.moved front.length) hp
    have hspans := (follow_plan _ b _ hg' _ hmid).2.spans
    have hfirst := hpass.spans
    rw [follow_seq] at hlands
    rw [follow_seq, follow_seq]
    have hstep := iha hba _ _ hw hw' p (fun k hs => starts_of_subgoals hbb hg hg' (hrest k hs)) hp
      (Keeps.lands_starts hbb hg (Nat.le_trans (Nat.le_add_left _ _) hfirst.le) hspans hlands)
    rw [hstep] at hmid hlands hfirst ⊢
    exact ihb hbb _ _ hg hg' _ (hrest _ hfirst) hmid hlands
  | alt a b iha ihb =>
    obtain ⟨hba, hbb⟩ := Blind.parts (a := a) (b := b) ⟨hb.back, hb.ahead⟩
    intro goal goal' hg hg' p hsub hp hlands
    have hsuba : Subgoals front.length (a.Spans (front ++ (text ++ more))) goal goal' p.place :=
      fun j hj => hsub j (spans_alt.mpr (.inl hj))
    have hsubb : Subgoals front.length (b.Spans (front ++ (text ++ more))) goal goal' p.place :=
      fun j hj => hsub j (spans_alt.mpr (.inr hj))
    have hstarts : ((alt a b).plan (front ++ (text ++ more))).starts goal' =
        (a.plan (front ++ (text ++ more))).starts goal' ||| (b.plan (front ++ (text ++ more))).starts goal' := rfl
    rw [follow_alt] at hlands
    rw [follow_alt, follow_alt]
    by_cases hpa : ((a.plan (front ++ (text ++ more))).starts goal').testBit (p.place + front.length) = true
    · rw [Progress.moved_place, if_pos hpa] at hlands ⊢
      have hspans := (follow_plan _ a _ hg' (p.moved front.length) hpa).2.spans
      rw [if_pos (starts_of_lands hba hg hspans hlands), iha hba _ _ hg hg' p hsuba hpa hlands]
    · rw [hstarts, Nat.testBit_or, Bool.or_eq_true] at hp
      rw [Progress.moved_place, if_neg hpa] at hlands ⊢
      rw [if_neg fun h => hpa (starts_of_subgoals hba hg hg' hsuba h),
        ihb hbb _ _ hg hg' p hsubb (hp.resolve_left hpa) hlands]
  | capture name e ih =>
    have hbe : Blind front more e := ⟨hb.back, hb.ahead⟩
    intro goal goal' hg hg' p hsub hp hlands
    rw [follow_capture] at hlands
    rw [follow_capture, follow_capture, ih hbe _ _ hg hg' p (fun j hj => hsub j (spans_capture.mpr hj)) hp hlands]
    rfl
  | times e n ih =>
    have hbe : Blind front more e := ⟨hb.back, hb.ahead⟩
    intro goal goal' hg hg' p hsub hp hlands
    rw [follow_times] at hlands
    rw [follow_times, follow_times]
    exact (ih hbe).times hbe n hg hg' hsub hp hlands
  | upTo e n g ih =>
    have hbe : Blind front more e := ⟨hb.back, hb.ahead⟩
    intro goal goal' hg hg' p hsub hp hlands
    rw [follow_upTo] at hlands
    rw [follow_upTo, follow_upTo]
    exact (ih hbe).upTo hbe n g hg hg' hsub hp hlands
  | plus e g ih =>
    have hbe : Blind front more e := ⟨hb.back, hb.ahead⟩
    exact (ih hbe).plus hbe g

/-- The preferred way stays the preferred one without the goals that it does not come to. -/
theorem follow_of_subgoals {text : List Char} {e : Pattern} {goal goal' : Marks} {p : Progress}
    (hg' : Within text.length goal') (hsub : ∀ j, goal.testBit j = true → goal'.testBit j = true)
    (hp : ((e.plan text).starts goal').testBit p.place = true)
    (hlands : goal.testBit ((e.plan text).follow goal' p).place = true) :
    (e.plan text).follow goal' p = (e.plan text).follow goal p := by
  have hblind : Blind [] [] e := ⟨.inl rfl, .inl rfl⟩
  have hkeeps := follow_part text hblind goal goal' (fun j hj => hg' j (hsub j hj))
  simp only [List.nil_append, List.append_nil, List.length_nil, Progress.moved_zero] at hkeeps
  exact hkeeps hg' p (fun j _ => hsub j) hp ⟨_, rfl, hlands⟩

section Rest

variable {text : List Char} {e : Pattern} {d : Nat}

theorem starts_shift {goal : Marks} (he : e.ahead = true) (hd : d ≤ text.length) (hg : Within text.length goal) :
    (e.plan text).starts goal >>> d = (e.plan (text.drop d)).starts (goal >>> d) := by
  refine Nat.eq_of_testBit_eq fun i => Bool.eq_iff_iff.mpr ?_
  have hg' : Within (text.drop d).length (goal >>> d) := List.length_drop ▸ hg.shift d
  rw [testBit_shift, starts_plan text e goal hg, starts_plan _ e _ hg', exists_spans_drop he hd]
  simp only [testBit_shift]

/-- From a place of a text on, the plan of an expression is carried out as in the rest of the text. -/
theorem follow_shift (hd : d ≤ text.length) (he : e.ahead = true) (goal : Marks) (hg : Within text.length goal)
    (p : Progress) (hp : ((e.plan text).starts goal).testBit (p.place + d) = true) :
    (e.plan text).follow goal (p.moved d) = ((e.plan (text.drop d)).follow (goal >>> d) p).moved d := by
  obtain ⟨front, rest, rfl, rfl⟩ : ∃ front rest, text = front ++ rest ∧ front.length = d :=
    ⟨text.take d, text.drop d, (List.take_append_drop d text).symm, List.length_take_of_le hd⟩
  obtain ⟨hgoal, hpass⟩ := follow_plan _ e goal hg (p.moved front.length) hp
  have hle := hpass.spans.le
  have hw := hg.shift front.length
  rw [List.length_append, Nat.add_sub_cancel_left] at hw
  have hblind : Blind front [] e := ⟨.inr he, .inl rfl⟩
  have hkeeps := follow_part rest hblind _ goal hw
  simp only [List.append_nil] at hkeeps
  rw [List.drop_left]
  refine hkeeps hg p (fun j _ hj => by rwa [testBit_shift] at hj) hp ?_
  obtain ⟨k, hk⟩ : ∃ k, ((e.plan (front ++ rest)).follow goal (p.moved front.length)).place = k + front.length :=
    ⟨((e.plan (front ++ rest)).follow goal (p.moved front.length)).place - front.length, by
      simp only [Progress.moved_place] at hle; omega⟩
  exact ⟨k, hk, by rwa [testBit_shift, ← hk]⟩

end Rest

end Expr

end RequestRouter.Regex
