import RequestRouter.Proofs.Regex.Marks
import RequestRouter.Proofs.Regex.Spans
import RequestRouter.Regex.Basic
/-!
Searching is right: the backward marks are the places from which an expression spans some stretch to a goal,
and the forward choice among them carries such a stretch out. A search succeeds exactly if the expression spans
a stretch of the text, and then it finds one with the first possible beginning.
-/
namespace RequestRouter.Regex

open Relation

namespace Expr

variable {text : List Char} {e f : Expr CharSet Assertion} {i j k n : Nat} {g : Bool}

theorem Spans.le_length (h : e.Spans text i j) : i ≤ text.length := Nat.le_trans h.le h.inside

def Starts (text : List Char) (e : Expr CharSet Assertion) : Prop :=
  Steps text.length (e.plan text).starts (e.Spans text)

theorem Starts.within (he : e.Starts text) {goal : Marks} (hg : Within text.length goal) :
    Within text.length ((e.plan text).starts goal) := by
  intro i hi
  obtain ⟨j, -, hs⟩ := (he goal hg i).mp hi
  exact hs.le_length

theorem Starts.times (he : e.Starts text) (n : Nat) {goal : Marks} (hg : Within text.length goal)
    (i : Nat) :
    (Nat.repeat (e.plan text).starts n goal).testBit i = true ↔
      ∃ j, goal.testBit j = true ∧ (times e n).Spans text i j := by
  induction n generalizing i with
  | zero =>
    simp only [Nat.repeat, spans_times_zero]
    constructor
    · intro h
      exact ⟨i, h, rfl, hg i h⟩
    · rintro ⟨j, hj, rfl, -⟩
      exact hj
  | succ n ih =>
    have hw : Within text.length (Nat.repeat (e.plan text).starts n goal) := by
      intro i hi
      obtain ⟨j, -, hs⟩ := (ih i).mp hi
      exact hs.le_length
    rw [Nat.repeat, he _ hw]
    simp only [ih, spans_times_succ]
    constructor
    · rintro ⟨k, ⟨j, hj, hk⟩, hs⟩
      exact ⟨j, hj, k, hs, hk⟩
    · rintro ⟨j, hj, k, hs, hk⟩
      exact ⟨k, ⟨j, hj, hk⟩, hs⟩

theorem Starts.upTo (he : e.Starts text) (n : Nat) (g : Bool) {goal : Marks}
    (hg : Within text.length goal) (i : Nat) :
    (Nat.repeat (fun x => goal ||| (e.plan text).starts x) n goal).testBit i = true ↔
      ∃ j, goal.testBit j = true ∧ (upTo e n g).Spans text i j := by
  induction n generalizing i with
  | zero =>
    simp only [Nat.repeat, spans_upTo_zero]
    constructor
    · intro h
      exact ⟨i, h, rfl, hg i h⟩
    · rintro ⟨j, hj, rfl, -⟩
      exact hj
  | succ n ih =>
    have hw : Within text.length (Nat.repeat (fun x => goal ||| (e.plan text).starts x) n goal) := by
      intro i hi
      obtain ⟨j, -, hs⟩ := (ih i).mp hi
      exact hs.le_length
    rw [Nat.repeat, Nat.testBit_or, Bool.or_eq_true, he _ hw]
    simp only [ih, spans_upTo_succ]
    constructor
    · rintro (h | ⟨k, ⟨j, hj, hk⟩, hs⟩)
      · exact ⟨i, h, .inl ⟨rfl, hg i h⟩⟩
      · exact ⟨j, hj, .inr ⟨k, hs, hk⟩⟩
    · rintro ⟨j, hj, ⟨rfl, -⟩ | ⟨k, hs, hk⟩⟩
      · exact .inl hj
      · exact .inr ⟨k, ⟨j, hj, hk⟩, hs⟩

theorem Starts.closure (he : e.Starts text) {goal : Marks} (hg : Within text.length goal) (i : Nat) :
    (closure (e.plan text).starts goal).testBit i = true ↔
      ∃ j, goal.testBit j = true ∧ ReflTransGen (e.Spans text) i j :=
  testBit_closure he (fun _ _ h => h.le) hg i

theorem Starts.closure_within (he : e.Starts text) {goal : Marks} (hg : Within text.length goal) :
    Within text.length (Regex.closure (e.plan text).starts goal) := by
  intro i hi
  obtain ⟨j, hj, h⟩ := (he.closure hg i).mp hi
  exact Nat.le_trans (le_of_reaches (fun _ _ h => h.le) h) (hg j hj)

/-- A place from which steps of a loop lead to a goal is not beyond the last goal. -/
theorem Starts.le_log2 (he : e.Starts text) {goal : Marks} (hg : Within text.length goal)
    (hi : (Regex.closure (e.plan text).starts goal).testBit i = true) : i ≤ goal.log2 := by
  obtain ⟨j, hj, h⟩ := (he.closure hg i).mp hi
  exact Nat.le_trans (le_of_reaches (fun _ _ h => h.le) h) (le_log2_of_testBit hj)

/-- The marks of a plan: the places from which the expression spans a stretch to a goal. -/
theorem starts_plan (text : List Char) (e : Expr CharSet Assertion) : e.Starts text := by
  induction e with
  | empty =>
    intro goal hg i
    simp only [plan, planWith, Plan.starts, spans_empty]
    constructor
    · intro h
      exact ⟨i, h, rfl, hg i h⟩
    · rintro ⟨j, hj, rfl, -⟩
      exact hj
  | one s =>
    intro goal hg i
    simp only [plan, planWith, Plan.starts, spans_one, Nat.testBit_and, Nat.testBit_shiftRight,
      Bool.and_eq_true, testBit_marksOf, Nat.add_comm 1 i]
    constructor
    · rintro ⟨hc, hj⟩
      exact ⟨i + 1, hj, rfl, hc⟩
    · rintro ⟨_, hj, rfl, hc⟩
      exact ⟨hc, hj⟩
  | look a =>
    intro goal hg i
    simp only [plan, planWith, Plan.starts, spans_look, Nat.testBit_and, Bool.and_eq_true,
      testBit_marksBetween, Option.or_none]
    constructor
    · rintro ⟨⟨hi, ha⟩, hj⟩
      exact ⟨i, hj, rfl, hi, ha⟩
    · rintro ⟨j, hj, rfl, hi, ha⟩
      exact ⟨⟨hi, ha⟩, hj⟩
  | seq a b iha ihb =>
    intro goal hg i
    have hstep : ((seq a b).plan text).starts goal = (a.plan text).starts ((b.plan text).starts goal) := rfl
    rw [hstep, iha _ (ihb.within hg)]
    simp only [ihb goal hg, spans_seq]
    constructor
    · rintro ⟨k, ⟨j, hj, hb⟩, ha⟩
      exact ⟨j, hj, k, ha, hb⟩
    · rintro ⟨j, hj, k, ha, hb⟩
      exact ⟨k, ⟨j, hj, hb⟩, ha⟩
  | alt a b iha ihb =>
    intro goal hg i
    have hstep : ((alt a b).plan text).starts goal =
        (a.plan text).starts goal ||| (b.plan text).starts goal := rfl
    rw [hstep, Nat.testBit_or, Bool.or_eq_true, iha goal hg, ihb goal hg]
    simp only [spans_alt, and_or_left, exists_or]
  | capture name e ih =>
    intro goal hg i
    have hstep : ((capture name e).plan text).starts goal = (e.plan text).starts goal := rfl
    rw [hstep, ih goal hg]
    simp only [spans_capture]
  | times e n ih => exact fun goal hg i => ih.times n hg i
  | upTo e n g ih => exact fun goal hg i => ih.upTo n g hg i
  | plus e g ih =>
    intro goal hg i
    have hstep : ((plus e g).plan text).starts goal =
        (e.plan text).starts (Regex.closure (e.plan text).starts goal) := rfl
    rw [hstep, ih _ (ih.closure_within hg)]
    simp only [ih.closure hg, spans_plus, TransGen.head'_iff]
    constructor
    · rintro ⟨k, ⟨j, hj, hk⟩, hs⟩
      exact ⟨j, hj, k, hs, hk⟩
    · rintro ⟨j, hj, k, hs, hk⟩
      exact ⟨k, ⟨j, hj, hk⟩, hs⟩

def groups {σ α : Type} : Expr σ α → List String
  | empty | one _ | look _ => []
  | seq a b | alt a b => groups a ++ groups b
  | capture name e => name :: groups e
  | times e _ | upTo e _ _ | plus e _ => groups e

end Expr

namespace Progress

/-- Nothing captured is lost, and what is new was captured by groups with these names. -/
def Extends (names : List String) (p q : Progress) : Prop :=
  ∃ new, q.captures = new ++ p.captures ∧ ∀ c ∈ new, c.1 ∈ names

variable {names more : List String} {p q r : Progress}

theorem Extends.of_eq (h : q.captures = p.captures) : Extends names p q :=
  ⟨[], by simp [h], by simp⟩

theorem Extends.captures_eq (h : Extends [] p q) : q.captures = p.captures := by
  obtain ⟨new, hq, hnew⟩ := h
  have hnil : new = [] := List.eq_nil_iff_forall_not_mem.mpr fun c hc => absurd (hnew c hc) List.not_mem_nil
  rw [hq, hnil, List.nil_append]

theorem Extends.mono (h : Extends names p q) (hs : ∀ n ∈ names, n ∈ more) : Extends more p q := by
  obtain ⟨new, hq, hn⟩ := h
  exact ⟨new, hq, fun c hc => hs _ (hn c hc)⟩

theorem Extends.trans (h₁ : Extends names p q) (h₂ : Extends names q r) : Extends names p r := by
  obtain ⟨new₁, hq, hn₁⟩ := h₁
  obtain ⟨new₂, hr, hn₂⟩ := h₂
  refine ⟨new₂ ++ new₁, by rw [hr, hq, List.append_assoc], ?_⟩
  intro c hc
  rcases List.mem_append.mp hc with hc | hc
  · exact hn₂ c hc
  · exact hn₁ c hc

end Progress

def rungs (f : Marks → Marks) : Nat → Marks → List Marks
  | 0, _ => []
  | n + 1, goal => Nat.repeat f n goal :: rungs f n goal

theorem repeat_comm (f : Marks → Marks) (n : Nat) (goal : Marks) :
    Nat.repeat f n (f goal) = f (Nat.repeat f n goal) := by
  induction n with
  | zero => rfl
  | succ n ih => rw [Nat.repeat, ih, Nat.repeat]

theorem rungs_append (f : Marks → Marks) (n : Nat) (goal : Marks) :
    rungs f n (f goal) ++ [goal] = rungs f (n + 1) goal := by
  induction n with
  | zero => rfl
  | succ n ih =>
    show Nat.repeat f n (f goal) :: (rungs f n (f goal) ++ [goal]) = _
    rw [ih, repeat_comm]
    rfl

theorem stages_eq (f : Marks → Marks) (n : Nat) (goal : Marks) (later : List Marks) :
    stages f n goal later = rungs f n goal ++ later := by
  induction n generalizing goal later with
  | zero => rfl
  | succ n ih =>
    rw [stages, ih, ← rungs_append, List.append_assoc]
    rfl

section Loops

variable {starts : Marks → Marks} {follow : Marks → Progress → Progress} {greedy : Bool}
  {goal reach stage : Marks} {later : List Marks} {fuel : Nat} {p : Progress}

/-- A bounded loop stops at a goal, or it takes another copy from a place where it can. -/
theorem followUpTo_cons
    (h : goal.testBit p.place = true ∨ (starts stage).testBit p.place = true) :
    goal.testBit p.place = true ∧ followUpTo starts follow greedy goal (stage :: later) p = p ∨
      (starts stage).testBit p.place = true ∧ followUpTo starts follow greedy goal (stage :: later) p =
        followUpTo starts follow greedy goal later (follow stage p) := by
  rw [followUpTo]
  by_cases hs : (starts stage).testBit p.place <;> by_cases hgoal : goal.testBit p.place <;>
    cases greedy <;> simp_all

theorem followLoop_succ
    (h : goal.testBit p.place = true ∨ (starts (above reach p.place)).testBit p.place = true) :
    goal.testBit p.place = true ∧ followLoop starts follow greedy goal reach (fuel + 1) p = p ∨
      (starts (above reach p.place)).testBit p.place = true ∧
        followLoop starts follow greedy goal reach (fuel + 1) p =
          followLoop starts follow greedy goal reach fuel (follow (above reach p.place) p) := by
  rw [followLoop]
  by_cases hs : (starts (above reach p.place)).testBit p.place <;>
    by_cases hgoal : goal.testBit p.place <;> cases greedy <;> simp_all

end Loops

namespace Expr

variable {text : List Char} {e f : Expr CharSet Assertion} {n : Nat} {g : Bool} {p q r : Progress}

structure Passes (text : List Char) (e : Expr CharSet Assertion) (p q : Progress) : Prop where
  spans : e.Spans text p.place q.place
  captures : Progress.Extends e.groups p q
  /-- A group puts what it stands for in front. -/
  own : ∀ name f, e = capture name f → q.captures.head? = some (name, p.place, q.place)

def Follows (text : List Char) (e : Expr CharSet Assertion) : Prop :=
  ∀ goal, Within text.length goal → ∀ p : Progress, ((e.plan text).starts goal).testBit p.place = true →
    goal.testBit ((e.plan text).follow goal p).place = true ∧
      e.Passes text p ((e.plan text).follow goal p)

theorem Follows.times (he : e.Follows text) (n : Nat) {goal : Marks} (hg : Within text.length goal)
    (hp : (Nat.repeat (e.plan text).starts n goal).testBit p.place = true) :
    let q := (rungs (e.plan text).starts n goal).foldl (fun p stage => (e.plan text).follow stage p) p
    goal.testBit q.place = true ∧ (Expr.times e n).Passes text p q := by
  induction n generalizing p with
  | zero => exact ⟨hp, spans_times_zero.mpr ⟨rfl, hg _ hp⟩, .of_eq rfl, nofun⟩
  | succ n ih =>
    have hw : Within text.length (Nat.repeat (e.plan text).starts n goal) := by
      intro i hi
      obtain ⟨j, -, hs⟩ := ((starts_plan text e).times n hg i).mp hi
      exact hs.le_length
    obtain ⟨hmid, hpass⟩ := he _ hw p hp
    obtain ⟨hgoal, hrest⟩ := ih hmid
    exact ⟨hgoal, spans_times_succ.mpr ⟨_, hpass.spans, hrest.spans⟩,
      hpass.captures.trans hrest.captures, nofun⟩

theorem Follows.upTo (he : e.Follows text) (n : Nat) (g : Bool) {goal : Marks}
    (hg : Within text.length goal)
    (hp : (Nat.repeat (fun x => goal ||| (e.plan text).starts x) n goal).testBit p.place = true) :
    let q := followUpTo (e.plan text).starts (e.plan text).follow g goal
      (rungs (fun x => goal ||| (e.plan text).starts x) n goal) p
    goal.testBit q.place = true ∧ (Expr.upTo e n g).Passes text p q := by
  induction n generalizing p with
  | zero => exact ⟨hp, spans_upTo_zero.mpr ⟨rfl, hg _ hp⟩, .of_eq rfl, nofun⟩
  | succ n ih =>
    have hw : Within text.length (Nat.repeat (fun x => goal ||| (e.plan text).starts x) n goal) := by
      intro i hi
      obtain ⟨j, -, hs⟩ := ((starts_plan text e).upTo n g hg i).mp hi
      exact hs.le_length
    rw [Nat.repeat, Nat.testBit_or, Bool.or_eq_true] at hp
    simp only [rungs]
    rcases followUpTo_cons hp with ⟨hgoal, hq⟩ | ⟨hstart, hq⟩
    · rw [hq]
      exact ⟨hgoal, spans_upTo_succ.mpr (.inl ⟨rfl, hg _ hgoal⟩), .of_eq rfl, nofun⟩
    · obtain ⟨hmid, hpass⟩ := he _ hw p hstart
      obtain ⟨hgoal, hrest⟩ := ih hmid
      rw [hq]
      exact ⟨hgoal, spans_upTo_succ.mpr (.inr ⟨_, hpass.spans, hrest.spans⟩),
        hpass.captures.trans hrest.captures, nofun⟩

theorem Starts.above_within (he : e.Starts text) {goal : Marks} (hg : Within text.length goal) (i : Nat) :
    Within text.length (above (Regex.closure (e.plan text).starts goal) i) :=
  fun k hk => he.closure_within hg k ((testBit_above _ _ _).mp hk).2

/-- A loop can go on from every place from which the goal is reached, unless the place is a goal itself. -/
theorem Starts.moves (he : e.Starts text) {goal : Marks} (hg : Within text.length goal) {i : Nat}
    (hi : (Regex.closure (e.plan text).starts goal).testBit i = true) :
    goal.testBit i = true ∨
      ((e.plan text).starts (above (Regex.closure (e.plan text).starts goal) i)).testBit i = true := by
  obtain ⟨j, hj, h⟩ := (he.closure hg i).mp hi
  rcases goal_or_moves (fun _ _ h => h.le) h with rfl | ⟨k, hlt, hs, hk⟩
  · exact .inl hj
  · have hreach := (he.closure hg k).mpr ⟨j, hj, hk⟩
    exact .inr ((he _ (he.above_within hg i) i).mpr ⟨k, (testBit_above _ _ _).mpr ⟨hlt, hreach⟩, hs⟩)

theorem Follows.loop (he : e.Follows text) {goal : Marks} (hg : Within text.length goal) (fuel : Nat)
    (hp : (Regex.closure (e.plan text).starts goal).testBit p.place = true)
    (hfuel : goal.log2 + 1 ≤ p.place + fuel) :
    let q := followLoop (e.plan text).starts (e.plan text).follow g goal
      (Regex.closure (e.plan text).starts goal) fuel p
    goal.testBit q.place = true ∧ ReflTransGen (e.Spans text) p.place q.place ∧
      Progress.Extends e.groups p q := by
  have hstarts := starts_plan text e
  induction fuel generalizing p with
  | zero =>
    have hle := hstarts.le_log2 hg hp
    omega
  | succ fuel ih =>
    rcases followLoop_succ (hstarts.moves hg hp) with ⟨hgoal, hq⟩ | ⟨hstart, hq⟩
    · rw [hq]
      exact ⟨hgoal, .refl, .of_eq rfl⟩
    · obtain ⟨hmid, hpass⟩ := he _ (hstarts.above_within hg _) p hstart
      obtain ⟨hlt, hreach⟩ := (testBit_above _ _ _).mp hmid
      obtain ⟨hgoal, hspans, hext⟩ := ih hreach (by omega)
      rw [hq]
      exact ⟨hgoal, .head hpass.spans hspans, hpass.captures.trans hext⟩

/-- The goal of the first copy of a loop at place `i`: a place further on, or `i` itself if it is a goal. -/
def firstGoal (text : List Char) (e : Expr CharSet Assertion) (goal : Marks) (i : Nat) : Marks :=
  above (Regex.closure (e.plan text).starts goal) i ||| only goal i

theorem testBit_firstGoal {goal : Marks} {i j : Nat} :
    (firstGoal text e goal i).testBit j = true ↔
      i < j ∧ (Regex.closure (e.plan text).starts goal).testBit j = true ∨
        j = i ∧ goal.testBit i = true := by
  rw [firstGoal, Nat.testBit_or, Bool.or_eq_true, testBit_above, testBit_only]

theorem Starts.firstGoal_within (he : e.Starts text) {goal : Marks} (hg : Within text.length goal)
    (i : Nat) : Within text.length (firstGoal text e goal i) := by
  intro j hj
  rcases testBit_firstGoal.mp hj with ⟨-, h⟩ | ⟨rfl, h⟩
  · exact he.closure_within hg j h
  · exact hg _ h

/-- A loop has a first copy that moves on, unless it comes to a goal by staying where it is. -/
theorem Starts.first (he : e.Starts text) {goal : Marks} (hg : Within text.length goal) {i : Nat}
    (hi : ((Expr.plus e g).plan text |>.starts goal).testBit i = true) :
    ((e.plan text).starts (firstGoal text e goal i)).testBit i = true := by
  obtain ⟨k, hk, hs⟩ := (he _ (he.closure_within hg) i).mp hi
  rw [he _ (he.firstGoal_within hg i)]
  rcases Nat.lt_or_eq_of_le hs.le with hlt | rfl
  · exact ⟨k, testBit_firstGoal.mpr (.inl ⟨hlt, hk⟩), hs⟩
  · rcases he.moves hg hk with hgoal | hmove
    · exact ⟨i, testBit_firstGoal.mpr (.inr ⟨rfl, hgoal⟩), hs⟩
    · obtain ⟨j, hj, hjs⟩ := (he _ (he.above_within hg i) i).mp hmove
      exact ⟨j, testBit_firstGoal.mpr (.inl ((testBit_above _ _ _).mp hj)), hjs⟩

section Follow

variable (text : List Char) (a b e : Expr CharSet Assertion) (goal : Marks) (p : Progress)

theorem follow_seq : ((seq a b).plan text).follow goal p =
    (b.plan text).follow goal ((a.plan text).follow ((b.plan text).starts goal) p) :=
  Plan.follow_seq _ _ goal p

theorem follow_alt : ((alt a b).plan text).follow goal p =
    if ((a.plan text).starts goal).testBit p.place then (a.plan text).follow goal p
    else (b.plan text).follow goal p := rfl

/-- Carrying out the plan of a group adds what it stands for to what its expression captures. -/
theorem follow_capture (name : String) : ((capture name e).plan text).follow goal p =
    let q := (e.plan text).follow goal p
    { q with captures := (name, p.place, q.place) :: q.captures } := rfl

theorem follow_times (n : Nat) : ((times e n).plan text).follow goal p =
    (rungs (e.plan text).starts n goal).foldl (fun p stage => (e.plan text).follow stage p) p := by
  rw [← List.append_nil (rungs _ n goal), ← stages_eq]
  rfl

theorem follow_upTo (n : Nat) (g : Bool) : ((upTo e n g).plan text).follow goal p =
    followUpTo (e.plan text).starts (e.plan text).follow g goal
      (rungs (fun x => goal ||| (e.plan text).starts x) n goal) p := by
  rw [← List.append_nil (rungs _ n goal), ← stages_eq]
  rfl

theorem follow_plus (g : Bool) : ((plus e g).plan text).follow goal p =
    let q := (e.plan text).follow (firstGoal text e goal p.place) p
    if q.place = p.place then q
    else followLoop (e.plan text).starts (e.plan text).follow g goal
      (Regex.closure (e.plan text).starts goal) (goal.log2 + 1) q := rfl

end Follow

theorem Follows.plus (he : e.Follows text) (g : Bool) : (Expr.plus e g).Follows text := by
  intro goal hg p hp
  have hstarts := starts_plan text e
  obtain ⟨hmid, hpass⟩ := he _ (hstarts.firstGoal_within hg _) p (hstarts.first hg hp)
  rw [follow_plus]
  generalize (e.plan text).follow (firstGoal text e goal p.place) p = q at hmid hpass
  by_cases hstay : q.place = p.place
  · have hgoal : goal.testBit q.place = true := by
      rcases testBit_firstGoal.mp hmid with ⟨hlt, -⟩ | ⟨-, h⟩
      · omega
      · exact hstay ▸ h
    simp only [hstay, if_true]
    exact ⟨hstay ▸ hgoal, spans_plus.mpr (.single hpass.spans), hpass.captures, nofun⟩
  · have hreach : (Regex.closure (e.plan text).starts goal).testBit q.place = true := by
      rcases testBit_firstGoal.mp hmid with ⟨-, h⟩ | ⟨h, -⟩
      · exact h
      · exact absurd h hstay
    obtain ⟨hgoal, hsteps, hext⟩ := he.loop (g := g) hg (goal.log2 + 1) hreach (by omega)
    simp only [hstay, if_false]
    exact ⟨hgoal, spans_plus.mpr (.head' hpass.spans hsteps), hpass.captures.trans hext, nofun⟩

/-- Carrying out a plan from one of its marks is a way through the expression to a goal. -/
theorem follow_plan (text : List Char) (e : Expr CharSet Assertion) : e.Follows text := by
  induction e with
  | empty => exact fun goal hg p hp => ⟨hp, spans_empty.mpr ⟨rfl, hg _ hp⟩, .of_eq rfl, nofun⟩
  | one s =>
    intro goal hg p hp
    obtain ⟨j, hj, hs⟩ := (starts_plan text (one s) goal hg p.place).mp hp
    obtain ⟨rfl, -⟩ := spans_one.mp hs
    exact ⟨hj, hs, .of_eq rfl, nofun⟩
  | look a =>
    intro goal hg p hp
    obtain ⟨j, hj, hs⟩ := (starts_plan text (look a) goal hg p.place).mp hp
    obtain ⟨rfl, -⟩ := spans_look.mp hs
    exact ⟨hj, hs, .of_eq rfl, nofun⟩
  | seq a b iha ihb =>
    intro goal hg p hp
    obtain ⟨hmid, ha⟩ := iha _ ((starts_plan text b).within hg) p hp
    obtain ⟨hgoal, hb⟩ := ihb goal hg _ hmid
    rw [follow_seq]
    exact ⟨hgoal, spans_seq.mpr ⟨_, ha.spans, hb.spans⟩,
      (ha.captures.mono fun n hn => List.mem_append_left _ hn).trans
        (hb.captures.mono fun n hn => List.mem_append_right _ hn), nofun⟩
  | alt a b iha ihb =>
    intro goal hg p hp
    have hstarts : ((alt a b).plan text).starts goal =
        (a.plan text).starts goal ||| (b.plan text).starts goal := rfl
    rw [follow_alt]
    by_cases ha : ((a.plan text).starts goal).testBit p.place = true
    · obtain ⟨hgoal, hpass⟩ := iha goal hg p ha
      rw [if_pos ha]
      exact ⟨hgoal, spans_alt.mpr (.inl hpass.spans),
        hpass.captures.mono fun n hn => List.mem_append_left _ hn, nofun⟩
    · rw [hstarts, Nat.testBit_or, Bool.or_eq_true] at hp
      obtain ⟨hgoal, hpass⟩ := ihb goal hg p (hp.resolve_left ha)
      rw [if_neg ha]
      exact ⟨hgoal, spans_alt.mpr (.inr hpass.spans),
        hpass.captures.mono fun n hn => List.mem_append_right _ hn, nofun⟩
  | capture name e ih =>
    intro goal hg p hp
    obtain ⟨hgoal, hpass⟩ := ih goal hg p hp
    obtain ⟨new, hnew, hnames⟩ := hpass.captures
    rw [follow_capture]
    generalize (e.plan text).follow goal p = q at hgoal hpass hnew
    refine ⟨hgoal, spans_capture.mpr hpass.spans, ⟨(name, p.place, q.place) :: new, ?_, ?_⟩, ?_⟩
    · simp [hnew]
    · intro c hc
      rcases List.mem_cons.mp hc with rfl | hc
      · exact List.mem_cons_self
      · exact List.mem_cons_of_mem _ (hnames c hc)
    · rintro _ _ ⟨⟩
      rfl
  | times e n ih =>
    intro goal hg p hp
    rw [follow_times]
    exact ih.times n hg hp
  | upTo e n g ih =>
    intro goal hg p hp
    rw [follow_upTo]
    exact ih.upTo n g hg hp
  | plus e g ih => exact ih.plus g

theorem testBit_everywhere (text : List Char) (i : Nat) :
    (everywhere text).testBit i = true ↔ i ≤ text.length := by
  rw [everywhere, Nat.one_shiftLeft, Nat.testBit_two_pow_sub_one, decide_eq_true_eq, Nat.lt_succ_iff]

theorem within_everywhere (text : List Char) : Within text.length (everywhere text) :=
  fun i hi => (testBit_everywhere text i).mp hi

theorem testBit_beginnings (e : Expr CharSet Assertion) (text : List Char) (i : Nat) :
    (e.beginnings text).testBit i = true ↔ ∃ j, e.Spans text i j := by
  rw [beginnings, starts_plan text e _ (within_everywhere text)]
  constructor
  · rintro ⟨j, -, hs⟩
    exact ⟨j, hs⟩
  · rintro ⟨j, hs⟩
    exact ⟨j, (testBit_everywhere text j).mpr hs.inside, hs⟩

theorem search_isSome_iff (e : Expr CharSet Assertion) (text : List Char) :
    (e.search text).isSome = true ↔ ∃ i j, e.Spans text i j := by
  have hmarks : ∀ i, (e.beginnings text).testBit i = true ↔ ∃ j, e.Spans text i j :=
    testBit_beginnings e text
  simp only [search, Option.isSome_map, List.find?_isSome, List.mem_range]
  constructor
  · rintro ⟨i, -, hi⟩
    exact ⟨i, (hmarks i).mp hi⟩
  · rintro ⟨i, j, hs⟩
    exact ⟨i, Nat.lt_succ_of_le hs.le_length, (hmarks i).mpr ⟨j, hs⟩⟩

/-- A search finds a way through the expression, from the first place where there is one. -/
theorem search_eq_some {e : Expr CharSet Assertion} {text : List Char} {f : Found}
    (h : e.search text = some f) :
    (e.plan text).follow (everywhere text) ⟨f.start, []⟩ = ⟨f.stop, f.captures⟩ ∧
      (e.beginnings text).testBit f.start = true ∧
      ∀ i j, e.Spans text i j → f.start ≤ i := by
  obtain ⟨start, hfind, rfl⟩ := Option.map_eq_some_iff.mp h
  obtain ⟨hstart, hmem, hfirst⟩ := List.find?_range_eq_some.mp hfind
  refine ⟨rfl, hstart, fun i j hs => Nat.le_of_not_lt fun hlt => ?_⟩
  have hi : (e.beginnings text).testBit i = true := (testBit_beginnings e text i).mpr ⟨j, hs⟩
  exact absurd hi (by simpa [beginnings] using hfirst i hlt)

theorem search_passes {e : Expr CharSet Assertion} {text : List Char} {f : Found}
    (h : e.search text = some f) : e.Passes text ⟨f.start, []⟩ ⟨f.stop, f.captures⟩ := by
  obtain ⟨hfollow, hstart, -⟩ := search_eq_some h
  rw [← hfollow]
  exact (follow_plan text e _ (within_everywhere text) ⟨f.start, []⟩ hstart).2

theorem beginnings_ne_zero_iff (e : Expr CharSet Assertion) (text : List Char) :
    e.beginnings text ≠ 0 ↔ ∃ i j, e.Spans text i j := by
  constructor
  · intro h
    obtain ⟨i, hi⟩ := Nat.exists_testBit_of_ne_zero h
    exact ⟨i, (testBit_beginnings e text i).mp hi⟩
  · rintro ⟨i, j, hs⟩ h
    have hi := (testBit_beginnings e text i).mpr ⟨j, hs⟩
    simp [h] at hi

end Expr

theorem isMatch_iff (r : RequestRouter.Regex) (text : String) :
    r.isMatch text = true ↔ ∃ i j, r.expr.Spans text.toList i j := by
  rw [RequestRouter.Regex.isMatch, bne_iff_ne, Expr.beginnings_ne_zero_iff]

end RequestRouter.Regex
