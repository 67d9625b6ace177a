import RequestRouter.Proofs.Dispatch.Methods
import RequestRouter.Proofs.Router.Mounts
/-!
The order of the conditions of a route. Gone through one after the other, the first condition that rejects a request
ends the check, while a wrong method is kept in mind and the check goes on. Two neighbours can change places in such
a run, so every order of the conditions gives the same answer.
-/
namespace RequestRouter

open RequestRouter.Http

variable {H : Type}

namespace Matcher

variable {req : Request} {mismatch : Bool} {ms ms' : List Matcher}

/-- The conditions one after the other; `mismatch` tells whether one so far has reported a wrong method. -/
def judgeInTurn (req : Request) : Bool → List Matcher → Option Bool
  | mismatch, [] => some mismatch
  | mismatch, m :: ms =>
    match m.judge req with
    | .accepts => judgeInTurn req mismatch ms
    | .methodMismatch => judgeInTurn req true ms
    | .rejects => none

theorem judgeInTurn_swap (m n : Matcher) (ms : List Matcher) :
    judgeInTurn req mismatch (m :: n :: ms) = judgeInTurn req mismatch (n :: m :: ms) := by
  simp only [judgeInTurn]
  cases m.judge req <;> cases n.judge req <;> rfl

theorem judgeInTurn_perm (h : ms.Perm ms') : judgeInTurn req mismatch ms = judgeInTurn req mismatch ms' := by
  induction h generalizing mismatch with
  | nil => rfl
  | cons m _ ih => simp only [judgeInTurn, ih]
  | swap m n ms => exact judgeInTurn_swap n m ms
  | trans _ _ ih₁ ih₂ => exact ih₁.trans ih₂

theorem judgeInTurn_eq (req : Request) (mismatch : Bool) (ms : List Matcher) :
    judgeInTurn req mismatch ms =
      if (ms.map (·.judge req)).contains .rejects then none
      else some (mismatch || (ms.map (·.judge req)).contains .methodMismatch) := by
  induction ms generalizing mismatch with
  | nil => simp [judgeInTurn]
  | cons m ms ih =>
    rw [judgeInTurn, List.map_cons]
    cases m.judge req with
    | accepts => simp [ih]
    | methodMismatch => simp [ih]
    | rejects => simp

end Matcher

namespace Route

open Matcher

variable {r : Route H} {req : Request} {view : View} {isMount : Bool} {mismatch : Bool}

theorem judge_eq_inTurn (r : Route H) (req : Request) : r.judge req = judgeInTurn req false r.matchers := by
  rw [judgeInTurn_eq, Bool.false_or]
  rfl

theorem judge_eq_none_iff : r.judge req = none ↔ ∃ m ∈ r.matchers, m.judge req = .rejects := by
  rw [← Option.not_isSome_iff_eq_none, judge_isSome_iff]
  simp only [not_forall, exists_prop, not_not]

/-- A wrong method that one of the conditions has reported is not forgotten. -/
theorem of_judge_eq_some (h : r.judge req = some mismatch) :
    mismatch = true ↔ ∃ m ∈ r.matchers, m.judge req = .methodMismatch := by
  have hfalse := judge_eq_some_false_iff r req
  simp only [h, Option.isSome_some, true_and, Option.some_inj] at hfalse
  rw [← Bool.not_eq_false, hfalse]
  simp only [not_forall, exists_prop, not_not]

/-- The check with the conditions one after the other, then the templates. -/
def checkInTurn (r : Route H) (ms : List Matcher) (view : View) (isMount : Bool) : Option (Bool × Vars) :=
  if r.error.isSome then none
  else (judgeInTurn view.request false ms).bind fun mismatch => (r.capture view isMount).map (mismatch, ·)

theorem checkInTurn_eq (r : Route H) (ms : List Matcher) (view : View) (isMount : Bool) :
    r.checkInTurn ms view isMount = { r with matchers := ms }.check view isMount := by
  rw [check_eq, judge_eq_inTurn]
  rfl

theorem checkInTurn_perm {ms : List Matcher} (h : ms.Perm r.matchers) :
    r.checkInTurn ms view isMount = r.check view isMount := by
  rw [checkInTurn, judgeInTurn_perm h, ← judge_eq_inTurn, check_eq]

/-- What makes a route miss a request: its own error, a condition, or one of its templates. -/
def Misses (r : Route H) (view : View) (isMount : Bool) : Prop :=
  r.error.isSome = true ∨ (∃ m ∈ r.matchers, m.judge view.request = .rejects) ∨
    ¬ (r.hostAccepts view isMount ∧ r.pathAccepts view ∧ r.queriesAccept view)

theorem check_eq_none_iff : r.check view isMount = none ↔ r.Misses view isMount := by
  rw [← Option.not_isSome_iff_eq_none, check_isSome_iff, Misses, ← capture_isSome_iff, ← judge_eq_none_iff]
  cases r.error <;> cases r.judge view.request <;> simp

/-- The order of the conditions of a route does not matter. In whatever order they are asked one after the other, the
check gives the same answer and the same variables. It is a miss exactly if the route has an error, one of the
conditions rejects the request or one of the templates does not match; otherwise the templates give the variables, and
a wrong method is reported exactly if one of the conditions does so, wherever it stands. -/
theorem check_perm {ms : List Matcher} (h : ms.Perm r.matchers) (view : View) (isMount : Bool) :
    { r with matchers := ms }.check view isMount = r.check view isMount ∧
      r.checkInTurn ms view isMount = r.check view isMount ∧
      (r.check view isMount = none ↔ r.Misses view isMount) ∧
      ∀ mismatch vars, r.check view isMount = some (mismatch, vars) →
        (mismatch = true ↔ ∃ m ∈ r.matchers, m.judge view.request = .methodMismatch) ∧
          r.capture view isMount = some vars := by
  have hturn : r.checkInTurn ms view isMount = r.check view isMount := checkInTurn_perm h
  refine ⟨(r.checkInTurn_eq ms view isMount).symm.trans hturn, hturn, check_eq_none_iff, fun mismatch vars hcheck => ?_⟩
  have hcapture := capture_of_check hcheck
  refine ⟨?_, hcapture⟩
  simp only [check_eq, Option.ite_none_left_eq_some, hcapture, Option.bind_eq_some_iff, Option.map_some,
    Option.some_inj, Prod.mk.injEq, and_true] at hcheck
  obtain ⟨-, _, hjudge, rfl⟩ := hcheck
  exact of_judge_eq_some hjudge

/-- Three conditions in the opposite order: one of the caller's own reports a wrong method, first or last. With
another scheme the route misses. -/
theorem check_perm_reversed :
    let calls : List (Call Unit) := [.path "/users/{id}", .methods ["get"], .schemes ["http"],
      .matcher (Test.judge (.hasHeader ⟨"token"⟩) .accepts .methodMismatch)]
    let r : Route Unit := (Call.applyAll calls (.new .root 0) (.new .new)).1
    let view (scheme : Option String) : View := .of (.new .get ⟨scheme, none, "/users/7", none⟩ [] none)
    r.matchers.length = 3 ∧
      { r with matchers := r.matchers.reverse }.check (view none) false = some (true, [("id", "7")]) ∧
      (∃ m ∈ r.matchers, m.judge (view none).request = .methodMismatch) ∧ r.Misses (view (some "https")) false := by
  intro calls r view
  have hlength : r.matchers.length = 3 := by decide +kernel
  have hcheck : r.check (view none) false = some (true, [("id", "7")]) := by decide +kernel
  have hmiss : r.check (view (some "https")) false = none := by decide +kernel
  obtain ⟨hsame, -, -, hsome⟩ := check_perm (r := r) r.matchers.reverse_perm (view none) false
  exact ⟨hlength, hsame.trans hcheck, (hsome _ _ hcheck).1.mp rfl,
    (check_perm (r := r) (.refl _) (view (some "https")) false).2.2.1.mp hmiss⟩

end Route

end RequestRouter
