import Mathlib.Algebra.Ring.Nat
import RequestRouter.Proofs.Dispatch.Methods
/-!
The conditions that configuration calls put on a route. Each call adds at most one; only a call for methods
adds a list of methods, and only a call for a condition of the caller's own adds one.
-/
namespace RequestRouter

open RequestRouter.Http

variable {H : Type}

namespace Call

def methodLists : Call H → Nat
  | methods _ => 1
  | _ => 0

/-- The call adds no condition of the caller's own. -/
def Standard : Call H → Prop
  | matcher _ => False
  | _ => True

/-- The conditions of `r'` are those of `r` and then some that the call `c` can add. -/
def Adds (c : Call H) (r r' : Route H) : Prop :=
  ∃ added, r'.matchers = r.matchers ++ added ∧
    (added.filterMap Matcher.methods?).length ≤ c.methodLists ∧ (c.Standard → ∀ m ∈ added, m.Standard)

theorem Adds.of_eq {c : Call H} {r r' : Route H} (h : r'.matchers = r.matchers) : c.Adds r r' :=
  ⟨[], by simp [h], by simp, by simp⟩

theorem Adds.one {c : Call H} {r r' : Route H} (m : Matcher) (h : r'.matchers = r.matchers ++ [m])
    (hl : ([m].filterMap Matcher.methods?).length ≤ c.methodLists) (hs : c.Standard → m.Standard) :
    c.Adds r r' :=
  ⟨[m], h, hl, fun h' => by simpa using hs h'⟩

theorem setHost_matchers (t : String) (r : Route H) (st : Setup) :
    (setHost t r st).route.matchers = r.matchers := by
  simp only [setHost]
  split <;> rfl

theorem setPath_matchers (t : String) (kind : TemplateKind) (r : Route H) (st : Setup) :
    (setPath t kind r st).route.matchers = r.matchers := by
  simp only [setPath]
  split
  · rfl
  · split <;> rfl

theorem addQueries_matchers (pairs : List (String × String)) (r : Route H) (st : Setup) :
    (addQueries pairs r st).route.matchers = r.matchers := by
  induction pairs generalizing r st with
  | nil => rfl
  | cons p rest ih =>
    simp only [addQueries]
    split
    · rfl
    · exact ih _ _

theorem setName_matchers (n : String) (r : Route H) (st : Setup) :
    (setName n r st).route.matchers = r.matchers := by
  simp only [setName]
  split
  · rfl
  · split <;> rfl

theorem attempt_adds (r : Route H) (st : Setup) (c : Call H) : c.Adds r (c.attempt r st).route := by
  cases c with
  | path t => exact .of_eq (setPath_matchers t .path r st)
  | leading t => exact .of_eq (setPath_matchers t .leading r st)
  | host t => exact .of_eq (setHost_matchers t r st)
  | methods names =>
    simp only [attempt]
    split
    · exact .of_eq rfl
    · exact .one _ rfl (Nat.le_refl 1) fun _ => trivial
  | headers pairs =>
    simp only [attempt]
    split
    · exact .of_eq rfl
    · exact .one _ rfl (Nat.zero_le _) fun _ => trivial
  | headerPatterns pairs =>
    simp only [attempt]
    split
    · exact .of_eq rfl
    · exact .one _ rfl (Nat.zero_le _) fun _ => trivial
  | queries pairs => exact .of_eq (addQueries_matchers pairs r st)
  | schemes names =>
    refine .one (.schemes (names.map lowerAscii)) ?_ (Nat.zero_le _) fun _ => trivial
    simp only [attempt, addSchemes, addMatcher]
    split <;> rfl
  | matcher judge => exact .one _ rfl (Nat.zero_le _) fun h => h.elim
  | transform f => exact .of_eq rfl
  | buildOnly => exact .of_eq rfl
  | name n => exact .of_eq (setName_matchers n r st)
  | handler h => exact .of_eq rfl

theorem apply_adds (r : Route H) (st : Setup) (c : Call H) : c.Adds r (c.apply r st).1 := by
  simp only [apply]
  split
  · exact .of_eq rfl
  · exact attempt_adds r st c

/-- Calls that add no condition of the caller's own and at most one list of methods in all leave a route
without conditions regular. -/
theorem regular_applyAll {calls : List (Call H)} (hs : ∀ c ∈ calls, c.Standard)
    (hl : (calls.map methodLists).sum ≤ 1) {r : Route H} (hr : r.matchers = []) (st : Setup) :
    (applyAll calls r st).1.Regular := by
  suffices h : ∀ r : Route H, (∀ m ∈ r.matchers, m.Standard) →
      (∀ m ∈ (applyAll calls r st).1.matchers, m.Standard) ∧
      ((applyAll calls r st).1.matchers.filterMap Matcher.methods?).length ≤
        (r.matchers.filterMap Matcher.methods?).length + (calls.map methodLists).sum by
    obtain ⟨hstd, hlen⟩ := h r (by simp [hr])
    rw [hr, List.filterMap_nil, List.length_nil, Nat.zero_add] at hlen
    exact ⟨hstd, Nat.le_trans hlen hl⟩
  clear hl hr
  induction calls generalizing st with
  | nil => exact fun r h => ⟨h, Nat.le_refl _⟩
  | cons c calls ih =>
    intro r hstd
    obtain ⟨added, heq, hlen, hadd⟩ := apply_adds r st c
    have hstd' : ∀ m ∈ (c.apply r st).1.matchers, m.Standard := by
      intro m hm
      rw [heq] at hm
      rcases List.mem_append.mp hm with hm | hm
      · exact hstd m hm
      · exact hadd (hs c (by simp)) m hm
    obtain ⟨hall, htotal⟩ := ih (fun d hd => hs d (by simp [hd])) (c.apply r st).2 _ hstd'
    rw [applyAll_cons]
    refine ⟨hall, ?_⟩
    rw [heq, List.filterMap_append, List.length_append] at htotal
    rw [List.map_cons, List.sum_cons]
    omega

end Call

end RequestRouter
