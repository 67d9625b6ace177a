import Mathlib.Logic.Relation
import RequestRouter.Regex.Search
/-!
Sets of places as numbers: which places the leaves of a plan mark, and what is reached from a set of places by
any number of steps backwards.
-/
namespace RequestRouter.Regex

open Relation

section Leaves

theorem testBit_single (i j : Nat) : (1 <<< i).testBit j = true ↔ j = i := by
  rw [Nat.one_shiftLeft, Nat.testBit_two_pow]
  simp [eq_comm]

theorem exists_mem_addPlaces (c d : Char) (m : Marks) (index : List (Char × Marks)) (i : Nat) :
    (∃ n, (d, n) ∈ addPlaces c m index ∧ n.testBit i = true) ↔
      (d = c ∧ m.testBit i = true) ∨ ∃ n, (d, n) ∈ index ∧ n.testBit i = true := by
  induction index with
  | nil => simp [addPlaces, and_assoc]
  | cons e rest ih =>
    obtain ⟨x, n⟩ := e
    by_cases hx : x = c
    · subst hx
      simp only [addPlaces, if_true, List.mem_cons, Prod.mk.injEq, or_and_right, exists_or]
      by_cases hd : d = x
      · simp [hd, or_assoc, or_left_comm]
      · simp [hd]
    · simp only [addPlaces, hx, if_false, List.mem_cons, or_and_right, exists_or, ih]
      exact or_left_comm

theorem exists_mem_places (text : List Char) (start i : Nat) (c : Char) :
    (∃ n, (c, n) ∈ places start text ∧ n.testBit i = true) ↔
      start ≤ i ∧ text[i - start]? = some c := by
  induction text generalizing start with
  | nil => simp [places]
  | cons d rest ih =>
    rw [places, exists_mem_addPlaces, ih, testBit_single]
    rcases Nat.lt_trichotomy i start with h | rfl | h
    · have h₁ : ¬ start ≤ i := by omega
      have h₂ : ¬ start + 1 ≤ i := by omega
      have h₃ : i ≠ start := by omega
      simp [h₁, h₂, h₃]
    · have h₁ : ¬ i + 1 ≤ i := by omega
      simp [h₁, eq_comm]
    · obtain ⟨k, rfl⟩ : ∃ k, i = start + 1 + k := ⟨i - (start + 1), by omega⟩
      have h₁ : start + 1 + k - start = k + 1 := by omega
      have h₂ : start + 1 + k - (start + 1) = k := by omega
      have h₃ : start + 1 + k ≠ start := by omega
      have h₄ : start ≤ start + 1 + k := by omega
      simp [h₁, h₂, h₃, h₄]

theorem testBit_foldr_or (p : Char → Bool) (index : List (Char × Marks)) (i : Nat) :
    (marksOf p index).testBit i = true ↔
      ∃ c, p c = true ∧ ∃ n, (c, n) ∈ index ∧ n.testBit i = true := by
  induction index with
  | nil => simp [marksOf]
  | cons e rest ih =>
    obtain ⟨d, m⟩ := e
    have hstep : marksOf p ((d, m) :: rest) = if p d then m ||| marksOf p rest else marksOf p rest := rfl
    rw [hstep]
    by_cases hd : p d
    · simp only [hd, if_true, Nat.testBit_or, Bool.or_eq_true, ih, List.mem_cons, Prod.mk.injEq,
        or_and_right, exists_or, and_or_left]
      refine or_congr_left ?_
      constructor
      · intro h
        exact ⟨d, hd, m, ⟨rfl, rfl⟩, h⟩
      · rintro ⟨_, _, _, ⟨rfl, rfl⟩, h⟩
        exact h
    · simp only [hd, Bool.false_eq_true, if_false, ih, List.mem_cons, Prod.mk.injEq]
      refine exists_congr fun c => and_congr_right fun hc => exists_congr fun n => and_congr_left fun _ => ?_
      have hne : c ≠ d := fun he => hd (he ▸ hc)
      simp [hne]

theorem testBit_marksOf (p : Char → Bool) (text : List Char) (i : Nat) :
    (marksOf p (places 0 text)).testBit i = true ↔ ∃ c, text[i]? = some c ∧ p c = true := by
  rw [testBit_foldr_or]
  refine exists_congr fun c => ?_
  rw [exists_mem_places, and_comm]
  simp

theorem half (m : Nat) (b : Bool) : (2 * m + b.toNat) / 2 = m := by
  cases b
  · simp
  · rw [Bool.toNat_true]
    omega

theorem testBit_marksBetween (p : Option Char → Option Char → Bool) (before : Option Char)
    (text : List Char) (i : Nat) :
    (marksBetween p before text).testBit i = true ↔
      i ≤ text.length ∧ p ((text.take i).getLast?.or before) (text.drop i).head? = true := by
  induction text generalizing before i with
  | nil =>
    cases i with
    | zero => cases h : p before none <;> simp [marksBetween, h]
    | succ i => cases h : p before none <;> simp [marksBetween, h, Nat.testBit_add_one]
  | cons c rest ih =>
    cases i with
    | zero => cases h : p before (some c) <;> simp [marksBetween, h]
    | succ i =>
      have hdiv : (2 * marksBetween p (some c) rest + (p before (some c)).toNat) / 2 =
          marksBetween p (some c) rest := half _ _
      rw [marksBetween, Nat.testBit_add_one, hdiv, ih]
      have hlast : (List.take (i + 1) (c :: rest)).getLast?.or before =
          (rest.take i).getLast?.or (some c) := by
        rw [List.take_succ_cons, List.getLast?_cons]
        cases (rest.take i).getLast? <;> rfl
      rw [hlast]
      simp

end Leaves

section Closure

theorem testBit_above (m : Marks) (i j : Nat) :
    (above m i).testBit j = true ↔ i < j ∧ m.testBit j = true := by
  rw [above, Nat.testBit_shiftLeft, Nat.testBit_shiftRight]
  by_cases h : i < j
  · have h₁ : i + 1 + (j - (i + 1)) = j := by omega
    have h₂ : i + 1 ≤ j := h
    simp [h, h₁, h₂]
  · have h₂ : ¬ i + 1 ≤ j := h
    simp [h, h₂]

theorem testBit_only (m : Marks) (i j : Nat) :
    (only m i).testBit j = true ↔ j = i ∧ m.testBit i = true := by
  rw [only]
  by_cases h : m.testBit i
  · rw [if_pos h, testBit_single]
    simp [h]
  · rw [if_neg h]
    simp [h]

theorem le_log2_of_testBit {m i : Nat} (h : m.testBit i = true) : i ≤ m.log2 := by
  have hle := Nat.ge_two_pow_of_testBit h
  have hm : m ≠ 0 := by
    rintro rfl
    simp at h
  exact (Nat.le_log2 hm).mpr hle

def Within (n : Nat) (m : Marks) : Prop := ∀ i, m.testBit i = true → i ≤ n

/-- A step backwards: `f` marks the places from which `R` leads to a marked place. -/
def Steps (n : Nat) (f : Marks → Marks) (R : Nat → Nat → Prop) : Prop :=
  ∀ goal, Within n goal → ∀ i, (f goal).testBit i = true ↔ ∃ j, goal.testBit j = true ∧ R i j

variable {n : Nat} {f : Marks → Marks} {R : Nat → Nat → Prop}

theorem Steps.within (hf : Steps n f R) (hR : ∀ i j, R i j → i ≤ j) {x : Marks} (hx : Within n x) :
    Within n (x ||| f x) := by
  intro i hi
  rw [Nat.testBit_or, Bool.or_eq_true, hf x hx] at hi
  rcases hi with hi | ⟨j, hj, hr⟩
  · exact hx i hi
  · exact Nat.le_trans (hR i j hr) (hx j hj)

theorem testBit_grow_of_testBit (fuel : Nat) {x : Marks} {i : Nat} (h : x.testBit i = true) :
    (grow f fuel x).testBit i = true := by
  induction fuel generalizing x with
  | zero => exact h
  | succ fuel ih =>
    rw [grow]
    split
    · exact h
    · exact ih (by simp [h])

theorem reaches_of_testBit_grow (hf : Steps n f R) (hR : ∀ i j, R i j → i ≤ j) (fuel : Nat) {x : Marks}
    (hx : Within n x) {i : Nat} (h : (grow f fuel x).testBit i = true) :
    ∃ j, x.testBit j = true ∧ ReflTransGen R i j := by
  induction fuel generalizing x with
  | zero => exact ⟨i, h, .refl⟩
  | succ fuel ih =>
    rw [grow] at h
    split at h
    · exact ⟨i, h, .refl⟩
    · obtain ⟨j, hj, hr⟩ := ih (hf.within hR hx) h
      rw [Nat.testBit_or, Bool.or_eq_true, hf x hx] at hj
      rcases hj with hj | ⟨k, hk, hjk⟩
      · exact ⟨j, hj, hr⟩
      · exact ⟨k, hk, hr.tail hjk⟩

theorem le_of_reaches (hR : ∀ i j, R i j → i ≤ j) {i j : Nat} (h : ReflTransGen R i j) : i ≤ j := by
  induction h with
  | refl => exact Nat.le_refl i
  | tail _ hr ih => exact Nat.le_trans ih (hR _ _ hr)

/-- Enough rounds find every place that leads to a mark: a step that stays where it is can be left out, and
each other step moves on by one place at least. -/
theorem testBit_grow_of_reaches (hf : Steps n f R) (hR : ∀ i j, R i j → i ≤ j) (fuel : Nat) {x : Marks}
    (hx : Within n x) {i j : Nat} (hj : x.testBit j = true) (h : ReflTransGen R i j)
    (hfuel : j ≤ i + fuel) : (grow f fuel x).testBit i = true := by
  induction fuel generalizing x j with
  | zero =>
    obtain rfl : i = j := Nat.le_antisymm (le_of_reaches hR h) hfuel
    exact hj
  | succ fuel ih =>
    induction h with
    | refl => exact testBit_grow_of_testBit _ hj
    | tail h hr ihr =>
      rename_i k j
      rcases Nat.lt_or_eq_of_le (hR k j hr) with hlt | rfl
      · have hk : (x ||| f x).testBit k = true := by
          rw [Nat.testBit_or, (hf x hx k).mpr ⟨j, hj, hr⟩, Bool.or_true]
        by_cases hfix : x ||| f x = x
        · exact ihr (hfix ▸ hk) (by omega)
        · rw [grow, if_neg hfix]
          exact ih (hf.within hR hx) hk h (by omega)
      · exact ihr hj hfuel

/-- The closure of a set of places consists of the places from which steps lead into it. -/
theorem testBit_closure (hf : Steps n f R) (hR : ∀ i j, R i j → i ≤ j) {goal : Marks}
    (hgoal : Within n goal) (i : Nat) :
    (closure f goal).testBit i = true ↔ ∃ j, goal.testBit j = true ∧ ReflTransGen R i j := by
  refine ⟨reaches_of_testBit_grow hf hR _ hgoal, ?_⟩
  rintro ⟨j, hj, h⟩
  have hle := le_log2_of_testBit hj
  exact testBit_grow_of_reaches hf hR _ hgoal hj h (by omega)

/-- From a place that leads to a goal, either it is one, or some step moves on and still leads there. -/
theorem goal_or_moves (hR : ∀ i j, R i j → i ≤ j) {i g : Nat} (h : ReflTransGen R i g) :
    i = g ∨ ∃ j, i < j ∧ R i j ∧ ReflTransGen R j g := by
  induction h using ReflTransGen.head_induction_on with
  | refl => exact .inl rfl
  | head hr h ih =>
    rename_i i k
    rcases Nat.lt_or_eq_of_le (hR i k hr) with hlt | rfl
    · exact .inr ⟨k, hlt, hr, h⟩
    · exact ih

end Closure

end RequestRouter.Regex
