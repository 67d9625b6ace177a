import Mathlib.Logic.Relation
import RequestRouter.Regex.Search
/-!
Expressions as relations between places of one text. `Spans text e i j` says that `e` accepts the stretch
from place `i` to place `j` where it stands. Every operator of expressions is an operation on relations:
sequence is composition, repetition is iteration.
-/
namespace RequestRouter.Regex

open Relation

section Stretch

variable (text : List Char) {i j k : Nat}

@[simp] theorem length_stretch (h : j ≤ text.length) : (stretch text i j).length = j - i := by
  simp [stretch, Nat.min_eq_left h]

@[simp] theorem stretch_self : stretch text i i = [] := by
  simp [stretch]

theorem take_eq_append_stretch (h : i ≤ j) : text.take j = text.take i ++ stretch text i j := by
  have hi : (text.take j).take i = text.take i := by rw [List.take_take, Nat.min_eq_left h]
  rw [← hi, stretch, List.take_append_drop]

theorem drop_eq_stretch_append (h : i ≤ j) : text.drop i = stretch text i j ++ text.drop j := by
  by_cases hj : j ≤ text.length
  · have hlen : i ≤ (text.take j).length := by simpa [Nat.min_eq_left hj] using h
    rw [stretch, ← List.drop_append_of_le_length hlen, List.take_append_drop]
  · have hle : text.length ≤ j := by omega
    simp [stretch, List.take_of_length_le hle, List.drop_eq_nil_of_le hle]

theorem stretch_append (hi : i ≤ k) (hj : k ≤ j) :
    stretch text i k ++ stretch text k j = stretch text i j := by
  have h := drop_eq_stretch_append text (Nat.le_trans hi hj)
  rw [drop_eq_stretch_append text hi, drop_eq_stretch_append text hj, ← List.append_assoc] at h
  exact List.append_cancel_right h

theorem head?_stretch_or (h : i ≤ j) :
    (stretch text i j).head?.or (text.drop j).head? = (text.drop i).head? := by
  rw [drop_eq_stretch_append text h, List.head?_append]

theorem getLast?_stretch_or (h : i ≤ j) :
    (stretch text i j).getLast?.or (text.take i).getLast? = (text.take j).getLast? := by
  rw [take_eq_append_stretch text h, List.getLast?_append]

theorem eq_of_stretch_eq_nil (hi : i ≤ j) (hj : j ≤ text.length) (h : stretch text i j = []) :
    i = j := by
  have hlen := length_stretch text (i := i) hj
  rw [h, List.length_nil] at hlen
  omega

theorem exists_stretch_of_eq_append {u v : List Char} (hi : i ≤ j) (hj : j ≤ text.length)
    (h : stretch text i j = u ++ v) :
    ∃ k, i ≤ k ∧ k ≤ j ∧ u = stretch text i k ∧ v = stretch text k j := by
  have hlen : (stretch text i j).length = u.length + v.length := by rw [h, List.length_append]
  rw [length_stretch text hj] at hlen
  have hk : i + u.length ≤ j := by omega
  rw [← stretch_append text (Nat.le_add_right i u.length) hk] at h
  have hu : (stretch text i (i + u.length)).length = u.length := by
    rw [length_stretch text (Nat.le_trans hk hj)]
    omega
  obtain ⟨h₁, h₂⟩ := List.append_inj h hu
  exact ⟨_, Nat.le_add_right i _, hk, h₁.symm, h₂.symm⟩

theorem stretch_succ (h : i < text.length) : stretch text i (i + 1) = [text[i]] := by
  have hlen : (text.take i).length = i := by
    rw [List.length_take, Nat.min_eq_left (Nat.le_of_lt h)]
  rw [stretch, List.take_succ_eq_append_getElem h, List.drop_append_of_le_length (Nat.le_of_eq hlen.symm),
    List.drop_of_length_le (Nat.le_of_eq hlen), List.nil_append]

end Stretch

namespace Expr

/-- The expression accepts the text from place `i` to place `j`, standing where it stands. -/
structure Spans (text : List Char) (e : Expr CharSet Assertion) (i j : Nat) : Prop where
  le : i ≤ j
  inside : j ≤ text.length
  accepts : Matches e (text.take i).getLast? (stretch text i j) (text.drop j).head?

namespace Spans

variable {text : List Char} {e f : Expr CharSet Assertion} {i j k n : Nat}

theorem of_append {u v : List Char} (hi : i ≤ j) (hj : j ≤ text.length)
    (hw : u ++ v = stretch text i j)
    (hu : Matches e (text.take i).getLast? u (v.head?.or (text.drop j).head?))
    (hv : Matches f (u.getLast?.or (text.take i).getLast?) v (text.drop j).head?) :
    ∃ k, e.Spans text i k ∧ f.Spans text k j := by
  obtain ⟨k, hik, hkj, rfl, rfl⟩ := exists_stretch_of_eq_append text hi hj hw.symm
  rw [head?_stretch_or text hkj] at hu
  rw [getLast?_stretch_or text hik] at hv
  exact ⟨k, ⟨hik, Nat.le_trans hkj hj, hu⟩, ⟨hkj, hj, hv⟩⟩

theorem left_accepts (he : e.Spans text i k) (hf : f.Spans text k j) :
    Matches e (text.take i).getLast? (stretch text i k)
      ((stretch text k j).head?.or (text.drop j).head?) := by
  rw [head?_stretch_or text hf.le]
  exact he.accepts

theorem right_accepts (he : e.Spans text i k) (hf : f.Spans text k j) :
    Matches f ((stretch text i k).getLast?.or (text.take i).getLast?) (stretch text k j)
      (text.drop j).head? := by
  rw [getLast?_stretch_or text he.le]
  exact hf.accepts

end Spans

variable {text : List Char} {e f : Expr CharSet Assertion} {i j k n : Nat} {g : Bool}

theorem spans_of_nil (h : Matches e (text.take i).getLast? [] (text.drop i).head?)
    (hi : i ≤ text.length) : e.Spans text i i :=
  ⟨Nat.le_refl i, hi, by simpa using h⟩

theorem spans_empty : (empty : Expr CharSet Assertion).Spans text i j ↔ i = j ∧ j ≤ text.length := by
  constructor
  · rintro ⟨hi, hj, h⟩
    generalize hw : stretch text i j = w at h
    cases h
    exact ⟨eq_of_stretch_eq_nil text hi hj hw, hj⟩
  · rintro ⟨rfl, hj⟩
    exact spans_of_nil .empty hj

theorem spans_one {s : CharSet} :
    (one s : Expr CharSet Assertion).Spans text i j ↔
      j = i + 1 ∧ ∃ c, text[i]? = some c ∧ s.mem c = true := by
  constructor
  · rintro ⟨hi, hj, h⟩
    generalize hw : stretch text i j = w at h
    cases h with
    | one hc =>
      rename_i c
      have hl := length_stretch text (i := i) hj
      rw [hw, List.length_singleton] at hl
      obtain rfl : j = i + 1 := by omega
      rw [stretch_succ text hj] at hw
      exact ⟨rfl, c, by rw [List.getElem?_eq_getElem hj, List.singleton_inj.mp hw], hc⟩
  · rintro ⟨rfl, c, hc, hm⟩
    obtain ⟨hlt, rfl⟩ := List.getElem?_eq_some_iff.mp hc
    refine ⟨Nat.le_add_right i 1, hlt, ?_⟩
    rw [stretch_succ text hlt]
    exact .one hm

theorem spans_look {a : Assertion} :
    (look a : Expr CharSet Assertion).Spans text i j ↔
      i = j ∧ j ≤ text.length ∧ a.holds (text.take i).getLast? (text.drop i).head? = true := by
  constructor
  · rintro ⟨hi, hj, h⟩
    generalize hw : stretch text i j = w at h
    cases h with
    | look ha =>
      obtain rfl := eq_of_stretch_eq_nil text hi hj hw
      exact ⟨rfl, hj, ha⟩
  · rintro ⟨rfl, hj, ha⟩
    exact spans_of_nil (.look ha) hj

theorem spans_seq : (seq e f).Spans text i j ↔ ∃ k, e.Spans text i k ∧ f.Spans text k j := by
  constructor
  · rintro ⟨hi, hj, h⟩
    generalize hw : stretch text i j = w at h
    cases h with
    | seq hu hv => exact Spans.of_append hi hj hw.symm hu hv
  · rintro ⟨k, he, hf⟩
    refine ⟨Nat.le_trans he.le hf.le, hf.inside, ?_⟩
    rw [← stretch_append text he.le hf.le]
    exact .seq (he.left_accepts hf) (he.right_accepts hf)

theorem spans_alt : (alt e f).Spans text i j ↔ e.Spans text i j ∨ f.Spans text i j := by
  constructor
  · rintro ⟨hi, hj, h⟩
    cases h with
    | left h => exact .inl ⟨hi, hj, h⟩
    | right h => exact .inr ⟨hi, hj, h⟩
  · rintro (⟨hi, hj, h⟩ | ⟨hi, hj, h⟩)
    · exact ⟨hi, hj, .left h⟩
    · exact ⟨hi, hj, .right h⟩

theorem spans_capture {name : String} : (capture name e).Spans text i j ↔ e.Spans text i j := by
  constructor
  · rintro ⟨hi, hj, h⟩
    cases h with
    | capture h => exact ⟨hi, hj, h⟩
  · rintro ⟨hi, hj, h⟩
    exact ⟨hi, hj, .capture h⟩

theorem spans_times_zero : (times e 0).Spans text i j ↔ i = j ∧ j ≤ text.length := by
  constructor
  · rintro ⟨hi, hj, h⟩
    generalize hw : stretch text i j = w at h
    cases h
    exact ⟨eq_of_stretch_eq_nil text hi hj hw, hj⟩
  · rintro ⟨rfl, hj⟩
    exact spans_of_nil .timesZero hj

theorem spans_times_succ :
    (times e (n + 1)).Spans text i j ↔ ∃ k, e.Spans text i k ∧ (times e n).Spans text k j := by
  constructor
  · rintro ⟨hi, hj, h⟩
    generalize hw : stretch text i j = w at h
    cases h with
    | timesSucc hu hv => exact Spans.of_append hi hj hw.symm hu hv
  · rintro ⟨k, he, hf⟩
    refine ⟨Nat.le_trans he.le hf.le, hf.inside, ?_⟩
    rw [← stretch_append text he.le hf.le]
    exact .timesSucc (he.left_accepts hf) (he.right_accepts hf)

theorem spans_upTo_zero : (upTo e 0 g).Spans text i j ↔ i = j ∧ j ≤ text.length := by
  constructor
  · rintro ⟨hi, hj, h⟩
    generalize hw : stretch text i j = w at h
    cases h
    exact ⟨eq_of_stretch_eq_nil text hi hj hw, hj⟩
  · rintro ⟨rfl, hj⟩
    exact spans_of_nil .upToStop hj

theorem spans_upTo_succ :
    (upTo e (n + 1) g).Spans text i j ↔
      i = j ∧ j ≤ text.length ∨ ∃ k, e.Spans text i k ∧ (upTo e n g).Spans text k j := by
  constructor
  · rintro ⟨hi, hj, h⟩
    generalize hw : stretch text i j = w at h
    cases h with
    | upToStop =>
      exact .inl ⟨eq_of_stretch_eq_nil text hi hj hw, hj⟩
    | upToMore hu hv => exact .inr (Spans.of_append hi hj hw.symm hu hv)
  · rintro (⟨rfl, hj⟩ | ⟨k, he, hf⟩)
    · exact spans_of_nil .upToStop hj
    · refine ⟨Nat.le_trans he.le hf.le, hf.inside, ?_⟩
      rw [← stretch_append text he.le hf.le]
      exact .upToMore (he.left_accepts hf) (he.right_accepts hf)

theorem spans_plus : (plus e g).Spans text i j ↔ TransGen (e.Spans text) i j := by
  constructor
  · rintro ⟨hi, hj, h⟩
    generalize hx : plus e g = x at h
    generalize hb : (text.take i).getLast? = b at h
    generalize hw : stretch text i j = w at h
    generalize ha : (text.drop j).head? = a at h
    induction h generalizing i with
    | plusOnce h =>
      cases hx
      subst hb hw ha
      exact .single ⟨hi, hj, h⟩
    | plusMore hu hv _ ih =>
      cases hx
      subst hb ha
      obtain ⟨k, hik, hkj, rfl, rfl⟩ := exists_stretch_of_eq_append text hi hj hw
      rw [head?_stretch_or text hkj] at hu
      rw [getLast?_stretch_or text hik] at ih
      exact .head ⟨hik, Nat.le_trans hkj hj, hu⟩ (ih hkj rfl rfl rfl rfl)
    | _ => cases hx
  · intro h
    induction h using TransGen.head_induction_on with
    | single h => exact ⟨h.le, h.inside, .plusOnce h.accepts⟩
    | head h _ ih =>
      refine ⟨Nat.le_trans h.le ih.le, ih.inside, ?_⟩
      rw [← stretch_append text h.le ih.le]
      exact .plusMore (h.left_accepts ih) (h.right_accepts ih)

theorem spans_optional :
    (copies e 0 (some 1) g).Spans text i j ↔ i = j ∧ j ≤ text.length ∨ e.Spans text i j := by
  rw [copies]
  simp only [spans_seq, spans_times_zero, spans_upTo_succ, spans_upTo_zero]
  constructor
  · rintro ⟨k, ⟨rfl, -⟩, h | ⟨m, he, rfl, -⟩⟩
    · exact .inl h
    · exact .inr he
  · rintro (⟨rfl, h⟩ | he)
    · exact ⟨i, ⟨rfl, h⟩, .inl ⟨rfl, h⟩⟩
    · exact ⟨i, ⟨rfl, Nat.le_trans he.le he.inside⟩, .inr ⟨j, he, rfl, he.inside⟩⟩

end Expr

end RequestRouter.Regex
