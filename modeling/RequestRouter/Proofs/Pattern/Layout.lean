import Mathlib.Data.List.Forall2
import RequestRouter.Pattern.Template
import RequestRouter.Proofs.Regex.Spelling
/-!
The layout of a template's pattern: literal text and groups in turn. A search cuts a text into the literal text
and one stretch for each group, in order, and every way to cut it like that is found.
-/
namespace RequestRouter

open RequestRouter.Regex RequestRouter.Regex.Expr

/-- The parts of slots with the expressions of their variables: the literal text and a group. -/
def holes : List (Slot × Pattern) → List Pattern
  | [] => []
  | (s, e) :: rest => s.before.map charPart ++ capture s.var.group e :: holes rest

def spread : List Slot → List (List Char) → List Char
  | s :: slots, w :: ws => s.before ++ w ++ spread slots ws
  | _, _ => []

section Spans

variable {text : List Char} {es : List Pattern} {hs : List (Slot × Pattern)} {i j : Nat}

theorem getElem?_of_drop {c : Char} {v : List Char} (h : text.drop i = c :: v) :
    text[i]? = some c ∧ text.drop (i + 1) = v := by
  constructor
  · rw [← List.head?_drop, h]
    rfl
  · rw [← List.tail_drop, h]
    rfl

theorem spans_literal {w v : List Char} (h : text.drop i = w ++ v)
    (hes : (concat es).Spans text (i + w.length) j) : (concat (w.map charPart ++ es)).Spans text i j := by
  induction w generalizing i with
  | nil => exact hes
  | cons c w ih =>
    obtain ⟨hc, hrest⟩ := getElem?_of_drop h
    rw [List.length_cons, Nat.add_comm w.length 1, ← Nat.add_assoc] at hes
    exact spans_concat_cons.mpr ⟨i + 1, spans_one.mpr ⟨rfl, c, hc, by simp⟩, ih hrest hes⟩

theorem drop_add {w v : List Char} (h : text.drop i = w ++ v) : text.drop (i + w.length) = v := by
  rw [← List.drop_drop, h, List.drop_left]

theorem spans_holes {ws : List (List Char)} {v : List Char}
    (hl : ∀ h ∈ hs, h.2.lookFree = true)
    (ha : List.Forall₂ (fun h w => h.2.Accepts w) hs ws)
    (h : text.drop i = spread (hs.map (·.1)) ws ++ v)
    (hes : (concat es).Spans text (i + (spread (hs.map (·.1)) ws).length) j) :
    (concat (holes hs ++ es)).Spans text i j := by
  induction ha generalizing i with
  | nil => exact hes
  | @cons x w hs ws hw _ ih =>
    obtain ⟨s, e⟩ := x
    simp only [List.map_cons, spread, List.append_assoc] at h
    have hgroup := drop_add h
    have hrest := drop_add hgroup
    simp only [List.map_cons, spread, List.length_append, ← Nat.add_assoc] at hes
    have hin := ih (fun x hx => hl x (List.mem_cons_of_mem _ hx)) hrest hes
    have hle : i + s.before.length ≤ text.length :=
      Nat.le_trans (Nat.le_add_right _ _) hin.le_length
    have hspan := spans_of_accepts hgroup hle (hl (s, e) List.mem_cons_self) hw
    rw [holes, List.append_assoc]
    exact spans_literal h (spans_concat_cons.mpr ⟨_, spans_capture.mpr hspan, hin⟩)

end Spans

section Runs

variable {text : List Char} {es : List Pattern} {hs : List (Slot × Pattern)} {p q : Progress}

theorem drop_eq_of_spans {e : Pattern} {i j : Nat} (h : e.Spans text i j) :
    text.drop i = stretch text i j ++ text.drop j :=
  drop_eq_stretch_append text h.le

theorem run_literal {w : List Char} (h : Run text (w.map charPart ++ es) p q) :
    ∃ m : Progress, text.drop p.place = w ++ text.drop m.place ∧ m.captures = p.captures ∧
      Run text es m q := by
  induction w generalizing p with
  | nil => exact ⟨p, rfl, rfl, h⟩
  | cons c w ih =>
    cases h with
    | cons hc h =>
      rename_i r
      obtain ⟨m, htext, hcap, hrun⟩ := ih h
      obtain ⟨hplace, d, hd, hmem⟩ := spans_one.mp hc.spans
      obtain rfl := (CharSet.mem_single _ _).mp hmem
      refine ⟨m, ?_, hcap.trans hc.captures.captures_eq, hrun⟩
      obtain ⟨hlt, hget⟩ := List.getElem?_eq_some_iff.mp hd
      rw [List.drop_eq_getElem_cons hlt, hget, ← hplace, htext]
      rfl

/-- A group captures where it was passed, and no later part with other groups changes that. -/
theorem find_capture {name : String} {e : Pattern} {r : Progress} (hgroup : (capture name e).Passes text p r)
    (hnew : ∀ f ∈ es, name ∉ f.groups) (h : Run text es r q) :
    q.captures.find? (·.1 == name) = some (name, p.place, r.place) := by
  have hhead := hgroup.own _ _ rfl
  rw [h.find_eq hnew]
  cases hc : r.captures with
  | nil => simp [hc] at hhead
  | cons c cs =>
    rw [hc, List.head?_cons, Option.some_inj] at hhead
    simp [hhead]

def stands (text : List Char) (q : Progress) (name : String) : Option (List Char) :=
  (q.captures.find? (·.1 == name)).map fun c => stretch text c.2.1 c.2.2

theorem run_holes_spans (hd : (holes hs ++ es).Pairwise fun e f => ∀ n ∈ e.groups, n ∉ f.groups)
    (h : Run text (holes hs ++ es) p q) :
    ∀ x ∈ hs, ∃ i j, x.2.Spans text i j ∧
      q.captures.find? (·.1 == x.1.var.group) = some (x.1.var.group, i, j) := by
  induction hs generalizing p with
  | nil => exact nofun
  | cons x hs ih =>
    obtain ⟨s, e⟩ := x
    rw [holes, List.append_assoc] at h hd
    obtain ⟨r, -, -, h⟩ := run_literal h
    cases h with
    | cons hgroup h =>
      have hd' := (List.pairwise_append.mp hd).2.1
      rw [List.cons_append, List.pairwise_cons] at hd'
      intro y hy
      rcases List.mem_cons.mp hy with rfl | hy
      · have hnew : ∀ f ∈ holes hs ++ es, s.var.group ∉ f.groups := fun f hf => hd'.1 f hf _ List.mem_cons_self
        exact ⟨_, _, spans_capture.mp hgroup.spans, find_capture hgroup hnew h⟩
      · exact ih hd'.2 h y hy

theorem run_holes_inside (hd : (holes hs ++ es).Pairwise fun e f => ∀ n ∈ e.groups, n ∉ f.groups)
    (h : Run text (holes hs ++ es) p q) :
    ∀ x ∈ hs, ∀ c, q.captures.find? (·.1 == x.1.var.group) = some c → c.2.2 ≤ text.length := by
  intro x hx c hc
  obtain ⟨i, j, hspans, hfind⟩ := run_holes_spans hd h x hx
  obtain rfl := Option.some.inj (hfind.symm.trans hc)
  exact hspans.inside

theorem run_holes (hl : ∀ h ∈ hs, h.2.lookFree = true)
    (hd : (holes hs ++ es).Pairwise fun e f => ∀ n ∈ e.groups, n ∉ f.groups)
    (h : Run text (holes hs ++ es) p q) :
    ∃ ws, ∃ m : Progress, text.drop p.place = spread (hs.map (·.1)) ws ++ text.drop m.place ∧
      Run text es m q ∧
      List.Forall₂ (fun h w => h.2.Accepts w ∧ stands text q h.1.var.group = some w) hs ws := by
  induction hs generalizing p with
  | nil => exact ⟨[], p, rfl, h, .nil⟩
  | cons x hs ih =>
    obtain ⟨s, e⟩ := x
    rw [holes, List.append_assoc] at h hd
    obtain ⟨r, htext, -, h⟩ := run_literal h
    cases h with
    | cons hgroup h =>
      rename_i r'
      have hd' := (List.pairwise_append.mp hd).2.1
      rw [List.cons_append, List.pairwise_cons] at hd'
      obtain ⟨ws, m, hrest, hrun, hall⟩ := ih (fun x hx => hl x (List.mem_cons_of_mem _ hx)) hd'.2 h
      have hspan := spans_capture.mp hgroup.spans
      have hnew : ∀ f ∈ holes hs ++ es, s.var.group ∉ f.groups := fun f hf => hd'.1 f hf _ List.mem_cons_self
      have hstands : stands text q s.var.group = some (stretch text r.place r'.place) := by
        rw [stands, find_capture hgroup hnew h]
        rfl
      refine ⟨stretch text r.place r'.place :: ws, m, ?_, hrun, .cons ⟨?_, hstands⟩ hall⟩
      · rw [htext, drop_eq_of_spans hspan, hrest]
        simp [spread]
      · exact hspan.accepts_stretch (hl (s, e) List.mem_cons_self)

end Runs

end RequestRouter
