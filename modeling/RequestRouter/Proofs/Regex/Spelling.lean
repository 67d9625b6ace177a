import RequestRouter.Proofs.Regex.Framing
import RequestRouter.Proofs.Regex.Parts
/-!
What tokens spell does not depend on the groups around them. A pattern that is complete in itself spells the
same expression inside a group, and its group names are new there. So a text made of literal characters,
groups around patterns, and conditions spells these parts one after the other.
-/
namespace RequestRouter.Regex

open RequestRouter.Regex.Expr

section Names

variable {names more : List String}

theorem mem_groups_concat {es : List Pattern} {n : String} :
    n ∈ (concat es).groups ↔ ∃ e ∈ es, n ∈ e.groups := by
  induction es with
  | nil => simp [concat, groups]
  | cons e es ih =>
    cases es with
    | nil => simp [concat]
    | cons f fs =>
      have hseq : (concat (e :: f :: fs)).groups = e.groups ++ (concat (f :: fs)).groups := rfl
      rw [hseq, List.mem_append, ih]
      simp

theorem mem_groups_choice {e : Pattern} {es : List Pattern} {n : String} :
    n ∈ (choice e es).groups ↔ n ∈ e.groups ∨ ∃ f ∈ es, n ∈ f.groups := by
  induction es generalizing e with
  | nil => simp [choice]
  | cons f fs ih =>
    have halt : (choice e (f :: fs)).groups = e.groups ++ (choice f fs).groups := rfl
    rw [halt, List.mem_append, ih]
    simp

theorem mem_groups_copies {e : Pattern} {min : Nat} {max : Option Nat} {greedy : Bool} {n : String} :
    n ∈ (copies e min max greedy).groups ↔ n ∈ e.groups := by
  unfold copies
  split <;> simp [groups]

def Items.Named (names : List String) (items : Items) : Prop :=
  ∀ p, some p ∈ items → ∀ n ∈ p.expr.groups, n ∈ names

theorem Items.Named.mono {items : Items} (h : items.Named names) (hs : ∀ n ∈ names, n ∈ more) :
    items.Named more :=
  fun p hp n hn => hs n (h p hp n hn)

def PartsNamed (names : List String) (ps : List Part) : Prop :=
  ∀ p ∈ ps, ∀ n ∈ p.expr.groups, n ∈ names

theorem Items.Named.part {items : Items} (h : items.Named names) :
    ∀ n ∈ items.part.expr.groups, n ∈ names := by
  intro n hn
  obtain ⟨e, he, hn⟩ := mem_groups_concat.mp hn
  obtain ⟨p, hp, rfl⟩ := List.mem_map.mp he
  exact h p (by simpa using hp) n hn

theorem joinAlternatives_named {before : List Part} {last : Part} (hb : PartsNamed names before)
    (hl : ∀ n ∈ last.expr.groups, n ∈ names) :
    ∀ n ∈ (joinAlternatives before last).expr.groups, n ∈ names := by
  intro n hn
  unfold joinAlternatives at hn
  split at hn
  · exact hl n hn
  · rename_i p ps hrev
    have hmem : ∀ q ∈ p :: ps, q ∈ before := fun q hq => List.mem_reverse.mp (hrev ▸ hq)
    rcases mem_groups_choice.mp hn with hn | ⟨f, hf, hn⟩
    · exact hb p (hmem p List.mem_cons_self) n hn
    · rcases List.mem_append.mp hf with hf | hf
      · obtain ⟨q, hq, rfl⟩ := List.mem_map.mp hf
        exact hb q (hmem q (List.mem_cons_of_mem _ hq)) n hn
      · obtain rfl := List.mem_singleton.mp hf
        exact hl n hn

structure Reading.Named (r : Reading) : Prop where
  items : r.items.Named r.names
  alternatives : PartsNamed r.names r.alternatives
  outside : ∀ o ∈ r.outside, o.items.Named r.names ∧ PartsNamed r.names o.alternatives ∧
    ∀ n ∈ o.name, n ∈ r.names

theorem Reading.named_initial : Reading.initial.Named :=
  ⟨nofun, nofun, nofun⟩

theorem Reading.Named.inner {r : Reading} (h : r.Named) : ∀ n ∈ r.inner.expr.groups, n ∈ r.names :=
  joinAlternatives_named h.alternatives h.items.part

theorem Atom.groups_part (fl : Flags) (a : Atom) : (a.part fl).expr.groups = [] := by
  cases a <;> rfl

theorem Items.Named.cons {items : Items} {p : Part} (h : items.Named names)
    (hp : ∀ n ∈ p.expr.groups, n ∈ names) : Items.Named names (some p :: items) := by
  intro q hq
  rcases List.mem_cons.mp hq with heq | hq
  · cases heq
    exact hp
  · exact h q hq

theorem Reading.Named.step {r r' : Reading} {t : Token} (h : r.Named) (hs : r.step t = some r') :
    r'.Named := by
  cases t with
  | atom a =>
    cases hs
    exact ⟨h.items.cons (by simp [Atom.groups_part]), h.alternatives, h.outside⟩
  | bar =>
    cases hs
    refine ⟨nofun, ?_, h.outside⟩
    intro p hp
    rcases List.mem_cons.mp hp with rfl | hp
    · exact h.items.part
    · exact h.alternatives p hp
  | switch edits =>
    cases hs
    refine ⟨fun p hp => ?_, h.alternatives, h.outside⟩
    rcases List.mem_cons.mp hp with heq | hp
    · cases heq
    · exact h.items p hp
  | enter name edits =>
    simp only [Reading.step] at hs
    split at hs
    · cases hs
    · cases hs
      have hmore : ∀ n ∈ r.names, n ∈ name.toList ++ r.names := fun n => List.mem_append_right _
      refine ⟨nofun, nofun, ?_⟩
      intro o ho
      rcases List.mem_cons.mp ho with rfl | ho
      · exact ⟨h.items.mono hmore, fun p hp n hn => hmore n (h.alternatives p hp n hn), by simp_all⟩
      · obtain ⟨hi, ha, hn⟩ := h.outside o ho
        exact ⟨hi.mono hmore, fun p hp n hn => hmore n (ha p hp n hn), fun n hm => hmore n (hn n hm)⟩
  | leave =>
    simp only [Reading.step] at hs
    split at hs
    · cases hs
    · rename_i o outside heq
      cases hs
      obtain ⟨hi, ha, hn⟩ := h.outside o (by simp [heq])
      refine ⟨hi.cons ?_, ha, fun p hp => h.outside p (by simp [heq, hp])⟩
      intro n hm
      cases hname : o.name with
      | none =>
        rw [hname] at hm
        exact h.inner n hm
      | some m =>
        rw [hname] at hm
        rcases List.mem_cons.mp hm with rfl | hm
        · exact hn n hname
        · exact h.inner n hm
  | quantity min max greedy =>
    simp only [Reading.step] at hs
    split at hs
    · rename_i p items heq
      cases hs
      refine ⟨Items.Named.cons (fun q hq => h.items q (by simp [heq, hq])) ?_, h.alternatives, h.outside⟩
      intro n hn
      exact h.items p (by simp [heq]) n (mem_groups_copies.mp hn)
    · cases hs

/-- Reads tokens one after the other. -/
def Reading.run (r : Reading) (ts : List Token) : Option Reading := ts.foldlM Reading.step r

@[simp] theorem Reading.run_nil (r : Reading) : r.run [] = some r := rfl

theorem Reading.run_cons {r x : Reading} {t : Token} {ts : List Token} :
    r.run (t :: ts) = some x ↔ ∃ r', r.step t = some r' ∧ r'.run ts = some x := by
  rw [Reading.run, List.foldlM_cons]
  exact Option.bind_eq_some_iff

theorem Reading.run_append {r x : Reading} {ts us : List Token} :
    r.run (ts ++ us) = some x ↔ ∃ r', r.run ts = some r' ∧ r'.run us = some x := by
  rw [Reading.run, List.foldlM_append]
  exact Option.bind_eq_some_iff

theorem Reading.Named.run {r x : Reading} {ts : List Token} (h : r.Named) (hr : r.run ts = some x) :
    x.Named := by
  induction ts generalizing r with
  | nil =>
    cases hr
    exact h
  | cons t ts ih =>
    obtain ⟨r', hs, hr⟩ := Reading.run_cons.mp hr
    exact ih (h.step hs) hr

end Names

section Inside

variable {outside : List Outside} {names : List String}

/-- The same reading with more groups open around it and more names used before. -/
def Reading.within (r : Reading) (outside : List Outside) (names : List String) : Reading :=
  { r with outside := r.outside ++ outside, names := r.names ++ names }

/-- A token that can be read is read the same inside other groups, unless a name is used there. -/
theorem Reading.step_within {r r' x : Reading} {t : Token} (h : r.step t = some r')
    (hx : (r.within outside names).step t = some x) :
    x = r'.within outside names ∧ ∀ n ∈ r'.names, n ∈ r.names ∨ n ∉ names := by
  cases t with
  | atom a =>
    cases h
    cases hx
    exact ⟨rfl, fun n hn => .inl hn⟩
  | bar =>
    cases h
    cases hx
    exact ⟨rfl, fun n hn => .inl hn⟩
  | switch edits =>
    cases h
    cases hx
    exact ⟨rfl, fun n hn => .inl hn⟩
  | enter name edits =>
    simp only [Reading.step] at h hx
    split at h
    · cases h
    · split at hx
      · cases hx
      · rename_i hnew
        cases h
        cases hx
        refine ⟨by simp [Reading.within], ?_⟩
        intro n hn
        rcases List.mem_append.mp hn with hn | hn
        · refine .inr fun hmem => hnew ?_
          rw [Option.mem_toList.mp hn]
          simp [Reading.within, hmem]
        · exact .inl hn
  | leave =>
    simp only [Reading.step] at h hx
    split at h
    · cases h
    · rename_i o rest heq
      cases h
      simp only [Reading.within, heq, List.cons_append] at hx
      cases hx
      exact ⟨rfl, fun n hn => .inl hn⟩
  | quantity min max greedy =>
    simp only [Reading.step, Reading.within] at h hx
    split at h
    · rename_i p items heq
      simp only [heq] at hx
      cases h
      cases hx
      exact ⟨rfl, fun n hn => .inl hn⟩
    · cases h

theorem Reading.run_within {r r' x : Reading} {ts : List Token} (h : r.run ts = some r')
    (hx : (r.within outside names).run ts = some x) :
    x = r'.within outside names ∧ ∀ n ∈ r'.names, n ∈ r.names ∨ n ∉ names := by
  induction ts generalizing r with
  | nil =>
    cases h
    cases hx
    exact ⟨rfl, fun n hn => .inl hn⟩
  | cons t ts ih =>
    obtain ⟨q, hq, h⟩ := Reading.run_cons.mp h
    obtain ⟨y, hy, hx⟩ := Reading.run_cons.mp hx
    obtain ⟨rfl, hnames⟩ := Reading.step_within hq hy
    obtain ⟨rfl, hnames'⟩ := ih h hx
    refine ⟨rfl, fun n hn => ?_⟩
    rcases hnames' n hn with hn | hn
    · exact hnames n hn
    · exact .inr hn

end Inside

section Flat

theorem exists_run_of_ofTokens? {ts : List Token} {e : Pattern} (h : ofTokens? ts = some e) :
    ∃ r, Reading.initial.run ts = some r ∧ r.outside = [] ∧ r.inner.expr = e := by
  obtain ⟨r, hr, hf⟩ := Option.bind_eq_some_iff.mp h
  unfold Reading.finish? at hf
  split at hf
  · rename_i hend
    exact ⟨r, hr, by simpa using hend.1, Option.some_inj.mp hf⟩
  · cases hf

/-- Outside all groups, with these parts read in one alternative. No two parts have a group name in common. -/
structure Reading.Flat (r : Reading) (es : List Pattern) : Prop where
  outside : r.outside = []
  alternatives : r.alternatives = []
  flags : r.flags = .initial
  items : ∃ ps : List Part, r.items = (ps.map some).reverse ∧ ps.map (·.expr) = es
  named : ∀ e ∈ es, ∀ n ∈ e.groups, n ∈ r.names
  disjoint : es.Pairwise fun e f => ∀ n ∈ e.groups, n ∉ f.groups

namespace Reading.Flat

variable {r x : Reading} {es : List Pattern} {ts us : List Token}

theorem initial : Reading.initial.Flat [] :=
  ⟨rfl, rfl, rfl, ⟨[], rfl, rfl⟩, nofun, .nil⟩

theorem snoc {p : Part} {names : List String} (h : r.Flat es) (hold : ∀ n ∈ r.names, n ∈ names)
    (hp : ∀ n ∈ p.expr.groups, n ∈ names ∧ n ∉ r.names) :
    Reading.Flat { r with items := some p :: r.items, names } (es ++ [p.expr]) := by
  obtain ⟨ps, hps, rfl⟩ := h.items
  refine ⟨h.outside, h.alternatives, h.flags, ⟨ps ++ [p], by simp [hps], by simp⟩, ?_, ?_⟩
  · intro e he n hn
    rcases List.mem_append.mp he with he | he
    · exact hold n (h.named e he n hn)
    · obtain rfl := List.mem_singleton.mp he
      exact (hp n hn).1
  · refine List.pairwise_append.mpr ⟨h.disjoint, List.pairwise_singleton .., ?_⟩
    intro e he f hf n hn hm
    obtain rfl := List.mem_singleton.mp hf
    exact (hp n hm).2 (h.named e he n hn)

theorem atom {a : Atom} (h : r.Flat es) (hx : r.run (.atom a :: ts) = some x) :
    ∃ r' : Reading, r'.Flat (es ++ [(a.part .initial).expr]) ∧ r'.run ts = some x := by
  obtain ⟨r', hs, hx⟩ := Reading.run_cons.mp hx
  cases hs
  have hflat := h.snoc (p := a.part r.flags) (fun _ hn => hn) (by simp [Atom.groups_part])
  rw [h.flags] at hflat hx
  exact ⟨_, hflat, hx⟩

theorem atoms {as : List Atom} (h : r.Flat es) (hx : r.run (as.map .atom ++ ts) = some x) :
    ∃ r' : Reading, r'.Flat (es ++ as.map fun a => (a.part .initial).expr) ∧ r'.run ts = some x := by
  induction as generalizing r es with
  | nil => exact ⟨r, by simpa using h, hx⟩
  | cons a as ih =>
    obtain ⟨r', hr', hx⟩ := h.atom hx
    obtain ⟨r'', hr'', hx⟩ := ih hr' hx
    exact ⟨r'', by simpa using hr'', hx⟩

theorem repeated {a : Atom} {min : Nat} {max : Option Nat} {greedy : Bool} (h : r.Flat es)
    (hx : r.run (.atom a :: .quantity min max greedy :: ts) = some x) :
    ∃ r' : Reading, r'.Flat (es ++ [copies (a.part .initial).expr min max greedy]) ∧ r'.run ts = some x := by
  obtain ⟨r₁, hs, hx⟩ := Reading.run_cons.mp hx
  cases hs
  obtain ⟨r₂, hs, hx⟩ := Reading.run_cons.mp hx
  cases hs
  let p : Part := ⟨copies (a.part r.flags).expr min max (greedy != r.flags.swapGreed),
    (a.part r.flags).depth + 1⟩
  have hflat : Reading.Flat { r with items := some p :: r.items, names := r.names } (es ++ [p.expr]) :=
    h.snoc (fun _ hn => hn) fun n hn => by
      have hnil := mem_groups_copies.mp hn
      simp [Atom.groups_part] at hnil
  have hflags : p.expr = copies (a.part .initial).expr min max greedy := by
    simp [p, h.flags, Flags.initial]
  exact ⟨_, hflags ▸ hflat, hx⟩

theorem group {q : Reading} {name : Option String} (h : r.Flat es)
    (hq : Reading.initial.run ts = some q) (hout : q.outside = [])
    (hx : r.run (.enter name [] :: (ts ++ .leave :: us)) = some x) :
    ∃ r' : Reading, r'.Flat (es ++ [(Regex.group name q.inner).expr]) ∧ r'.run us = some x := by
  obtain ⟨r₁, hs, hx⟩ := Reading.run_cons.mp hx
  simp only [Reading.step] at hs
  split at hs
  · cases hs
  · rename_i hnew
    cases hs
    obtain ⟨r₂, hrun, hx⟩ := Reading.run_append.mp hx
    have hinside : (⟨⟨name, r.flags, r.alternatives, r.items⟩ :: r.outside, [], [], r.flags.edit [],
        name.toList ++ r.names⟩ : Reading) =
          Reading.initial.within (⟨name, r.flags, r.alternatives, r.items⟩ :: r.outside)
            (name.toList ++ r.names) := by
      simp [Reading.within, Reading.initial, Flags.edit, h.flags]
    rw [hinside] at hrun
    obtain ⟨rfl, hnames⟩ := Reading.run_within hq hrun
    obtain ⟨r₃, hs, hx⟩ := Reading.run_cons.mp hx
    simp only [Reading.step, Reading.within, hout, List.nil_append] at hs
    cases hs
    refine ⟨_, h.snoc ?_ ?_, hx⟩
    · intro n hn
      simp [hn]
    · intro n hn
      have hinner : ∀ n ∈ q.inner.expr.groups, n ∈ q.names ∧ n ∉ name.toList ++ r.names := by
        intro n hn
        have hmem := (Reading.named_initial.run hq).inner n hn
        exact ⟨hmem, (hnames n hmem).resolve_left List.not_mem_nil⟩
      cases name with
      | none =>
        obtain ⟨hmem, hold⟩ := hinner n hn
        exact ⟨List.mem_append_left _ hmem, by simpa using hold⟩
      | some m =>
        rcases List.mem_cons.mp hn with rfl | hn
        · exact ⟨by simp, by simpa using hnew⟩
        · obtain ⟨hmem, hold⟩ := hinner n hn
          exact ⟨List.mem_append_left _ hmem, fun h => hold (List.mem_append_right _ h)⟩

theorem finish {e : Pattern} (h : r.Flat es) (hf : r.finish? = some e) : e = concat es := by
  obtain ⟨ps, hps, rfl⟩ := h.items
  unfold Reading.finish? at hf
  split at hf
  · cases hf
    simp [Reading.inner, h.alternatives, joinAlternatives, Items.part, hps, List.filterMap_map]
  · cases hf

end Reading.Flat

end Flat

section Spells

def charPart (c : Char) : Pattern := .one (.single c)

/-- The text is read as these parts one after the other, whatever stands before and behind it. -/
def Spells (s : List Char) (es : List Pattern) : Prop :=
  ∃ ts : List Token, (∀ t us, Tokenizes t us → Tokenizes (s ++ t) (ts ++ us)) ∧
    ∀ (r x : Reading) (fs : List Pattern) (us : List Token), r.Flat fs → r.run (ts ++ us) = some x →
      ∃ r' : Reading, r'.Flat (fs ++ es) ∧ r'.run us = some x

namespace Spells

variable {s t : List Char} {es fs : List Pattern} {e : Pattern}

theorem nil : Spells [] [] :=
  ⟨[], fun _ _ h => h, fun r _ _ _ h hx => ⟨r, by simpa using h, hx⟩⟩

theorem append (hs : Spells s es) (ht : Spells t fs) : Spells (s ++ t) (es ++ fs) := by
  obtain ⟨ts, htok, hread⟩ := hs
  obtain ⟨us, htok', hread'⟩ := ht
  refine ⟨ts ++ us, ?_, ?_⟩
  · intro v vs hv
    rw [List.append_assoc, List.append_assoc]
    exact htok _ _ (htok' _ _ hv)
  · intro r x gs vs hr hx
    rw [List.append_assoc] at hx
    obtain ⟨r₁, hr₁, hx⟩ := hread r x gs _ hr hx
    obtain ⟨r₂, hr₂, hx⟩ := hread' r₁ x _ vs hr₁ hx
    exact ⟨r₂, by simpa using hr₂, hx⟩

theorem char {c : Char} {a : Atom} (h : ∀ t, readToken c t = some (.atom a, t)) :
    Spells [c] [(a.part .initial).expr] :=
  ⟨[.atom a], fun t _ ht => .cons (h t) ht, fun _ _ _ _ hr hx => hr.atom hx⟩

theorem literal (w : List Char) : Spells (Regex.literal w) (w.map charPart) := by
  refine ⟨w.map (fun c => .atom (.char c)), fun _ _ ht => ht.literal w, ?_⟩
  intro r x fs us hr hx
  have hatoms : w.map (fun c => Token.atom (.char c)) = (w.map Atom.char).map .atom := by simp
  rw [hatoms] at hx
  have hparts : w.map charPart = (w.map Atom.char).map fun a => (a.part .initial).expr := by
    rw [List.map_map]
    rfl
  rw [hparts]
  exact hr.atoms hx

theorem group {p : List Char} {opening : List Char} {name : Option String} (hp : read? p = some e)
    (h : ∀ t, readGroup (opening ++ t) = some (.enter name [], t)) :
    Spells ('(' :: opening ++ p ++ [')']) [(Regex.group name ⟨e, 0⟩).expr] := by
  obtain ⟨ts, hts, he⟩ := Option.bind_eq_some_iff.mp hp
  obtain ⟨q, hq, hout, rfl⟩ := exists_run_of_ofTokens? he
  refine ⟨.enter name [] :: (ts ++ [.leave]), ?_, ?_⟩
  · intro t _ ht
    have hclose := Tokenizes.cons (c := ')') (x := .leave) rfl ht
    have htext : '(' :: opening ++ p ++ [')'] ++ t = '(' :: (opening ++ (p ++ closed t)) := by simp
    have hread : readToken '(' (opening ++ (p ++ closed t)) = some (.enter name [], p ++ closed t) := h _
    rw [htext, List.cons_append, List.append_assoc]
    exact .cons hread (.append (.of_tokens hts) hclose)
  · intro r x fs us hr hx
    rw [List.cons_append, List.append_assoc] at hx
    obtain ⟨r', hr', hx⟩ := hr.group hq hout hx
    refine ⟨r', ?_, hx⟩
    cases name <;> exact hr'

theorem unnamed {p : List Char} (hp : read? p = some e) : Spells ("(?:".toList ++ p ++ [')']) [e] := by
  have hread : ∀ t, readGroup (['?', ':'] ++ t) = some (.enter none [], t) := fun _ => rfl
  exact group hp hread

theorem not_mem_of_isGroupName {name : List Char} (h : isGroupName name = true) : '>' ∉ name := by
  have hangle : Text.isWord '>' = false := by decide +kernel
  cases name with
  | nil => exact List.not_mem_nil
  | cons c cs =>
    simp only [isGroupName, Bool.and_eq_true, List.all_eq_true] at h
    intro hm
    rcases List.mem_cons.mp hm with rfl | hm
    · simp [hangle] at h
    · have hc := h.2 '>' hm
      simp [hangle] at hc

theorem readGroup_named {name : String} (hn : isGroupName name.toList = true) (t : List Char) :
    readGroup ('?' :: 'P' :: '<' :: (name.toList ++ '>' :: t)) = some (.enter (some name) [], t) := by
  have hall : ∀ c ∈ name.toList, (c != '>') = true := by
    intro c hc
    have hne : c ≠ '>' := fun h => not_mem_of_isGroupName hn (h ▸ hc)
    simpa using hne
  rw [readGroup, readName, List.dropWhile_append_of_pos hall, List.takeWhile_append_of_pos hall]
  simp [hn]

theorem named {p : List Char} {name : String} (hp : read? p = some e)
    (hn : isGroupName name.toList = true) :
    Spells ("(?P<".toList ++ name.toList ++ '>' :: p ++ [')']) [capture name e] := by
  have hread : ∀ t, readGroup (('?' :: 'P' :: '<' :: name.toList ++ ['>']) ++ t) =
      some (.enter (some name) [], t) := by
    intro t
    simpa using readGroup_named hn t
  have htext : "(?P<".toList ++ name.toList ++ '>' :: p ++ [')'] =
      '(' :: ('?' :: 'P' :: '<' :: name.toList ++ ['>']) ++ p ++ [')'] := by simp
  rw [htext]
  exact group hp hread

end Spells

theorem isWord_of_isDigit {c : Char} (h : c.isDigit = true) : Text.isWord c = true := by
  have hc : 48 ≤ c.toNat ∧ c.toNat ≤ 57 := by
    simp only [Char.isDigit, Bool.and_eq_true, decide_eq_true_eq] at h
    exact ⟨UInt32.le_iff_toNat_le.mp h.1, UInt32.le_iff_toNat_le.mp h.2⟩
  have hranges : Text.wordRanges = (0x30, 0x39) :: Text.wordRanges.tail := rfl
  rw [Text.isWord, hranges, Text.inRanges, if_neg (by omega), if_pos hc.2]

theorem isGroupName_index (n : Nat) : isGroupName ("v" ++ toString n).toList = true := by
  have hv : Text.isWord 'v' = true ∧ Text.isDigit 'v' = false := by decide +kernel
  have hdigits : (toString n).toList.all (fun c => c == '.' || c == '[' || c == ']' || Text.isWord c) =
      true := by
    rw [List.all_eq_true]
    intro c hc
    rw [Nat.toString_eq_repr, Nat.toList_repr] at hc
    have hdigit := Nat.isDigit_of_mem_toDigits (by decide) (by decide) hc
    simp [isWord_of_isDigit hdigit]
  have htext : ("v" ++ toString n).toList = 'v' :: (toString n).toList := by
    rw [String.toList_append]
    rfl
  rw [htext, isGroupName, hdigits, hv.1, hv.2]
  rfl

theorem eq_concat_of_read? {s : List Char} {es : List Pattern} {e : Pattern} (hs : Spells s es)
    (h : read? s = some e) :
    e = concat es ∧ es.Pairwise fun e f => ∀ n ∈ e.groups, n ∉ f.groups := by
  obtain ⟨ts, htok, hread⟩ := hs
  obtain ⟨us, hus, he⟩ := Option.bind_eq_some_iff.mp h
  have hts : Tokenizes s ts := by simpa using htok [] [] .nil
  obtain rfl := hts.unique (.of_tokens hus)
  obtain ⟨x, hx, hf⟩ := Option.bind_eq_some_iff.mp he
  obtain ⟨r, hr, hx⟩ := hread .initial x [] [] .initial (by rw [List.append_nil]; exact hx)
  cases hx
  rw [List.nil_append] at hr
  exact ⟨hr.finish hf, hr.disjoint⟩

end Spells

end RequestRouter.Regex
