import Mathlib.Data.List.Basic
import RequestRouter.Regex.Token
/-!
Where tokens end. A reader that takes a piece from the front of a text takes the same piece whatever stands behind
it, but for the question mark behind a repetition or an opening parenthesis. So a pattern keeps its tokens before a
closing parenthesis, and where a parenthesis and the end of the text can stand a token ends whatever comes next.
-/
namespace RequestRouter.Regex

open RequestRouter.Text

/-- The reader takes these characters from the front of a text, whatever stands behind them. -/
def Takes {α : Type} (read : List Char → Option (α × List Char)) (m : List Char) (x : α) : Prop :=
  ∀ v, read (m ++ v) = some (x, v)

section While

variable {p : Char → Bool} {s rest t : List Char} {c : Char}

theorem exists_of_dropWhile (h : s.dropWhile p = c :: rest) :
    ∃ m, s = m ++ c :: rest ∧ p c = false ∧
      ∀ v, (m ++ c :: v).takeWhile p = m ∧ (m ++ c :: v).dropWhile p = c :: v := by
  have hc : p c = false := by
    have hhead := List.head?_dropWhile_not p s
    rw [h] at hhead
    simpa using hhead
  have hall : ∀ d ∈ s.takeWhile p, p d = true := List.all_eq_true.mp List.all_takeWhile
  refine ⟨s.takeWhile p, by rw [← h, List.takeWhile_append_dropWhile], hc, fun v => ⟨?_, ?_⟩⟩
  · rw [List.takeWhile_append_of_pos hall]
    simp [hc]
  · rw [List.dropWhile_append_of_pos hall]
    simp [hc]

theorem takeWhile_append_of_cons (h : s.dropWhile p = c :: rest) :
    (s ++ t).takeWhile p = s.takeWhile p := by
  obtain ⟨m, rfl, -, hm⟩ := exists_of_dropWhile h
  rw [List.append_assoc, List.cons_append, (hm _).1, (hm _).1]

theorem dropWhile_append_stop (hc : p c = false) : (s ++ c :: t).dropWhile p = s.dropWhile p ++ c :: t := by
  induction s with
  | nil => simp [hc]
  | cons d s ih => by_cases hd : p d <;> simp [hd, ih]

theorem takeWhile_append_stop (hc : p c = false) : (s ++ c :: t).takeWhile p = s.takeWhile p := by
  induction s with
  | nil => simp [hc]
  | cons d s ih => by_cases hd : p d <;> simp [hd, ih]

end While

section Escapes

variable {s r : List Char} {x : Escape}

theorem isSome_value?_of_number? {ds : List Char} {n : Nat} (h : Hex.number? ds = some n) :
    ∀ d ∈ ds, (Hex.value? d).isSome = true := by
  have hfold : ∀ (ds : List Char) (o : Option Nat),
      (ds.foldl (fun n d => n.bind fun n => (Hex.value? d).map (16 * n + ·)) o).isSome = true →
        o.isSome = true ∧ ∀ d ∈ ds, (Hex.value? d).isSome = true := by
    intro ds
    induction ds with
    | nil => exact fun o h => ⟨h, nofun⟩
    | cons d ds ih =>
      intro o h
      obtain ⟨hstep, hrest⟩ := ih _ h
      cases o with
      | none => cases hstep
      | some n =>
        have hd : (Hex.value? d).isSome = true := by simpa using hstep
        exact ⟨rfl, List.forall_mem_cons.mpr ⟨hd, hrest⟩⟩
  cases ds with
  | nil => cases h
  | cons d ds => exact (hfold _ _ (Option.isSome_of_eq_some h)).2

theorem dollar_not_mem_of_number? {ds : List Char} {n : Nat} (h : Hex.number? ds = some n) : '$' ∉ ds :=
  fun hmem => absurd (isSome_value?_of_number? h _ hmem) (by decide)

theorem take?_takes {n code : Nat} (h : Hex.take? n s = some (code, r)) :
    ∃ m, s = m ++ r ∧ m ≠ [] ∧ '$' ∉ m ∧ Takes (Hex.take? n) m code := by
  unfold Hex.take? at h
  split at h
  · cases h
  · rename_i hlen
    have hle : n ≤ s.length := Nat.le_of_not_lt hlen
    obtain ⟨k, hk, heq⟩ := Option.map_eq_some_iff.mp h
    cases heq
    have hne : s.take n ≠ [] := fun hnil => by
      rw [hnil] at hk
      cases hk
    refine ⟨s.take n, (List.take_append_drop n s).symm, hne, dollar_not_mem_of_number? hk, fun v => ?_⟩
    have hn : (s.take n).length = n := List.length_take_of_le hle
    have hlen' : ¬ (s.take n ++ v).length < n := by
      rw [List.length_append]
      omega
    rw [Hex.take?, if_neg hlen', List.take_left' hn, List.drop_left' hn, hk]
    rfl

theorem readHex_takes {n : Nat} (h : readHex n s = some (x, r)) :
    ∃ m, s = m ++ r ∧ '$' ∉ m ∧ Takes (readHex n) m x := by
  unfold readHex at h
  split at h
  · rename_i s
    simp only [Option.bind_eq_bind] at h
    split at h
    · rename_i after hdrop
      simp only [Option.bind_eq_some_iff, Option.pure_def, Option.some.injEq, Prod.mk.injEq] at h
      obtain ⟨code, hcode, ch, hch, rfl, rfl⟩ := h
      obtain ⟨m, rfl, -, hm⟩ := exists_of_dropWhile hdrop
      rw [(hm _).1] at hcode
      refine ⟨'{' :: (m ++ ['}']), by simp, ?_, fun v => ?_⟩
      · have hdollar := dollar_not_mem_of_number? hcode
        simp [hdollar]
      · rw [List.cons_append, List.append_assoc, List.singleton_append, readHex, (hm v).1, (hm v).2]
        simp [hcode, hch]
    · cases h
  · rename_i hbrace
    simp only [Option.bind_eq_bind, Option.bind_eq_some_iff, Option.pure_def, Option.some.injEq,
      Prod.mk.injEq, Prod.exists] at h
    obtain ⟨code, after, htake, ch, hch, rfl, rfl⟩ := h
    obtain ⟨m, rfl, hne, hdollar, hm⟩ := take?_takes htake
    refine ⟨m, rfl, hdollar, fun v => ?_⟩
    obtain ⟨c, m, rfl⟩ := List.exists_cons_of_ne_nil hne
    have hc : c ≠ '{' := fun hc => hbrace (m ++ after) (by rw [hc]; rfl)
    unfold readHex
    split
    · rename_i t heq
      exact absurd (List.cons_eq_cons.mp heq).1 hc
    · rw [hm v]
      simp [hch]

theorem readEscape_takes (h : readEscape s = some (x, r)) :
    ∃ m, s = m ++ r ∧ m ≠ [] ∧ (m.getLast? = some '$' → m = ['$']) ∧ Takes readEscape m x := by
  have hhex : ∀ {c : Char} {n : Nat} {s : List Char}, (∀ t, readEscape (c :: t) = readHex n t) → c ≠ '$' →
      readHex n s = some (x, r) → ∃ m, c :: s = m ++ r ∧ m ≠ [] ∧ (m.getLast? = some '$' → m = ['$']) ∧
        Takes readEscape m x := by
    intro c n s hread hc h
    obtain ⟨m, rfl, hdollar, hm⟩ := readHex_takes h
    refine ⟨c :: m, rfl, List.cons_ne_nil _ _, fun hlast => ?_, fun v => (hread _).trans (hm v)⟩
    rcases List.mem_cons.mp (List.mem_of_getLast? hlast) with heq | hmem
    · exact absurd heq.symm hc
    · exact absurd hmem hdollar
  unfold readEscape at h
  split at h
  case h_1 => cases h
  case h_2 s => exact hhex (fun _ => rfl) (by decide) h
  case h_3 s => exact hhex (fun _ => rfl) (by decide) h
  case h_4 s => exact hhex (fun _ => rfl) (by decide) h
  case h_23 c s _ _ _ _ _ _ _ _ _ _ _ _ _ _ _ _ _ _ _ _ _ =>
    split at h
    · rename_i hesc
      cases h
      refine ⟨[c], rfl, List.cons_ne_nil _ _, fun hlast => ?_, fun v => ?_⟩
      · rw [Option.some.inj (show some c = some '$' from hlast)]
      · simp_all [readEscape]
    · cases h
  all_goals
    cases h
    exact ⟨[_], rfl, List.cons_ne_nil _ _, by decide, fun _ => rfl⟩

theorem readMember_takes (h : readMember s = some (x, r)) :
    ∃ m, s = m ++ r ∧ m ≠ [] ∧ Takes readMember m x := by
  match s with
  | [] => cases h
  | c :: s =>
    by_cases hc : c = '\\'
    · subst hc
      obtain ⟨m, rfl, -, -, hm⟩ := readEscape_takes (show readEscape s = some (x, r) from h)
      exact ⟨'\\' :: m, rfl, List.cons_ne_nil _ _, hm⟩
    · have hread : ∀ t, readMember (c :: t) = some (.char c, t) := fun t => by simp [readMember]
      rw [hread] at h
      cases h
      exact ⟨[c], rfl, List.cons_ne_nil _ _, hread⟩

end Escapes

section Classes

variable {s r : List Char}

theorem asciiClass?_eq_none {name : List Char} {c : Char} (hc : c.isLower = false) (h : c ∈ name) :
    asciiClass? (String.ofList name) = none := by
  have hne : ∀ t : String, t.toList.all Char.isLower = true → String.ofList name ≠ t := by
    rintro t ht rfl
    rw [String.toList_ofList, List.all_eq_true] at ht
    exact absurd ((ht c h).symm.trans hc) (by decide)
  unfold asciiClass?
  split
  case h_15 => rfl
  all_goals
    rename_i heq
    exact absurd heq (hne _ (by decide))

def readNamedRest (negated : Bool) (s : List Char) : Option (Class × List Char) :=
  match s.dropWhile (· != ':') with
  | ':' :: ']' :: after =>
    (asciiClass? (String.ofList (s.takeWhile (· != ':')))).map fun rs => (.named negated rs, after)
  | _ => none

theorem readNamed_colon (s : List Char) :
    readNamed (':' :: s) =
      readNamedRest (s.head? = some '^') (if s.head? = some '^' then s.tail else s) := by
  by_cases h : s.head? = some '^'
  · simp only [readNamed, h, if_true, decide_true]
    rfl
  · simp only [readNamed, h, if_false, decide_false]
    rfl

theorem readNamedRest_takes {negated : Bool} {x : Class} (h : readNamedRest negated s = some (x, r)) :
    ∃ m, s = m ++ ']' :: r ∧ m ≠ [] ∧ ']' ∉ m ∧ ∀ v, readNamedRest negated (m ++ ']' :: v) = some (x, v) := by
  unfold readNamedRest at h
  split at h
  · rename_i after hdrop
    obtain ⟨rs, hrs, heq⟩ := Option.map_eq_some_iff.mp h
    cases heq
    obtain ⟨m, rfl, -, hm⟩ := exists_of_dropWhile hdrop
    rw [(hm _).1] at hrs
    have hbracket : ']' ∉ m := by
      intro hmem
      rw [asciiClass?_eq_none (by decide) hmem] at hrs
      cases hrs
    refine ⟨m ++ [':'], by simp, by simp, by simp [hbracket], fun v => ?_⟩
    rw [List.append_assoc, List.singleton_append, readNamedRest, (hm _).1, (hm _).2]
    simp [hrs]
  · cases h

theorem readNamed_takes {x : Class} (h : readNamed s = some (x, r)) :
    ∃ m, s = m ++ ']' :: r ∧ ']' ∉ m ∧ ∀ v, readNamed (m ++ ']' :: v) = some (x, v) := by
  match s with
  | [] => cases h
  | c :: s =>
    by_cases hc : c = ':'
    · subst hc
      rw [readNamed_colon] at h
      by_cases hcaret : s.head? = some '^'
      · obtain ⟨s, rfl⟩ : ∃ t, s = '^' :: t := by
          cases s with
          | nil => cases hcaret
          | cons d s => exact ⟨s, by rw [Option.some.inj hcaret]⟩
        obtain ⟨m, hs, -, hbracket, hm⟩ := readNamedRest_takes h
        exact ⟨':' :: '^' :: m, by simp at hs; simp [hs], by simp [hbracket], hm⟩
      · rw [if_neg hcaret, decide_eq_false hcaret] at h
        obtain ⟨m, rfl, hne, hbracket, hm⟩ := readNamedRest_takes h
        refine ⟨':' :: m, rfl, by simp [hbracket], fun v => ?_⟩
        rw [List.head?_append_of_ne_nil _ hne] at hcaret
        rw [List.cons_append, readNamed_colon, List.head?_append_of_ne_nil _ hne, if_neg hcaret,
          decide_eq_false hcaret, hm]
    · simp [readNamed, hc] at h

theorem readNamed_eq_none {m : List Char} (h : readNamed (m ++ ']' :: r) = none) (v : List Char) :
    readNamed (m ++ ']' :: v) = none := by
  rw [Option.eq_none_iff_forall_ne_some]
  rintro ⟨x, after⟩ hread
  obtain ⟨w, hw, hbracket, htakes⟩ := readNamed_takes hread
  have hprefix : ∃ z, m ++ ']' :: r = w ++ ']' :: z := by
    rcases List.append_eq_append_iff.mp hw with ⟨_ | ⟨d, z⟩, rfl, hz⟩ | ⟨_ | ⟨d, z⟩, rfl, hz⟩
    · exact ⟨r, by simp⟩
    · obtain ⟨rfl, -⟩ := List.cons_eq_cons.mp hz
      exact absurd (by simp) hbracket
    · exact ⟨r, by simp⟩
    · obtain ⟨rfl, -⟩ := List.cons_eq_cons.mp hz
      exact ⟨z ++ ']' :: r, by simp⟩
  obtain ⟨z, hz⟩ := hprefix
  rw [hz, htakes] at h
  cases h

/-- What a class begins with: hyphens or, failing those, a closing bracket that stands for itself. -/
def leading : List Char → List Char → Class × List Char
  | [], ']' :: rest => (.range ']' ']', rest)
  | [], s => (.nothing, s)
  | _, s => (.range '-' '-', s)

theorem leading_nil {c : Char} (hc : c ≠ ']') (s : List Char) : leading [] (c :: s) = (.nothing, c :: s) := by
  rw [leading]
  exact fun _ h => hc (List.cons_eq_cons.mp h).1

def readLeading (s : List Char) : Class × List Char :=
  leading (s.takeWhile (· == '-')) (s.dropWhile (· == '-'))

theorem readOpening_eq (s : List Char) :
    readOpening s =
      (decide (s.head? = some '^'), readLeading (if s.head? = some '^' then s.tail else s)) := by
  have hmatch (negated : Bool) (hyphens t : List Char) :
      (match hyphens, t with
        | [], ']' :: rest => (negated, Class.range ']' ']', rest)
        | [], _ => (negated, .nothing, t)
        | _, _ => (negated, .range '-' '-', t)) = (negated, leading hyphens t) := by
    match hyphens, t with
    | [], [] => rfl
    | [], c :: t =>
      by_cases hc : c = ']'
      · subst hc
        rfl
      · rw [leading_nil hc]
        simp [hc]
    | _ :: _, _ => rfl
  unfold readOpening readLeading
  by_cases hcaret : s.head? = some '^'
  · simp only [hcaret, decide_true, if_true]
    exact hmatch true _ _
  · simp only [hcaret, decide_false, if_false]
    exact hmatch false _ _

theorem readLeading_takes {x : Class} {c : Char} (h : readLeading s = (x, c :: r)) :
    ∃ m, s = m ++ c :: r ∧ ∀ v, readLeading (m ++ c :: v) = (x, c :: v) := by
  unfold readLeading at h
  cases hdrop : s.dropWhile (· == '-') with
  | nil =>
    rw [hdrop] at h
    cases htake : s.takeWhile (· == '-') <;> rw [htake] at h <;> cases h
  | cons d rest =>
    obtain ⟨hyphens, rfl, hd, hread⟩ := exists_of_dropWhile hdrop
    rw [(hread _).1, (hread _).2] at h
    have hsame (v : List Char) : readLeading (hyphens ++ d :: v) = leading hyphens (d :: v) := by
      rw [readLeading, (hread _).1, (hread _).2]
    cases hyphens with
    | nil =>
      by_cases hbracket : d = ']'
      · subst hbracket
        cases h
        exact ⟨[']'], rfl, fun v => hsame _⟩
      · rw [leading_nil hbracket] at h
        cases h
        exact ⟨[], rfl, fun v => (hsame v).trans (leading_nil hbracket v)⟩
    | cons e hyphens =>
      cases h
      exact ⟨e :: hyphens, rfl, hsame⟩

theorem readOpening_takes {negated : Bool} {x : Class} {c : Char} (h : readOpening s = (negated, x, c :: r)) :
    ∃ m, s = m ++ c :: r ∧ ∀ v, readOpening (m ++ c :: v) = (negated, x, c :: v) := by
  rw [readOpening_eq] at h
  obtain ⟨hnegated, h⟩ := Prod.mk.inj h
  by_cases hcaret : s.head? = some '^'
  · obtain ⟨s, rfl⟩ : ∃ t, s = '^' :: t := by
      cases s with
      | nil => cases hcaret
      | cons d s => exact ⟨s, by rw [Option.some.inj hcaret]⟩
    obtain ⟨m, hs, hm⟩ := readLeading_takes h
    refine ⟨'^' :: m, by simp at hs; simp [hs], fun v => ?_⟩
    have hv := hm v
    rw [readOpening_eq, ← hnegated]
    simp [hv]
  · rw [if_neg hcaret] at h
    obtain ⟨m, rfl, hm⟩ := readLeading_takes h
    refine ⟨m, rfl, fun v => ?_⟩
    have hhead : (m ++ c :: v).head? = (m ++ c :: r).head? := by cases m <;> rfl
    rw [readOpening_eq, hhead, if_neg hcaret, hm, ← hnegated]

/-- A member as a class of its own; a condition is none. -/
def Escape.class? : Escape → Option Class
  | .char c => some (.range c c)
  | .set t => some (.set t)
  | .look _ => none

def Escape.range? : Escape → Escape → Option Class
  | .char lo, .char hi => if lo ≤ hi then some (.range lo hi) else none
  | _, _ => none

def readRange (first : Escape) (after : List Char) : Option (Class × List Char) :=
  if after.head? = some ']' ∨ after.head? = some '-' then first.class?.map (·, '-' :: after)
  else (readMember after).bind fun r => (first.range? r.1).map (·, r.2)

def readItemFrom (first : Escape) : List Char → Option (Class × List Char)
  | [] => none
  | c :: after => if c = '-' then readRange first after else first.class?.map (·, c :: after)

theorem readItem_eq (s : List Char) :
    readItem s = (readMember s).bind fun r => readItemFrom r.1 r.2 := by
  unfold readItem
  cases readMember s with
  | none => rfl
  | some r =>
    obtain ⟨first, rest⟩ := r
    match rest with
    | [] => rfl
    | c :: after =>
      by_cases hc : c = '-'
      · subst hc
        by_cases hstop : after.head? = some ']' ∨ after.head? = some '-'
        · cases first <;> simp [readItemFrom, readRange, hstop, Escape.class?]
        · cases hmember : readMember after with
          | none => simp [readItemFrom, readRange, hstop, hmember]
          | some r =>
            obtain ⟨last, rest⟩ := r
            cases first <;> cases last <;> simp [readItemFrom, readRange, hstop, hmember, Escape.range?]
      · cases first <;> simp [readItemFrom, hc, Escape.class?]

/-- The texts begin alike, as far as a member of a class looks: with the same character, and behind a hyphen with the
same one again. -/
def SameStart (s t : List Char) : Prop := s.head? = t.head? ∧ (s.head? = some '-' → s.tail.head? = t.tail.head?)

theorem readItem_takes {x : Class} (h : readItem s = some (x, r)) :
    ∃ m, s = m ++ r ∧ m ≠ [] ∧ ∀ v, SameStart r v → readItem (m ++ v) = some (x, v) := by
  obtain ⟨⟨first, t⟩, hfirst, hitem⟩ := Option.bind_eq_some_iff.mp ((readItem_eq s).symm.trans h)
  obtain ⟨m, rfl, hne, hm⟩ := readMember_takes hfirst
  have hread (v : List Char) : readItem (m ++ v) = readItemFrom first v := by
    rw [readItem_eq, hm v]
    rfl
  cases t with
  | nil => cases hitem
  | cons c t =>
    rw [readItemFrom] at hitem
    split at hitem
    · rename_i hc
      subst hc
      rw [readRange] at hitem
      split at hitem
      · rename_i hstop
        obtain ⟨k, hk, heq⟩ := Option.map_eq_some_iff.mp hitem
        cases heq
        refine ⟨m, rfl, hne, fun v hv => ?_⟩
        obtain ⟨hhead, hnext⟩ := hv
        match v with
        | [] => cases hhead
        | d :: v =>
          obtain rfl := Option.some.inj hhead
          have hstop' : v.head? = some ']' ∨ v.head? = some '-' := hnext rfl ▸ hstop
          rw [hread, readItemFrom, if_pos rfl, readRange, if_pos hstop', hk]
          rfl
      · rename_i hstop
        obtain ⟨⟨last, rest⟩, hlast, hrange⟩ := Option.bind_eq_some_iff.mp hitem
        obtain ⟨k, hk, heq⟩ := Option.map_eq_some_iff.mp hrange
        cases heq
        obtain ⟨w, rfl, hw, htakes⟩ := readMember_takes hlast
        refine ⟨m ++ '-' :: w, by simp, by simp, fun v _ => ?_⟩
        rw [List.head?_append_of_ne_nil _ hw] at hstop
        rw [List.append_assoc, List.cons_append, hread, readItemFrom, if_pos rfl, readRange,
          List.head?_append_of_ne_nil _ hw, if_neg hstop, htakes v, Option.bind_some, hk]
        rfl
    · rename_i hc
      obtain ⟨k, hk, heq⟩ := Option.map_eq_some_iff.mp hitem
      cases heq
      refine ⟨m, rfl, hne, fun v hv => ?_⟩
      match v with
      | [] => cases hv.1
      | d :: v =>
        obtain rfl := Option.some.inj hv.1
        rw [hread, readItemFrom, if_neg hc, hk]
        rfl

theorem head?_append_cons (m : List Char) (c : Char) (r v : List Char) : (m ++ c :: r).head? = (m ++ c :: v).head? := by
  cases m <;> rfl

theorem sameStart_append (m : List Char) {c : Char} (hc : c ≠ '-') (r v : List Char) :
    SameStart (m ++ c :: r) (m ++ c :: v) := by
  match m with
  | [] => exact ⟨rfl, fun h => absurd (Option.some.inj h) hc⟩
  | [d] => exact ⟨rfl, fun _ => rfl⟩
  | d :: e :: m => exact ⟨rfl, fun _ => rfl⟩

theorem readOpening_close {negated : Bool} {x : Class} {m : List Char}
    (h : readOpening s = (negated, x, m ++ ']' :: r)) :
    ∃ k, s = k ++ (m ++ ']' :: r) ∧ ∀ v, readOpening (k ++ (m ++ ']' :: v)) = (negated, x, m ++ ']' :: v) := by
  cases m with
  | nil => exact readOpening_takes h
  | cons d m =>
    obtain ⟨k, hs, hk⟩ := readOpening_takes h
    exact ⟨k, hs, fun v => hk (m ++ ']' :: v)⟩

theorem readMembers_takes {fuel : Nat} {waiting : Option (SetOp × Class)} {members c : Class}
    (h : readMembers fuel waiting members s = some (c, r)) :
    ∃ m, s = m ++ ']' :: r ∧
      ∀ fuel v, m.length < fuel → readMembers fuel waiting members (m ++ ']' :: v) = some (c, v) := by
  have hfuel : ∀ {n fuel : Nat}, n < fuel → ∃ k, fuel = k + 1 ∧ n ≤ k :=
    fun {n fuel} h => ⟨fuel - 1, by omega, by omega⟩
  fun_induction readMembers fuel waiting members s generalizing c r with
  | case1 => cases h
  | case2 => cases h
  | case3 fuel waiting members s =>
    cases h
    refine ⟨[], rfl, fun fuel v hlt => ?_⟩
    obtain ⟨fuel, rfl, -⟩ := hfuel hlt
    rfl
  | case4 fuel waiting members s t s' hnamed ih =>
    obtain ⟨w, rfl, -, htakes⟩ := readNamed_takes hnamed
    obtain ⟨m, rfl, hm⟩ := ih h
    refine ⟨'[' :: (w ++ ']' :: m), by simp, fun fuel v hlt => ?_⟩
    obtain ⟨fuel, rfl, hle⟩ := hfuel hlt
    rw [List.cons_append, List.append_assoc, List.cons_append, readMembers, htakes]
    simp only [List.length_cons, List.length_append] at hle
    exact hm fuel v (by omega)
  | case5 fuel waiting members s hnamed negated first s' hopening inner s'' hinner ihinner ih =>
    obtain ⟨m₁, rfl, hm₁⟩ := ihinner hinner
    obtain ⟨m₂, rfl, hm₂⟩ := ih h
    obtain ⟨m, rfl, hm⟩ := readOpening_close hopening
    rw [← List.append_assoc] at hnamed
    refine ⟨'[' :: (m ++ (m₁ ++ ']' :: m₂)), by simp, fun fuel v hlt => ?_⟩
    obtain ⟨fuel, rfl, hle⟩ := hfuel hlt
    simp only [List.length_cons, List.length_append] at hle
    have htext : m ++ (m₁ ++ ']' :: m₂) ++ ']' :: v = m ++ m₁ ++ ']' :: (m₂ ++ ']' :: v) := by simp
    rw [List.cons_append, htext, readMembers, readNamed_eq_none hnamed, List.append_assoc, hm]
    simp only [hm₁ fuel _ (show m₁.length < fuel by omega)]
    exact hm₂ fuel v (by omega)
  | case6 => cases h
  | case7 fuel waiting members s ih | case8 fuel waiting members s ih | case9 fuel waiting members s ih =>
    obtain ⟨m, rfl, hm⟩ := ih h
    refine ⟨_ :: _ :: m, rfl, fun fuel v hlt => ?_⟩
    obtain ⟨fuel, rfl, hle⟩ := hfuel hlt
    exact hm fuel v (Nat.lt_of_succ_lt hle)
  | case10 fuel waiting members d s hclose hopen hinter hdiff hsym item s' hitem ih =>
    obtain ⟨m, rfl, hm⟩ := ih h
    obtain ⟨w, hw, hne, htakes⟩ := readItem_takes hitem
    obtain ⟨e, w, rfl⟩ := List.exists_cons_of_ne_nil hne
    obtain ⟨rfl, rfl⟩ := List.cons_eq_cons.mp hw
    refine ⟨d :: (w ++ m), by simp, fun fuel v hlt => ?_⟩
    obtain ⟨fuel, rfl, hle⟩ := hfuel hlt
    simp only [List.length_cons, List.length_append] at hle
    have hread := htakes _ (sameStart_append m (by decide) r v)
    rw [List.cons_append] at hread
    -- The character behind the first one is the same in both texts, so that no operation begins here.
    have hsame : (w ++ (m ++ ']' :: v)).head? = (w ++ (m ++ ']' :: r)).head? := by
      rw [← List.append_assoc, ← List.append_assoc]
      exact head?_append_cons _ _ _ _
    have hother {x : Char} (h : ∀ t, d = x → w ++ (m ++ ']' :: r) = x :: t → False) (t : List Char) (hd : d = x)
        (heq : w ++ (m ++ ']' :: v) = x :: t) : False := by
      obtain ⟨t', ht'⟩ := List.head?_eq_some_iff.mp (hsame ▸ List.head?_eq_some_iff.mpr ⟨t, heq⟩)
      exact h t' hd ht'
    rw [List.cons_append, List.append_assoc, readMembers, hread]
    · exact hm fuel v (by omega)
    · exact hclose
    · exact hopen
    · exact hother hinter
    · exact hother hdiff
    · exact hother hsym
  | case11 => cases h

theorem readClass_takes {x : Class} (h : readClass s = some (x, r)) :
    ∃ m, s = m ++ ']' :: r ∧ ∀ v, readClass (m ++ ']' :: v) = some (x, v) := by
  have hclass {s t : List Char} {negated : Bool} {first : Class} (h : readOpening s = (negated, first, t)) :
      readClass s = (readMembers (t.length + 1) none first t).map fun r => (.bracket negated r.1, r.2) := by
    rw [readClass, h]
  obtain ⟨negated, first, t, hopening⟩ : ∃ negated first t, readOpening s = (negated, first, t) := ⟨_, _, _, rfl⟩
  rw [hclass hopening] at h
  obtain ⟨⟨c, t'⟩, hread, heq⟩ := Option.map_eq_some_iff.mp h
  cases heq
  obtain ⟨m, rfl, hm⟩ := readMembers_takes hread
  obtain ⟨k, rfl, hk⟩ := readOpening_close hopening
  refine ⟨k ++ m, by rw [List.append_assoc], fun v => ?_⟩
  have hlt : m.length < (m ++ ']' :: v).length + 1 := by
    rw [List.length_append]
    omega
  rw [List.append_assoc, hclass (hk v), hm _ v hlt]
  rfl

end Classes

section Tokens

variable {s r : List Char}

/-- The switches of a group end at the colon or the parenthesis, which stays. -/
theorem readFlags_takes {on : Bool} {seen edits : List (Flag × Bool)} (h : readFlags on seen s = some (edits, r)) :
    ∃ m c t, r = c :: t ∧ (c = ':' ∨ c = ')') ∧ s = m ++ c :: t ∧
      ∀ v, readFlags on seen (m ++ c :: v) = some (edits, c :: v) := by
  fun_induction readFlags on seen s generalizing edits r with
  | case1 => cases h
  | case2 => cases h
  | case3 on seen c s hon f hf hnew ih =>
    obtain ⟨m, d, t, rfl, hd, rfl, hm⟩ := ih h
    refine ⟨'-' :: c :: m, d, t, rfl, hd, rfl, fun v => ?_⟩
    rw [List.cons_append, List.cons_append, readFlags, if_pos hon, hf]
    simp only [hnew]
    exact hm v
  | case4 => cases h
  | case5 => cases h
  | case6 on seen c s hyphen hend =>
    cases h
    refine ⟨[], c, s, rfl, hend, rfl, fun v => ?_⟩
    rw [List.nil_append, readFlags, if_pos hend]
    rintro d t rfl
    simp at hend
  | case7 => cases h
  | case8 on seen c s hyphen hend f hf hnew ih =>
    have hc : c ≠ '-' := by
      rintro rfl
      cases hf
    obtain ⟨m, d, t, rfl, hd, rfl, hm⟩ := ih h
    refine ⟨c :: m, d, t, rfl, hd, rfl, fun v => ?_⟩
    rw [List.cons_append, readFlags, if_neg hend, hf]
    · simp only [hnew]
      exact hm v
    · exact fun d t hd _ => hc hd
  | case9 => cases h

theorem readName_takes {x : Token} (h : readName s = some (x, r)) :
    ∃ m, s = m ++ '>' :: r ∧ isGroupName m = true ∧ ∀ v, readName (m ++ '>' :: v) = some (x, v) := by
  unfold readName at h
  split at h
  · rename_i t hdrop
    obtain ⟨m, rfl, -, hm⟩ := exists_of_dropWhile hdrop
    dsimp only at h
    rw [(hm _).1] at h
    split at h
    · rename_i hname
      cases h
      refine ⟨m, rfl, hname, fun v => ?_⟩
      rw [readName, (hm v).1, (hm v).2]
      simp [hname]
    · cases h
  · cases h

def flagsToken : List (Flag × Bool) × List Char → Option (Token × List Char)
  | (edits, ':' :: rest) => some (.enter none edits, rest)
  | ([], _) => none
  | (edits, ')' :: rest) => some (.switch edits, rest)
  | _ => none

theorem readGroup_flags {p : List (Flag × Bool) × List Char} (h : readFlags true [] s = some p) :
    readGroup ('?' :: s) = flagsToken p := by
  -- No switch is the letter or the bracket that a name begins with.
  have hname : ∀ t, s = 'P' :: '<' :: t → False := by
    rintro t rfl
    simp [readFlags, readFlag] at h
  have hangle : ∀ t, s = '<' :: t → False := by
    rintro t rfl
    simp [readFlags, readFlag] at h
  rw [readGroup, h]
  · fun_cases flagsToken p <;> simp_all
  · exact hname
  · exact fun t => hangle _
  · exact fun t => hangle _
  · exact hangle

/-- Behind a text that was read comes a question mark only if it came there before. -/
def Unasked (r v : List Char) : Prop := v.head? = some '?' → r.head? = some '?'

theorem readGroup_takes {x : Token} (h : readGroup s = some (x, r)) :
    ∃ m, s = m ++ r ∧ m.getLast? ≠ some '$' ∧ ∀ v, Unasked r v → readGroup (m ++ v) = some (x, v) := by
  unfold readGroup at h
  split at h
  · obtain ⟨m, rfl, -, hm⟩ := readName_takes h
    refine ⟨'?' :: 'P' :: '<' :: m ++ ['>'], by simp, by rw [List.getLast?_concat]; decide, fun v _ => ?_⟩
    simpa [readGroup] using hm v
  · cases h
  · cases h
  · rename_i s hequal hbang
    obtain ⟨m, rfl, hname, hm⟩ := readName_takes h
    cases m with
    | nil => cases hname
    | cons d m =>
      refine ⟨'?' :: '<' :: d :: m ++ ['>'], by simp, by rw [List.getLast?_concat]; decide, fun v _ => ?_⟩
      have htext : '?' :: '<' :: d :: m ++ ['>'] ++ v = '?' :: '<' :: (d :: m ++ '>' :: v) := by simp
      rw [htext, readGroup, hm v]
      · intro t ht
        exact hequal _ (by rw [List.cons_append, (List.cons_eq_cons.mp ht).1])
      · intro t ht
        exact hbang _ (by rw [List.cons_append, (List.cons_eq_cons.mp ht).1])
  · split at h
    · rename_i edits t hflags
      cases h
      obtain ⟨m, c, t, heq, -, rfl, hm⟩ := readFlags_takes hflags
      obtain ⟨rfl, rfl⟩ := List.cons_eq_cons.mp heq
      refine ⟨'?' :: m ++ [':'], by simp, by rw [List.getLast?_concat]; decide, fun v _ => ?_⟩
      rw [List.append_assoc, List.cons_append, List.singleton_append, readGroup_flags (hm v)]
      rfl
    · cases h
    · rename_i edits t hedits hflags
      cases h
      obtain ⟨m, c, t, heq, -, rfl, hm⟩ := readFlags_takes hflags
      obtain ⟨rfl, rfl⟩ := List.cons_eq_cons.mp heq
      refine ⟨'?' :: m ++ [')'], by simp, by rw [List.getLast?_concat]; decide, fun v _ => ?_⟩
      rw [List.append_assoc, List.cons_append, List.singleton_append, readGroup_flags (hm v)]
      cases edits with
      | nil => exact (hedits rfl).elim
      | cons => rfl
    · cases h
  · rename_i hquestion
    cases h
    refine ⟨[], rfl, by simp, fun v hv => ?_⟩
    rw [List.nil_append, readGroup]
    all_goals
      rintro t rfl
      obtain ⟨t', ht'⟩ := List.head?_eq_some_iff.mp (hv rfl)
      exact hquestion t' ht'

theorem readCount_append {c : Char} (hspace : isSpace c = false) (hdigit : c.isDigit = false) (s t : List Char) :
    readCount (s ++ c :: t) = (readCount s).map fun n => (n.1, n.2 ++ c :: t) := by
  unfold readCount
  dsimp only
  rw [dropWhile_append_stop hspace]
  simp only [takeWhile_append_stop hdigit, dropWhile_append_stop hdigit, dropWhile_append_stop hspace]
  split <;> rfl

theorem readCount_takes {n : Nat} {c : Char} (hspace : isSpace c = false) (hdigit : c.isDigit = false)
    (h : readCount s = some (n, c :: r)) :
    ∃ m, s = m ++ c :: r ∧ ∀ v, readCount (m ++ c :: v) = some (n, c :: v) := by
  obtain ⟨m, rfl⟩ : c :: r <:+ s := by
    unfold readCount at h
    dsimp only at h
    split at h
    · cases h
    · rw [← (Prod.mk.inj (Option.some.inj h)).2]
      exact ((List.dropWhile_suffix _).trans (List.dropWhile_suffix _)).trans (List.dropWhile_suffix _)
  refine ⟨m, rfl, fun v => ?_⟩
  rw [readCount_append hspace hdigit] at h ⊢
  obtain ⟨⟨k, rest⟩, hcount, heq⟩ := Option.map_eq_some_iff.mp h
  obtain ⟨rfl, hrest⟩ := Prod.mk.inj heq
  obtain rfl : rest = [] := List.append_left_eq_self.mp hrest
  rw [hcount]
  rfl

theorem readCounts_takes {x : Nat × Option Nat} (h : readCounts s = some (x, r)) :
    ∃ m, s = m ++ '}' :: r ∧ ∀ v, readCounts (m ++ '}' :: v) = some (x, v) := by
  have hbrace : isSpace '}' = false ∧ '}'.isDigit = false := by decide
  have hcomma : isSpace ',' = false ∧ ','.isDigit = false := by decide
  unfold readCounts at h
  split at h
  · rename_i n t hcount
    cases h
    obtain ⟨m, rfl, hm⟩ := readCount_takes hbrace.1 hbrace.2 hcount
    refine ⟨m, rfl, fun v => ?_⟩
    rw [readCounts, hm v]
    rfl
  · rename_i n t hcount
    cases h
    obtain ⟨m, rfl, hm⟩ := readCount_takes hcomma.1 hcomma.2 hcount
    refine ⟨m ++ [','], by simp, fun v => ?_⟩
    rw [List.append_assoc, List.singleton_append, readCounts, hm]
    rfl
  · rename_i n t hopen hcount
    split at h
    · rename_i k t' hcount'
      split at h
      · rename_i hle
        cases h
        obtain ⟨m, rfl, hm⟩ := readCount_takes hcomma.1 hcomma.2 hcount
        obtain ⟨w, rfl, hw⟩ := readCount_takes hbrace.1 hbrace.2 hcount'
        refine ⟨m ++ ',' :: w, by simp, fun v => ?_⟩
        rw [List.append_assoc, List.cons_append, readCounts, hm]
        cases w with
        | nil => cases hcount'
        | cons d w =>
          have hd : d ≠ '}' := fun hd => hopen _ (by rw [hd]; rfl)
          have hwv := hw v
          rw [List.cons_append] at hwv
          simp [hd, hwv, hle]
      · cases h
    · cases h
  · cases h

theorem quantityToken_takes {min : Nat} {max : Option Nat} {x : Token} (h : quantityToken min max s = (x, r)) :
    ∃ m, s = m ++ r ∧ m.getLast? ≠ some '$' ∧ ∀ v, Unasked r v → quantityToken min max (m ++ v) = (x, v) := by
  match s with
  | [] =>
    cases h
    refine ⟨[], rfl, by simp, fun v hv => ?_⟩
    rw [List.nil_append, quantityToken]
    rintro t rfl
    cases hv rfl
  | c :: s =>
    by_cases hc : c = '?'
    · subst hc
      cases h
      exact ⟨['?'], rfl, by decide, fun _ _ => rfl⟩
    · rw [quantityToken] at h
      · cases h
        refine ⟨[], rfl, by simp, fun v hv => ?_⟩
        rw [List.nil_append, quantityToken]
        rintro t rfl
        exact hc (Option.some.inj (hv rfl))
      · exact fun t ht => hc (List.cons_eq_cons.mp ht).1

/-- A token is taken from the front of a text, whatever stands behind it but a question mark. Only a dollar sign is
a token that ends with one, alone or behind a backslash. -/
theorem readToken_takes {c : Char} {x : Token} (h : readToken c s = some (x, r)) :
    ∃ m, s = m ++ r ∧ (m.getLast? = some '$' → m = ['$'] ∧ c = '\\') ∧
      ∀ v, Unasked r v → readToken c (m ++ v) = some (x, v) := by
  have hquantity : ∀ {min : Nat} {max : Option Nat} {s : List Char}, some (quantityToken min max s) = some (x, r) →
      ∃ m, s = m ++ r ∧ m.getLast? ≠ some '$' ∧
        ∀ v, Unasked r v → some (quantityToken min max (m ++ v)) = some (x, v) := by
    intro min max s h
    obtain ⟨m, hs, hlast, hm⟩ := quantityToken_takes (Option.some.inj h)
    exact ⟨m, hs, hlast, fun v hv => congrArg some (hm v hv)⟩
  have hsingle : ∀ {y : Token}, (∀ t, readToken c t = some (y, t)) → some (y, s) = some (x, r) → ∃ m, s = m ++ r ∧
      (m.getLast? = some '$' → m = ['$'] ∧ c = '\\') ∧ ∀ v, Unasked r v → readToken c (m ++ v) = some (x, v) := by
    intro y hread h
    cases h
    exact ⟨[], rfl, nofun, fun v _ => hread v⟩
  unfold readToken at h
  split at h
  case h_1 =>
    obtain ⟨m, rfl, hlast, hm⟩ := readGroup_takes h
    exact ⟨m, rfl, fun h => absurd h hlast, hm⟩
  case h_4 =>
    obtain ⟨⟨c, t⟩, hclass, heq⟩ := Option.map_eq_some_iff.mp h
    cases heq
    obtain ⟨m, rfl, hm⟩ := readClass_takes hclass
    refine ⟨m ++ [']'], by simp, by simp, fun v _ => ?_⟩
    rw [List.append_assoc, List.singleton_append, readToken, hm v]
    rfl
  case h_5 | h_6 | h_7 =>
    obtain ⟨m, rfl, hlast, hm⟩ := hquantity h
    exact ⟨m, rfl, fun h => absurd h hlast, hm⟩
  case h_8 =>
    obtain ⟨⟨⟨min, max⟩, t⟩, hcounts, heq⟩ := Option.map_eq_some_iff.mp h
    obtain ⟨m, rfl, hm⟩ := readCounts_takes hcounts
    obtain ⟨w, rfl, hlast, hw⟩ := hquantity (congrArg some heq)
    refine ⟨m ++ '}' :: w, by simp, fun h => ?_, fun v hv => ?_⟩
    · cases w with
      | nil => simp at h
      | cons d w => exact absurd (by simpa using h) hlast
    · rw [List.append_assoc, List.cons_append, readToken, hm]
      exact hw v hv
  case h_12 =>
    obtain ⟨⟨e, t⟩, hescape, heq⟩ := Option.map_eq_some_iff.mp h
    obtain ⟨m, rfl, -, hlast, hm⟩ := readEscape_takes hescape
    refine ⟨m, ?_, fun h => ⟨hlast h, rfl⟩, fun v _ => ?_⟩
    · cases e <;> cases heq <;> rfl
    · rw [readToken, hm v]
      cases e <;> cases heq <;> rfl
  case h_13 =>
    refine hsingle (fun t => ?_) h
    rw [readToken]
    all_goals assumption
  all_goals exact hsingle (fun _ => rfl) h

abbrev closed (more : List Char) : List Char := ')' :: more

/-- The tokens that a text is read as, whatever bounds their number. -/
def Tokenizes (s : List Char) (ts : List Token) : Prop := ∃ fuel, tokensWithin fuel s = some ts

theorem tokensWithin_mono {n m : Nat} {s : List Char} {ts : List Token} (h : tokensWithin n s = some ts)
    (hle : n ≤ m) : tokensWithin m s = some ts := by
  induction n generalizing m s ts with
  | zero =>
    cases s with
    | nil => cases m <;> exact h
    | cons => cases h
  | succ n ih =>
    obtain ⟨m, rfl⟩ : ∃ k, m = k + 1 := ⟨m - 1, by omega⟩
    cases s with
    | nil => exact h
    | cons c s =>
      rw [tokensWithin] at h ⊢
      split at h
      · obtain ⟨us, hus, rfl⟩ := Option.map_eq_some_iff.mp h
        rw [ih hus (by omega)]
        rfl
      · cases h

theorem literal_cons_of_mem {c : Char} (hc : c ∈ metaChars) (w : List Char) :
    literal (c :: w) = '\\' :: c :: literal w := by
  simp [literal, hc]

theorem literal_cons_of_not_mem {c : Char} (hc : c ∉ metaChars) (w : List Char) :
    literal (c :: w) = c :: literal w := by
  simp [literal, hc]

namespace Tokenizes

variable {s t : List Char} {ts us : List Token}

theorem of_tokens (h : tokens s = some ts) : Tokenizes s ts := ⟨_, h⟩

theorem unique (hs : Tokenizes s ts) (hu : Tokenizes s us) : ts = us := by
  obtain ⟨n, hn⟩ := hs
  obtain ⟨m, hm⟩ := hu
  have h₁ := tokensWithin_mono hn (Nat.le_max_left n m)
  have h₂ := tokensWithin_mono hm (Nat.le_max_right n m)
  exact Option.some_inj.mp (h₁.symm.trans h₂)

theorem nil : Tokenizes [] [] := ⟨0, rfl⟩

theorem cons {c : Char} {x : Token} (hx : readToken c s = some (x, t)) (ht : Tokenizes t ts) :
    Tokenizes (c :: s) (x :: ts) := by
  obtain ⟨n, hn⟩ := ht
  refine ⟨n + 1, ?_⟩
  rw [tokensWithin, hx]
  simp only [hn, Option.map_some]

/-- Every token takes a character at least, so the length of the text bounds their number. -/
theorem tokens_eq (h : Tokenizes s ts) : tokens s = some ts := by
  obtain ⟨n, hn⟩ := h
  rw [tokens]
  induction n generalizing s ts with
  | zero =>
    cases s with
    | nil => exact hn
    | cons => cases hn
  | succ n ih =>
    cases s with
    | nil => exact hn
    | cons c s =>
      rw [tokensWithin] at hn
      split at hn
      · rename_i x r hx
        obtain ⟨us, hus, rfl⟩ := Option.map_eq_some_iff.mp hn
        obtain ⟨m, rfl, -, -⟩ := readToken_takes hx
        have hlength : r.length ≤ (m ++ r).length := by simp
        rw [List.length_cons, tokensWithin, hx]
        dsimp only
        rw [tokensWithin_mono (ih hus) hlength]
        rfl
      · cases hn

theorem append (hs : Tokenizes s ts) (ht : Tokenizes (closed t) us) :
    Tokenizes (s ++ closed t) (ts ++ us) := by
  obtain ⟨n, hn⟩ := hs
  induction n generalizing s ts with
  | zero =>
    cases s with
    | nil =>
      cases hn
      exact ht
    | cons => cases hn
  | succ n ih =>
    cases s with
    | nil =>
      cases hn
      exact ht
    | cons c s =>
      rw [tokensWithin] at hn
      split at hn
      · rename_i x s' hx
        obtain ⟨us, hus, rfl⟩ := Option.map_eq_some_iff.mp hn
        obtain ⟨m, rfl, -, hm⟩ := readToken_takes hx
        rw [List.cons_append, List.append_assoc]
        refine cons (hm _ ?_) (ih hus)
        intro hhead
        cases s' with
        | nil => cases hhead
        | cons => exact hhead
      · cases hn

theorem readEscape_meta {c : Char} (h : c ∈ metaChars) (t : List Char) :
    readEscape (c :: t) = some (.char c, t) := by
  simp only [metaChars, List.mem_cons, List.not_mem_nil, or_false] at h
  rcases h with rfl | rfl | rfl | rfl | rfl | rfl | rfl | rfl | rfl | rfl | rfl | rfl | rfl | rfl | rfl |
    rfl | rfl | rfl <;> rfl

theorem readToken_plain {c : Char} (h : c ∉ metaChars) (t : List Char) :
    readToken c t = some (.atom (.char c), t) := by
  rw [readToken]
  all_goals
    rintro rfl
    exact h (by decide)

theorem literal (w : List Char) (ht : Tokenizes t ts) :
    Tokenizes (Regex.literal w ++ t) (w.map (fun c => .atom (.char c)) ++ ts) := by
  induction w with
  | nil => exact ht
  | cons c w ih =>
    by_cases hc : c ∈ metaChars
    · have hread : readToken '\\' (c :: (Regex.literal w ++ t)) =
          some (.atom (.char c), Regex.literal w ++ t) := by
        rw [readToken, readEscape_meta hc]
        rfl
      rw [literal_cons_of_mem hc]
      exact cons hread ih
    · rw [literal_cons_of_not_mem hc]
      exact cons (readToken_plain hc _) ih

end Tokenizes

/-- The text is read as these tokens before every text that does not begin with a question mark. -/
def Opens (s : List Char) (ts : List Token) : Prop :=
  ∀ t us, t.head? ≠ some '?' → Tokenizes t us → Tokenizes (s ++ t) (ts ++ us)

namespace Opens

variable {s t : List Char} {ts us : List Token}

theorem append (hs : Opens s ts) (ht : Opens t us) (hhead : t.head? ≠ some '?') : Opens (s ++ t) (ts ++ us) := by
  intro v vs hv hvs
  rw [List.append_assoc, List.append_assoc]
  refine hs _ _ ?_ (ht v vs hv hvs)
  cases t with
  | nil => exact hv
  | cons => exact hhead

theorem literal (w : List Char) : Opens (Regex.literal w) (w.map fun c => .atom (.char c)) :=
  fun _ _ _ ht => ht.literal w

end Opens

theorem head?_literal_append (w : List Char) {t : List Char} (ht : t.head? ≠ some '?') :
    (literal w ++ t).head? ≠ some '?' := by
  cases w with
  | nil => exact ht
  | cons c w =>
    intro h
    by_cases hc : c ∈ metaChars
    · rw [literal_cons_of_mem hc] at h
      cases h
    · rw [literal_cons_of_not_mem hc] at h
      exact hc (Option.some.inj h ▸ by decide)

end Tokens

end RequestRouter.Regex
