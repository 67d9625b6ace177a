import RequestRouter.Pattern.Span
/-!
Templates put together from two texts. If both texts have balanced braces, the spans of the whole are those of
the parts; and if the whole and the second text have balanced braces, so has the first.
-/
namespace RequestRouter

namespace Cut

def join (a b : Cut) : Cut :=
  match b.spans with
  | [] => ⟨a.spans, a.tail ++ b.tail⟩
  | (before, span) :: rest => ⟨a.spans ++ (a.tail ++ before, span) :: rest, b.tail⟩

theorem join_cons (span : List Char × List Char) (a b : Cut) :
    join ⟨span :: a.spans, a.tail⟩ b = ⟨span :: (a.join b).spans, (a.join b).tail⟩ := by
  obtain ⟨_ | _, _⟩ := b <;> rfl

section Scan

variable (depth : Nat) (before inside s : List Char)

@[simp] theorem scan_zero_open : scan 0 before inside ('{' :: s) = scan 1 before [] s := rfl

@[simp] theorem scan_zero_close : scan 0 before inside ('}' :: s) = none := rfl

@[simp] theorem scan_succ_open :
    scan (depth + 1) before inside ('{' :: s) = scan (depth + 2) before ('{' :: inside) s := rfl

@[simp] theorem scan_one_close :
    scan 1 before inside ('}' :: s) =
      (scan 0 [] [] s).map fun cut => ⟨(before.reverse, inside.reverse) :: cut.spans, cut.tail⟩ := rfl

@[simp] theorem scan_two_close :
    scan (depth + 2) before inside ('}' :: s) = scan (depth + 1) before ('}' :: inside) s := rfl

variable {c : Char}

theorem scan_zero_char (ho : c ≠ '{') (hc : c ≠ '}') :
    scan 0 before inside (c :: s) = scan 0 (c :: before) inside s := by
  rw [scan, if_neg ho, if_neg hc]

theorem scan_succ_char (ho : c ≠ '{') (hc : c ≠ '}') :
    scan (depth + 1) before inside (c :: s) = scan (depth + 1) before (c :: inside) s := by
  cases depth <;> rw [scan, if_neg ho, if_neg hc]

/-- Outside spans it does not matter what is kept for the inside of one. -/
theorem scan_inside : scan 0 before inside s = scan 0 before [] s := by
  induction s generalizing before with
  | nil => rfl
  | cons c s ih =>
    by_cases ho : c = '{'
    · rw [ho, scan_zero_open, scan_zero_open]
    · by_cases hc : c = '}'
      · rw [hc, scan_zero_close, scan_zero_close]
      · rw [scan_zero_char _ _ _ ho hc, scan_zero_char _ _ _ ho hc, ih]

theorem scan_before (more : List Char) :
    scan depth (before ++ more) inside s = (scan depth before inside s).map (join ⟨[], more.reverse⟩) := by
  induction s generalizing depth before inside with
  | nil =>
    cases depth with
    | zero => simp [scan, join]
    | succ depth => rfl
  | cons c s ih =>
    by_cases ho : c = '{'
    · cases depth <;> simp [ho, ih]
    · by_cases hc : c = '}'
      · match depth with
        | 0 => simp [hc]
        | 1 => cases h : scan 0 [] [] s <;> simp [hc, h, join]
        | depth + 2 => simp [hc, ih]
      · cases depth with
        | zero => rw [scan_zero_char _ _ _ ho hc, scan_zero_char _ _ _ ho hc, ← ih]; rfl
        | succ depth => rw [scan_succ_char _ _ _ _ ho hc, scan_succ_char _ _ _ _ ho hc, ih]

end Scan

variable {depth : Nat} {before inside s t : List Char} {cut : Cut}

theorem scan_append (h : scan depth before inside s = some cut) (t : List Char) :
    scan depth before inside (s ++ t) = (ofChars? t).map cut.join := by
  induction s generalizing depth before inside cut with
  | nil =>
    cases depth with
    | zero =>
      cases h
      have hbefore := scan_before 0 [] inside t before
      rwa [scan_inside [] inside] at hbefore
    | succ depth => cases h
  | cons c s ih =>
    rw [List.cons_append]
    by_cases ho : c = '{'
    · subst ho
      cases depth <;> exact ih h
    · by_cases hc : c = '}'
      · subst hc
        match depth with
        | 0 => cases h
        | 1 =>
          obtain ⟨rest, hrest, rfl⟩ := Option.map_eq_some_iff.mp h
          rw [scan_one_close, ih hrest, Option.map_map]
          exact congrArg (Option.map · _) (funext fun b => (join_cons _ rest b).symm)
        | depth + 2 => exact ih h
      · cases depth with
        | zero =>
          rw [scan_zero_char _ _ _ ho hc] at h ⊢
          exact ih h
        | succ depth =>
          rw [scan_succ_char _ _ _ _ ho hc] at h ⊢
          exact ih h

theorem scan_eq_none (h : (scan depth before inside t).isSome = true) {n : Nat} (hn : depth < n)
    (before' inside' : List Char) : scan n before' inside' t = none := by
  induction t generalizing depth before inside n before' inside' with
  | nil =>
    cases n with
    | zero => exact absurd hn (Nat.not_lt_zero depth)
    | succ n => rfl
  | cons c t ih =>
    obtain ⟨n, rfl⟩ := Nat.exists_eq_add_one_of_ne_zero (Nat.ne_zero_of_lt hn)
    by_cases ho : c = '{'
    · subst ho
      cases depth with
      | zero =>
        rw [scan_zero_open] at h
        exact ih h (Nat.succ_lt_succ (Nat.succ_pos n)) _ _
      | succ depth => exact ih h (Nat.succ_lt_succ hn) _ _
    · by_cases hc : c = '}'
      · subst hc
        match depth with
        | 0 => cases h
        | depth + 1 =>
          obtain ⟨n, rfl⟩ := Nat.exists_eq_add_one_of_ne_zero (n := n) (by omega)
          cases depth with
          | zero =>
            rw [scan_one_close, Option.isSome_map] at h
            exact ih h (Nat.succ_pos n) _ _
          | succ depth => exact ih h (Nat.lt_of_succ_lt_succ hn) _ _
      · rw [scan_succ_char _ _ _ _ ho hc]
        cases depth with
        | zero =>
          rw [scan_zero_char _ _ _ ho hc] at h
          exact ih h hn _ _
        | succ depth =>
          rw [scan_succ_char _ _ _ _ ho hc] at h
          exact ih h hn _ _

/-- A text that is balanced together with a balanced text behind it is balanced itself. -/
theorem isSome_of_append (h : (scan depth before inside (s ++ t)).isSome = true)
    (ht : (ofChars? t).isSome = true) : (scan depth before inside s).isSome = true := by
  induction s generalizing depth before inside with
  | nil =>
    cases depth with
    | zero => rfl
    | succ depth =>
      rw [List.nil_append, scan_eq_none ht (Nat.succ_pos depth)] at h
      cases h
  | cons c s ih =>
    rw [List.cons_append] at h
    by_cases ho : c = '{'
    · subst ho
      cases depth <;> exact ih h
    · by_cases hc : c = '}'
      · subst hc
        match depth with
        | 0 => cases h
        | 1 =>
          rw [scan_one_close, Option.isSome_map] at h ⊢
          exact ih h
        | depth + 2 => exact ih h
      · cases depth with
        | zero =>
          rw [scan_zero_char _ _ _ ho hc] at h ⊢
          exact ih h
        | succ depth =>
          rw [scan_succ_char _ _ _ _ ho hc] at h ⊢
          exact ih h

theorem ofChars?_append {a : Cut} (hs : ofChars? s = some a) (t : List Char) :
    ofChars? (s ++ t) = (ofChars? t).map a.join := scan_append hs t

theorem exists_join {a : Cut} (h : ofChars? (s ++ t) = some cut) (ht : ofChars? t = some a) :
    ∃ b, ofChars? s = some b ∧ cut = b.join a := by
  have hs : (ofChars? s).isSome = true :=
    isSome_of_append (h.symm ▸ rfl : (ofChars? (s ++ t)).isSome = true) (by rw [ht]; rfl)
  obtain ⟨b, hb⟩ := Option.isSome_iff_exists.mp hs
  rw [ofChars?_append hb, ht] at h
  exact ⟨b, hb, (Option.some_inj.mp h).symm⟩

end Cut

end RequestRouter
