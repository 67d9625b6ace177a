import RequestRouter.Proofs.Pattern.Join
import RequestRouter.Proofs.Text.Utf8
/-!
The braces of a template. A text can be cut if its braces are balanced, and then in one way only: literal texts
without braces and, between them, spans in braces that are balanced inside. A counter that runs over the octets of
the text finds the same spans: its offsets stand between characters, and what is taken between them are the literal
texts and the insides of the spans.
-/
namespace RequestRouter

open RequestRouter.Text

section Depth

/-- With `d` braces open before it, a text never closes a brace too many, and it leaves `e` of them open. -/
structure Leads (d e : Nat) (s : List Char) : Prop where
  below : ∀ p, p <+: s → p.count '}' ≤ d + p.count '{'
  whole : d + s.count '{' = e + s.count '}'

/-- The text closes all braces that it opens, and no other ones. -/
abbrev Balanced (s : List Char) : Prop := Leads 0 0 s

variable {c : Char} {d e f : Nat} {s t : List Char}

theorem leads_nil : Leads d e [] ↔ d = e := by
  constructor
  · exact fun h => h.whole
  · rintro rfl
    refine ⟨fun p hp => ?_, rfl⟩
    rw [List.prefix_nil.mp hp]
    exact Nat.zero_le _

theorem leads_open : Leads d e ('{' :: s) ↔ Leads (d + 1) e s := by
  constructor
  · rintro ⟨hbelow, hwhole⟩
    refine ⟨fun p hp => ?_, by simp at hwhole; omega⟩
    have hle := hbelow ('{' :: p) (List.cons_prefix_cons.mpr ⟨rfl, hp⟩)
    simp at hle
    omega
  · rintro ⟨hbelow, hwhole⟩
    refine ⟨fun p hp => ?_, by simp; omega⟩
    rcases List.prefix_cons_iff.mp hp with rfl | ⟨q, rfl, hq⟩
    · exact Nat.zero_le _
    · have hle := hbelow q hq
      simp
      omega

theorem leads_close : Leads d e ('}' :: s) ↔ ∃ d', d = d' + 1 ∧ Leads d' e s := by
  constructor
  · rintro ⟨hbelow, hwhole⟩
    have hone := hbelow ['}'] (List.cons_prefix_cons.mpr ⟨rfl, List.nil_prefix⟩)
    simp at hone
    refine ⟨d - 1, by omega, fun p hp => ?_, by simp at hwhole; omega⟩
    have hle := hbelow ('}' :: p) (List.cons_prefix_cons.mpr ⟨rfl, hp⟩)
    simp at hle
    omega
  · rintro ⟨d, rfl, hbelow, hwhole⟩
    refine ⟨fun p hp => ?_, by simp; omega⟩
    rcases List.prefix_cons_iff.mp hp with rfl | ⟨q, rfl, hq⟩
    · exact Nat.zero_le _
    · have hle := hbelow q hq
      simp
      omega

theorem leads_char (ho : c ≠ '{') (hc : c ≠ '}') : Leads d e (c :: s) ↔ Leads d e s := by
  constructor
  · rintro ⟨hbelow, hwhole⟩
    refine ⟨fun p hp => ?_, by simpa [ho, hc] using hwhole⟩
    simpa [ho, hc] using hbelow (c :: p) (List.cons_prefix_cons.mpr ⟨rfl, hp⟩)
  · rintro ⟨hbelow, hwhole⟩
    refine ⟨fun p hp => ?_, by simpa [ho, hc] using hwhole⟩
    rcases List.prefix_cons_iff.mp hp with rfl | ⟨q, rfl, hq⟩
    · exact Nat.zero_le _
    · simpa [ho, hc] using hbelow q hq

theorem Leads.append (hs : Leads d e s) (ht : Leads e f t) : Leads d f (s ++ t) := by
  induction s generalizing d with
  | nil => exact leads_nil.mp hs ▸ ht
  | cons x s ih =>
    rw [List.cons_append]
    by_cases ho : x = '{'
    · subst ho
      exact leads_open.mpr (ih (leads_open.mp hs))
    · by_cases hc : x = '}'
      · subst hc
        obtain ⟨d, rfl, hrest⟩ := leads_close.mp hs
        exact leads_close.mpr ⟨d, rfl, ih hrest⟩
      · exact (leads_char ho hc).mpr (ih ((leads_char ho hc).mp hs))

/-- No brace is in the text. -/
def Braceless (s : List Char) : Prop := '{' ∉ s ∧ '}' ∉ s

instance (s : List Char) : Decidable (Braceless s) := inferInstanceAs (Decidable (_ ∧ _))

theorem Braceless.nil : Braceless [] := ⟨List.not_mem_nil, List.not_mem_nil⟩

theorem braceless_append : Braceless (s ++ t) ↔ Braceless s ∧ Braceless t := by
  simp only [Braceless, List.mem_append, not_or]
  exact and_and_and_comm

theorem braceless_singleton : Braceless [c] ↔ c ≠ '{' ∧ c ≠ '}' := by
  simp only [Braceless, List.mem_singleton, eq_comm]

end Depth

section Octets

/-- How many octets a text takes. -/
def octets (s : List Char) : Nat := (Utf8.encode s).length

@[simp] theorem octets_nil : octets [] = 0 := rfl

@[simp] theorem octets_append (s t : List Char) : octets (s ++ t) = octets s + octets t := by
  simp [octets, Utf8.encode]

theorem octets_cons (c : Char) (s : List Char) : octets (c :: s) = (Utf8.encodeChar c).length + octets s := by
  simp [octets, Utf8.encode]

@[simp] theorem octets_open (s : List Char) : octets ('{' :: s) = octets s + 1 := by
  rw [octets_cons, Nat.add_comm]
  rfl

@[simp] theorem octets_close (s : List Char) : octets ('}' :: s) = octets s + 1 := by
  rw [octets_cons, Nat.add_comm]
  rfl

end Octets

namespace Cut

variable {cut : Cut} {depth d e : Nat} {before inside s t : List Char}

theorem scan_isSome : (scan depth before inside s).isSome = true ↔ Leads depth 0 s := by
  induction s generalizing depth before inside with
  | nil =>
    rw [leads_nil]
    cases depth with
    | zero => simp [scan]
    | succ depth => simp [scan]
  | cons c s ih =>
    by_cases ho : c = '{'
    · subst ho
      rw [leads_open]
      cases depth with
      | zero => rw [scan_zero_open, ih]
      | succ depth => rw [scan_succ_open, ih]
    · by_cases hc : c = '}'
      · subst hc
        rw [leads_close]
        rcases depth with _ | _ | depth
        · simp
        · rw [scan_one_close, Option.isSome_map, ih]
          simp
        · rw [scan_two_close, ih]
          simp
      · rw [leads_char ho hc]
        cases depth with
        | zero => rw [scan_zero_char _ _ _ ho hc, ih]
        | succ depth => rw [scan_succ_char _ _ _ _ ho hc, ih]

theorem ofChars?_isSome : (ofChars? s).isSome = true ↔ Balanced s := scan_isSome

instance (s : List Char) : Decidable (Balanced s) := decidable_of_iff _ ofChars?_isSome

/-- The text is cut into literal texts and spans like that. -/
structure Cuts (cut : Cut) (s : List Char) : Prop where
  whole : cut.toChars = s
  literal : ∀ span ∈ cut.spans, Braceless span.1
  inside : ∀ span ∈ cut.spans, Balanced span.2
  tail : Braceless cut.tail

theorem Cuts.cons {span : List Char × List Char} (h : cut.Cuts s) (hb : Braceless span.1) (hi : Balanced span.2) :
    (⟨span :: cut.spans, cut.tail⟩ : Cut).Cuts (span.1 ++ '{' :: span.2 ++ '}' :: s) where
  whole := by simp [← h.whole, toChars]
  literal := List.forall_mem_cons.mpr ⟨hb, h.literal⟩
  inside := List.forall_mem_cons.mpr ⟨hi, h.inside⟩
  tail := h.tail

/-- What is read when a scan stands at some depth: literal text, and the open span. -/
def readBefore : Nat → List Char → List Char → List Char
  | 0, before, _ => before.reverse
  | _ + 1, before, inside => before.reverse ++ '{' :: inside.reverse

theorem cuts_of_scan (h : scan depth before inside s = some cut) (hb : Braceless before.reverse)
    (hi : ∀ d, depth = d + 1 → Leads 0 d inside.reverse) : cut.Cuts (readBefore depth before inside ++ s) := by
  induction s generalizing depth before inside cut with
  | nil =>
    cases depth with
    | zero =>
      cases h
      exact ⟨by simp [toChars, readBefore], nofun, nofun, hb⟩
    | succ depth => cases h
  | cons c s ih =>
    by_cases ho : c = '{'
    · subst ho
      cases depth with
      | zero => simpa [readBefore] using ih h hb fun d hd => Nat.succ.inj hd ▸ leads_nil.mpr rfl
      | succ depth =>
        have hopen : Leads 0 (depth + 1) ('{' :: inside).reverse := by
          rw [List.reverse_cons]
          exact (hi depth rfl).append (leads_open.mpr (leads_nil.mpr rfl))
        simpa [readBefore] using ih h hb fun d hd => Nat.succ.inj hd ▸ hopen
    · by_cases hc : c = '}'
      · subst hc
        match depth with
        | 0 => cases h
        | 1 =>
          obtain ⟨rest, hrest, rfl⟩ := Option.map_eq_some_iff.mp h
          have hcuts := ih hrest Braceless.nil nofun
          have hcons : (⟨(before.reverse, inside.reverse) :: rest.spans, rest.tail⟩ : Cut).Cuts _ :=
            hcuts.cons hb (hi 0 rfl)
          simpa [readBefore] using hcons
        | depth + 2 =>
          have hclose : Leads 0 depth ('}' :: inside).reverse := by
            rw [List.reverse_cons]
            exact (hi (depth + 1) rfl).append (leads_close.mpr ⟨depth, rfl, leads_nil.mpr rfl⟩)
          simpa [readBefore] using ih h hb fun d hd => Nat.succ.inj hd ▸ hclose
      · cases depth with
        | zero =>
          rw [scan_zero_char _ _ _ ho hc] at h
          have hmore : Braceless (c :: before).reverse := by
            rw [List.reverse_cons, braceless_append, braceless_singleton]
            exact ⟨hb, ho, hc⟩
          simpa [readBefore] using ih h hmore nofun
        | succ depth =>
          rw [scan_succ_char _ _ _ _ ho hc] at h
          have hmore : Leads 0 depth (c :: inside).reverse := by
            rw [List.reverse_cons]
            exact (hi depth rfl).append ((leads_char ho hc).mpr (leads_nil.mpr rfl))
          simpa [readBefore] using ih h hb fun d hd => Nat.succ.inj hd ▸ hmore

theorem scan_leads (h : Leads d e s) (before inside t : List Char) :
    scan (d + 1) before inside (s ++ t) = scan (e + 1) before (s.reverse ++ inside) t := by
  induction s generalizing d inside with
  | nil => rw [leads_nil.mp h]; rfl
  | cons c s ih =>
    rw [List.cons_append, List.reverse_cons, List.append_assoc]
    by_cases ho : c = '{'
    · subst ho
      rw [scan_succ_open, ih (leads_open.mp h)]
      rfl
    · by_cases hc : c = '}'
      · subst hc
        obtain ⟨d, rfl, hrest⟩ := leads_close.mp h
        rw [scan_two_close, ih hrest]
        rfl
      · rw [scan_succ_char _ _ _ _ ho hc, ih ((leads_char ho hc).mp h)]
        rfl

theorem scan_braceless (h : Braceless s) (before inside t : List Char) :
    scan 0 before inside (s ++ t) = scan 0 (s.reverse ++ before) inside t := by
  induction s generalizing before with
  | nil => rfl
  | cons c s ih =>
    obtain ⟨⟨ho, hc⟩, hs⟩ := (braceless_append (s := [c]) (t := s)).mp h |>.imp_left braceless_singleton.mp
    rw [List.cons_append, scan_zero_char _ _ _ ho hc, ih hs]
    simp

theorem ofChars?_eq_some : ofChars? s = some cut ↔ cut.Cuts s := by
  constructor
  · intro h
    exact cuts_of_scan h Braceless.nil nofun
  · obtain ⟨spans, tail⟩ := cut
    rintro ⟨rfl, hliteral, hinside, htail⟩
    induction spans with
    | nil =>
      have hscan := scan_braceless htail [] [] []
      simpa [ofChars?, toChars, scan] using hscan
    | cons span spans ih =>
      obtain ⟨hb, hliteral⟩ := List.forall_mem_cons.mp hliteral
      obtain ⟨hi, hinside⟩ := List.forall_mem_cons.mp hinside
      have hrest := ih hliteral hinside htail
      have htext : (⟨span :: spans, tail⟩ : Cut).toChars =
          span.1 ++ '{' :: (span.2 ++ '}' :: (⟨spans, tail⟩ : Cut).toChars) := by simp [toChars]
      rw [ofChars?] at hrest ⊢
      rw [htext, scan_braceless hb, scan_zero_open, scan_leads hi, scan_one_close, hrest]
      simp

theorem Cuts.unique {cut' : Cut} (h : cut.Cuts s) (h' : cut'.Cuts s) : cut = cut' :=
  Option.some_inj.mp ((ofChars?_eq_some.mpr h).symm.trans (ofChars?_eq_some.mpr h'))

theorem exists_cuts_iff : (∃ cut : Cut, cut.Cuts s) ↔ Balanced s := by
  simp only [← ofChars?_eq_some, ← ofChars?_isSome, Option.isSome_iff_exists]

section Octets

/-- Counts the braces from octet `i` on, with `depth` of them open, the outermost one at `start`: where each span
begins, and where it has ended. -/
def octetSpans : Nat → Nat → Nat → List UInt8 → Option (List (Nat × Nat))
  | 0, _, _, [] => some []
  | _ + 1, _, _, [] => none
  | depth, start, i, b :: bs =>
    if b = 123 then octetSpans (depth + 1) (if depth = 0 then i else start) (i + 1) bs
    else if b = 125 then
      match depth with
      | 0 => none
      | 1 => (octetSpans 0 start (i + 1) bs).map ((start, i + 1) :: ·)
      | depth + 2 => octetSpans (depth + 1) start (i + 1) bs
    else octetSpans depth start (i + 1) bs

/-- The offsets of spans in a text that begins at octet `i`. -/
def offsets (i : Nat) : List (List Char × List Char) → List (Nat × Nat)
  | [] => []
  | (before, span) :: rest =>
    (i + octets before, i + octets before + octets span + 2) ::
      offsets (i + octets before + octets span + 2) rest

theorem octetSpans_append {bs : List UInt8} (h : ∀ b ∈ bs, b ≠ 123 ∧ b ≠ 125) (depth start i : Nat)
    (more : List UInt8) :
    octetSpans depth start i (bs ++ more) = octetSpans depth start (i + bs.length) more := by
  induction bs generalizing i with
  | nil => rfl
  | cons b bs ih =>
    obtain ⟨⟨ho, hc⟩, hbs⟩ := List.forall_mem_cons.mp h
    rw [List.cons_append, List.length_cons, Nat.add_comm bs.length, ← Nat.add_assoc, ← ih hbs]
    cases depth <;> simp [octetSpans, ho, hc]

theorem encodeChar_braceless {c : Char} (ho : c ≠ '{') (hc : c ≠ '}') :
    ∀ b ∈ Utf8.encodeChar c, b ≠ 123 ∧ b ≠ 125 := by
  intro b hb
  constructor
  · rintro rfl
    exact ho (Char.toNat_inj.mp (Utf8.toNat_of_mem_encodeChar hb (by decide)))
  · rintro rfl
    exact hc (Char.toNat_inj.mp (Utf8.toNat_of_mem_encodeChar hb (by decide)))

theorem octetSpans_scan (i start : Nat) (hstart : depth ≠ 0 → start = i + octets before.reverse) :
    octetSpans depth start (i + octets (readBefore depth before inside)) (Utf8.encode s) =
      (scan depth before inside s).map fun cut => offsets i cut.spans := by
  induction s generalizing depth before inside i start with
  | nil => cases depth <;> rfl
  | cons c s ih =>
    have htext : Utf8.encode (c :: s) = Utf8.encodeChar c ++ Utf8.encode s := rfl
    have hopen : Utf8.encodeChar '{' = [123] := rfl
    have hclose : Utf8.encodeChar '}' = [125] := rfl
    by_cases ho : c = '{'
    · subst ho
      rw [htext, hopen]
      cases depth with
      | zero =>
        have hrest := @ih 1 before [] i (i + octets before.reverse) fun _ => rfl
        simpa [octetSpans, readBefore, Nat.add_assoc] using hrest
      | succ depth =>
        have hrest := @ih (depth + 2) before ('{' :: inside) i start fun _ => hstart (by omega)
        simpa [octetSpans, readBefore, Nat.add_assoc] using hrest
    · by_cases hc : c = '}'
      · subst hc
        rw [htext, hclose]
        match depth with
        | 0 => rfl
        | 1 =>
          have hplace := hstart (by omega)
          have hrest := @ih 0 [] [] (i + octets before.reverse + octets inside.reverse + 2) start nofun
          have hend : i + octets (readBefore 1 before inside) + 1 =
              i + octets before.reverse + octets inside.reverse + 2 := by
            simp [readBefore]
            omega
          rw [readBefore, List.reverse_nil, octets_nil, Nat.add_zero] at hrest
          rw [scan_one_close, Option.map_map]
          show (octetSpans 0 start (i + octets (readBefore 1 before inside) + 1) (Utf8.encode s)).map _ = _
          rw [hend, hrest, Option.map_map, hplace]
          rfl
        | depth + 2 =>
          have hrest := @ih (depth + 1) before ('}' :: inside) i start fun _ => hstart (by omega)
          simpa [octetSpans, readBefore, Nat.add_assoc] using hrest
      · have hlength : ∀ w : List Char, octets (w ++ [c]) = octets w + (Utf8.encodeChar c).length := by
          intro w
          rw [octets_append, octets_cons, octets_nil, Nat.add_zero]
        rw [htext, octetSpans_append (encodeChar_braceless ho hc)]
        cases depth with
        | zero =>
          rw [scan_zero_char _ _ _ ho hc, ← @ih 0 (c :: before) inside i start nofun]
          rw [readBefore, readBefore, List.reverse_cons, hlength, Nat.add_assoc]
        | succ depth =>
          rw [scan_succ_char _ _ _ _ ho hc, ← @ih (depth + 1) before (c :: inside) i start hstart]
          simp [readBefore, octets_append, octets_cons, Nat.add_assoc]

theorem octetSpans_encode (s : List Char) :
    octetSpans 0 0 0 (Utf8.encode s) = (ofChars? s).map fun cut => offsets 0 cut.spans :=
  @octetSpans_scan 0 [] [] s 0 0 nofun

/-- The octets of a text from `i` up to `j` are those of the characters `w` in it. -/
def Slice (text : List Char) (i j : Nat) (w : List Char) : Prop :=
  ∃ a b, text = a ++ w ++ b ∧ i = octets a ∧ j = octets (a ++ w)

theorem Slice.encode {text w : List Char} {i j : Nat} (h : Slice text i j w) :
    i ≤ j ∧ j ≤ octets text ∧ ((Utf8.encode text).take j).drop i = Utf8.encode w := by
  obtain ⟨a, b, rfl, rfl, rfl⟩ := h
  have htext : Utf8.encode (a ++ w ++ b) = Utf8.encode (a ++ w) ++ Utf8.encode b := List.flatMap_append
  have hfront : Utf8.encode (a ++ w) = Utf8.encode a ++ Utf8.encode w := List.flatMap_append
  refine ⟨by simp, by simp, ?_⟩
  rw [octets, octets, htext, List.take_left, hfront, List.drop_left]

/-- From octet `i` on a text is sliced at the offsets of its spans into literal texts, what is inside the spans, and
the last literal text. -/
def Sliced (text : List Char) : Nat → List (Nat × Nat) → List (List Char × List Char) → List Char → Prop
  | i, [], [], tail => Slice text i (octets text) tail
  | i, (start, stop) :: offsets, (before, span) :: spans, tail =>
    Slice text i start before ∧ Slice text (start + 1) (stop - 1) span ∧ Sliced text stop offsets spans tail
  | _, _, _, _ => False

theorem sliced_offsets (front : List Char) (cut : Cut) :
    Sliced (front ++ cut.toChars) (octets front) (offsets (octets front) cut.spans) cut.spans cut.tail := by
  obtain ⟨spans, tail⟩ := cut
  induction spans generalizing front with
  | nil => exact ⟨front, [], by simp [toChars], rfl, by simp [toChars]⟩
  | cons span spans ih =>
    obtain ⟨before, span⟩ := span
    let rest := (⟨spans, tail⟩ : Cut).toChars
    have htext : front ++ (⟨(before, span) :: spans, tail⟩ : Cut).toChars =
        (front ++ before ++ '{' :: span ++ ['}']) ++ rest := by simp [rest, toChars]
    have hstop : octets (front ++ before ++ '{' :: span ++ ['}']) =
        octets front + octets before + octets span + 2 := by
      simp
      omega
    have hrest := ih (front ++ before ++ '{' :: span ++ ['}'])
    rw [hstop] at hrest
    rw [htext]
    refine ⟨⟨front, '{' :: span ++ ['}'] ++ rest, by simp, rfl, by simp⟩, ?_, hrest⟩
    exact ⟨front ++ before ++ ['{'], '}' :: rest, by simp, by simp [Nat.add_assoc], by simp; omega⟩

end Octets

end Cut

end RequestRouter
