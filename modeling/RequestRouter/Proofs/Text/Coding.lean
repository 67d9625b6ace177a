import RequestRouter.Path
import RequestRouter.Proofs.Text.Utf8
import RequestRouter.Text.Coding
/-!
Coding and decoding texts for a URL. What is percent-encoded is read back, in a path segment by segment and in
a query parameter by parameter: encoded text holds none of the characters that separate parts.
-/
namespace RequestRouter.Text

theorem isAlphanum_bounds {c : Char} (h : c.isAlphanum = true) : 48 ≤ c.toNat ∧ c.toNat ≤ 122 := by
  rcases Bool.or_eq_true_iff.mp h with h | h
  · rcases Bool.or_eq_true_iff.mp h with h | h
    · have hupper : c.val ≥ 'A'.val ∧ c.val ≤ 'Z'.val := of_decide_eq_true h
      have hlow : 65 ≤ c.toNat := UInt32.le_iff_toNat_le.mp hupper.1
      have hhigh : c.toNat ≤ 90 := UInt32.le_iff_toNat_le.mp hupper.2
      omega
    · have hlower := Bool.and_eq_true_iff.mp h
      have hlow : 97 ≤ c.toNat := UInt32.le_iff_toNat_le.mp (of_decide_eq_true hlower.1)
      have hhigh : c.toNat ≤ 122 := UInt32.le_iff_toNat_le.mp (of_decide_eq_true hlower.2)
      omega
  · have hdigit := Char.isDigit_iff_toNat.mp h
    have hlow : 48 ≤ c.toNat := hdigit.1
    have hhigh : c.toNat ≤ 57 := hdigit.2
    omega

namespace Percent

section Octets

theorem unescape_cons {b : UInt8} (hb : b ≠ 37) (rest : List UInt8) :
    unescape (b :: rest) = b :: unescape rest := by
  match rest with
  | [] => rfl
  | [_] => rfl
  | _ :: _ :: _ => rw [unescape, if_neg hb]

theorem unescape_of_not_mem {bs : List UInt8} (h : 37 ∉ bs) (rest : List UInt8) :
    unescape (bs ++ rest) = bs ++ unescape rest := by
  induction bs with
  | nil => rfl
  | cons b bs ih =>
    rw [List.mem_cons, not_or] at h
    rw [List.cons_append, unescape_cons (Ne.symm h.1), ih h.2]
    rfl

def escaped (b : UInt8) : List UInt8 :=
  [37, UInt8.ofNat (Hex.digit (b.toNat / 16)).toNat, UInt8.ofNat (Hex.digit (b.toNat % 16)).toNat]

theorem pairValue?_escaped (b : UInt8) :
    pairValue? (UInt8.ofNat (Hex.digit (b.toNat / 16)).toNat) (UInt8.ofNat (Hex.digit (b.toNat % 16)).toNat) =
      some b := by
  have hall : ∀ n < 256, pairValue? (UInt8.ofNat (Hex.digit (n / 16)).toNat)
      (UInt8.ofNat (Hex.digit (n % 16)).toNat) = some (UInt8.ofNat n) := by decide +kernel
  rw [hall b.toNat b.toNat_lt, UInt8.ofNat_toNat]

theorem unescape_escaped (b : UInt8) (rest : List UInt8) :
    unescape (escaped b ++ rest) = b :: unescape rest := by
  show unescape (37 :: _ :: _ :: rest) = _
  rw [unescape, if_pos rfl, pairValue?_escaped]

theorem encode_escapeOctet (b : UInt8) : Utf8.encode (escapeOctet b) = escaped b := by
  have hall : ∀ n < 256, Utf8.encode (escapeOctet (UInt8.ofNat n)) = escaped (UInt8.ofNat n) := by
    decide +kernel
  have hb := hall b.toNat b.toNat_lt
  rwa [UInt8.ofNat_toNat] at hb

end Octets

theorem isUnreserved_ascii {c : Char} (h : isUnreserved c = true) : c.toNat < 128 := by
  simp only [isUnreserved, Bool.or_eq_true, beq_iff_eq] at h
  rcases h with (((h | h) | h) | h) | h
  · have hbounds := isAlphanum_bounds h
    omega
  all_goals
    rw [h]
    decide

/-- The encoded text, read as octets, has the octets of the text as its meaning, whatever stands behind it. -/
def Decodes (coded s : List Char) : Prop :=
  ∀ rest, unescape (Utf8.encode coded ++ rest) = Utf8.encode s ++ unescape rest

theorem encode_append (s t : List Char) : Utf8.encode (s ++ t) = Utf8.encode s ++ Utf8.encode t :=
  List.flatMap_append

namespace Decodes

variable {coded coded' s t : List Char}

theorem nil : Decodes [] [] := fun _ => rfl

theorem append (hs : Decodes coded s) (ht : Decodes coded' t) : Decodes (coded ++ coded') (s ++ t) := by
  intro rest
  rw [encode_append, List.append_assoc, hs, ht, encode_append, List.append_assoc]

theorem literal (h : '%' ∉ s) : Decodes s s :=
  unescape_of_not_mem fun hmem => h (Utf8.mem_of_mem_encode hmem (by decide))

theorem escapes (bs : List UInt8) (rest : List UInt8) :
    unescape (Utf8.encode (bs.flatMap escapeOctet) ++ rest) = bs ++ unescape rest := by
  induction bs with
  | nil => rfl
  | cons b bs ih =>
    rw [List.flatMap_cons, encode_append, encode_escapeOctet, List.append_assoc, unescape_escaped, ih]
    rfl

theorem encodeChar (c : Char) : Decodes (Percent.encodeChar c) [c] := by
  unfold Percent.encodeChar
  split
  · rename_i h
    refine literal ?_
    rintro (_ | ⟨_, ⟨⟩⟩)
    exact absurd h (by decide)
  · intro rest
    rw [escapes]
    simp [Utf8.encode]

theorem encode (s : List Char) : Decodes (Percent.encode s) s := by
  induction s with
  | nil => exact nil
  | cons c s ih => exact (encodeChar c).append ih

theorem decode?_eq (h : Decodes coded s) : decode? coded = some s := by
  have hall := h []
  rw [List.append_nil] at hall
  rw [decode?, hall]
  simp [unescape, Utf8.decode?_encode]

end Decodes

end Percent

namespace Percent

theorem mem_escapeOctet {b : UInt8} {c : Char} (h : c ∈ escapeOctet b) : c = '%' ∨ isUnreserved c = true := by
  have hall : ∀ n < 256, (escapeOctet (UInt8.ofNat n)).all (fun c => c == '%' || isUnreserved c) = true := by
    decide +kernel
  have hb := hall b.toNat b.toNat_lt
  rw [UInt8.ofNat_toNat] at hb
  simpa using List.all_eq_true.mp hb c h

theorem mem_encode {s : List Char} {c : Char} (h : c ∈ encode s) : c = '%' ∨ isUnreserved c = true := by
  obtain ⟨d, -, hc⟩ := List.mem_flatMap.mp h
  unfold encodeChar at hc
  split at hc
  · rename_i hd
    rw [List.mem_singleton.mp hc]
    exact .inr hd
  · obtain ⟨b, -, hb⟩ := List.mem_flatMap.mp hc
    exact mem_escapeOctet hb

theorem not_mem_encode {s : List Char} {c : Char} (hc : c ≠ '%') (hu : isUnreserved c = false) :
    c ∉ encode s := by
  intro h
  rcases mem_encode h with h | h
  · exact hc h
  · rw [hu] at h
    exact Bool.noConfusion h

theorem encodeChar_ne_nil (c : Char) : encodeChar c ≠ [] := by
  obtain ⟨b, tail, hb, -⟩ := Utf8.encodeChar_read c
  rw [encodeChar, hb]
  split <;> simp [Percent.escapeOctet]

theorem encode_ne_nil {s : List Char} (h : s ≠ []) : encode s ≠ [] := by
  obtain ⟨c, s, rfl⟩ := List.exists_cons_of_ne_nil h
  exact fun hnil => encodeChar_ne_nil c (List.append_eq_nil_iff.mp hnil).1

/-- An octet that is no digit of an escape stays as it is at the end. -/
theorem unescape_append {c : UInt8} (hc : Hex.value? (Char.ofNat c.toNat) = none) (bs : List UInt8) :
    unescape (bs ++ [c]) = unescape bs ++ [c] := by
  have hpair : ∀ a, pairValue? a c = none := by
    intro a
    simp only [pairValue?, hc]
    split <;> simp_all
  induction bs using unescape.induct with
  | case1 => rfl
  | case2 a b rest x hx ih =>
    simp only [List.cons_append, unescape, hx, ih, if_true]
  | case3 a b rest hx ih =>
    simp only [List.cons_append, unescape, hx, if_true] at ih ⊢
    rw [ih]
  | case4 p a b rest hp ih =>
    simp only [List.cons_append] at ih ⊢
    rw [unescape, if_neg hp, ih, unescape, if_neg hp]
    rfl
  | case5 p rest hrest ih =>
    match rest with
    | [] => rfl
    | [a] =>
      simp only [List.cons_append, List.nil_append, unescape, hpair]
      split <;> rfl
    | a :: b :: rest => exact absurd rfl (hrest a b rest)

theorem decode?_cons_slash (s : List Char) : decode? ('/' :: s) = (decode? s).map ('/' :: ·) := by
  rw [decode?, show Utf8.encode ('/' :: s) = 47 :: Utf8.encode s from rfl, unescape_cons (by decide),
    Utf8.decode?_cons (by decide)]
  rfl

theorem decode?_append_slash (s : List Char) : decode? (s ++ ['/']) = (decode? s).map (· ++ ['/']) := by
  rw [decode?, encode_append, show Utf8.encode ['/'] = [47] from rfl, unescape_append rfl,
    Utf8.decode?_append (by decide)]
  rfl

end Percent

end RequestRouter.Text

namespace RequestRouter.Path

open RequestRouter.Text RequestRouter.Text.Percent

theorem decodes_segments (segs : List (List Char)) :
    Decodes (['/'].intercalate (segs.map Percent.encode)) (['/'].intercalate segs) := by
  induction segs with
  | nil => exact .nil
  | cons seg segs ih =>
    cases segs with
    | nil => simpa using Decodes.encode seg
    | cons next rest =>
      have hslash : Decodes ['/'] ['/'] := .literal (by decide)
      have hall := ((Decodes.encode seg).append hslash).append ih
      simpa [List.intercalate_cons_cons] using hall

theorem decode_encode (path : String) : decode (encode path) = path := by
  have hchars := decodes_segments (path.toList.splitOn '/')
  rw [List.intercalate_splitOn] at hchars
  rw [decode, encode, String.toList_ofList, decodeChars, encodeChars, hchars.decode?_eq, Option.getD_some,
    String.ofList_toList]

end RequestRouter.Path

namespace RequestRouter.Text.Form

open RequestRouter.Text.Percent

theorem decode_of_decodes {coded s : List Char} (h : Percent.Decodes coded s) (hplus : '+' ∉ coded) :
    decode coded = s := by
  have hsame : (Utf8.encode coded).map (fun b => if b = 43 then 32 else b) = Utf8.encode coded := by
    refine (List.map_congr_left fun b hb => if_neg ?_).trans (List.map_id _)
    rintro rfl
    exact hplus (Utf8.mem_of_mem_encode hb (by decide))
  have hall := h []
  rw [List.append_nil] at hall
  rw [decode, hsame, hall]
  simp [unescape, Utf8.decodeLenient_encode]

theorem decode_encode (s : List Char) : decode (Percent.encode s) = s :=
  decode_of_decodes (.encode s) (not_mem_encode (by decide) (by decide))

theorem cut_append {c : Char} {s t : List Char} (h : c ∉ s) : cut c (s ++ c :: t) = (s, some t) := by
  induction s with
  | nil => simp [cut]
  | cons d s ih =>
    rw [List.mem_cons, not_or] at h
    rw [List.cons_append, cut, if_neg (Ne.symm h.1), ih h.2]

theorem cut_of_not_mem {c : Char} {s : List Char} (h : c ∉ s) : cut c s = (s, none) := by
  induction s with
  | nil => rfl
  | cons d s ih =>
    rw [List.mem_cons, not_or] at h
    rw [cut, if_neg (Ne.symm h.1), ih h.2]

theorem equals_not_mem_encode (s : List Char) : '=' ∉ Percent.encode s := not_mem_encode (by decide) (by decide)

theorem pair_encode_cons (key value : List Char) :
    pair (Percent.encode key ++ '=' :: value) = (key, decode value) := by
  rw [pair, cut_append (equals_not_mem_encode key), Option.getD_some, decode_encode]

theorem pair_encode_key (key : List Char) : pair (Percent.encode key) = (key, []) := by
  rw [pair, cut_of_not_mem (equals_not_mem_encode key), decode_encode]
  rfl

theorem pair_encode (key value : List Char) :
    pair (Percent.encode key ++ '=' :: Percent.encode value) = (key, value) := by
  rw [pair_encode_cons, decode_encode]

theorem parse_intercalate {parts : List (List Char)} (hne : parts ≠ [])
    (h : ∀ part ∈ parts, '&' ∉ part ∧ part ≠ []) : parse (['&'].intercalate parts) = parts.map pair := by
  have hfull : ∀ part ∈ parts, (!part.isEmpty) = true := by
    intro part hpart
    simpa using (h part hpart).2
  rw [parse, List.splitOn_intercalate _ (fun part hpart => (h part hpart).1) hne, List.filter_eq_self.mpr hfull]

theorem parse_encode (ps : List (List Char × List Char)) (h : ps ≠ []) :
    parse (['&'].intercalate (ps.map fun p => Percent.encode p.1 ++ '=' :: Percent.encode p.2)) = ps := by
  rw [parse_intercalate (by simpa using h), List.map_map]
  · refine (List.map_congr_left fun p _ => pair_encode p.1 p.2).trans ?_
    simp
  · intro part hpart
    obtain ⟨p, -, rfl⟩ := List.mem_map.mp hpart
    refine ⟨fun hmem => ?_, by simp⟩
    rcases List.mem_append.mp hmem with hm | hm
    · exact not_mem_encode (by decide) (by decide) hm
    · rcases List.mem_cons.mp hm with hm | hm
      · cases hm
      · exact not_mem_encode (by decide) (by decide) hm

end RequestRouter.Text.Form
