import Mathlib.Data.List.Basic
import Mathlib.Data.List.Induction
import RequestRouter.Path
import RequestRouter.Proofs.Text.Coding
/-!
Canonical paths. Cleaning gives a canonical path and leaves canonical paths alone. A canonical path keeps that
with or without a final slash, also when its segments are encoded.
-/
namespace RequestRouter.Path

open RequestRouter.Text

def IsSegment (s : List Char) : Prop := s ≠ [] ∧ s ≠ ['.'] ∧ s ≠ ['.', '.'] ∧ '/' ∉ s

def Rooted (s : List Char) : Prop := s = [] ∨ s.head? = some '/'

theorem Rooted.head_eq {c : Char} {s : List Char} (h : Rooted (c :: s)) : c = '/' := by
  rcases h with h | h
  · cases h
  · exact Option.some.inj h

theorem Rooted.append {s t : List Char} (hs : Rooted s) (ht : Rooted t) : Rooted (s ++ t) := by
  rcases hs with rfl | hs
  · exact ht
  · refine .inr ?_
    rw [List.head?_append, hs]
    rfl

theorem Rooted.mono {s t : List Char} (h : s <+: t) (ht : Rooted t) : Rooted s := by
  obtain ⟨rest, rfl⟩ := h
  cases s with
  | nil => exact .inl rfl
  | cons c s =>
    rcases ht with ht | ht
    · cases ht
    · exact .inr ht

section Segments

variable {segs kept read : List (List Char)} {s : List Char}

/-- The pieces of a path have no slash and only characters of the path. -/
theorem mem_splitOn {path : List Char} (h : s ∈ path.splitOn '/') : '/' ∉ s ∧ ∀ c ∈ s, c ∈ path := by
  induction path generalizing s with
  | nil =>
    rw [List.splitOn_nil, List.mem_singleton] at h
    simp [h]
  | cons d path ih =>
    rw [List.splitOn_cons_eq_if_modifyHead] at h
    obtain ⟨first, rest, hsplit⟩ := List.exists_cons_of_ne_nil (List.splitOn_ne_nil '/' path)
    rw [hsplit] at h ih
    have hmore : s ∈ first :: rest → '/' ∉ s ∧ ∀ c ∈ s, c ∈ d :: path := fun hs =>
      ⟨(ih hs).1, fun c hc => List.mem_cons_of_mem _ ((ih hs).2 c hc)⟩
    split at h
    · rcases List.mem_cons.mp h with rfl | h
      · simp
      · exact hmore h
    · rename_i hd
      rcases List.mem_cons.mp h with rfl | h
      · obtain ⟨hslash, hmem⟩ := ih (List.mem_cons_self (a := first))
        have hne : '/' ≠ d := fun heq => hd (by simp [← heq])
        refine ⟨List.not_mem_cons_of_ne_of_not_mem hne hslash, fun c hc => ?_⟩
        rcases List.mem_cons.mp hc with rfl | hc
        · exact List.mem_cons_self
        · exact List.mem_cons_of_mem _ (hmem c hc)
      · exact hmore (List.mem_cons_of_mem _ h)

theorem step_segment (h : IsSegment s) : step kept s = s :: kept := by
  rw [step, if_neg (not_or.mpr ⟨h.1, h.2.1⟩), if_neg h.2.2.1]

theorem mem_step {k : List Char} (h : k ∈ step kept s) :
    k ∈ kept ∨ k = s ∧ k ≠ [] ∧ k ≠ ['.'] ∧ k ≠ ['.', '.'] := by
  unfold step at h
  split at h
  · exact .inl h
  · rename_i hdrop
    split at h
    · exact .inl (List.mem_of_mem_tail h)
    · rename_i hup
      rw [not_or] at hdrop
      rcases List.mem_cons.mp h with rfl | h
      · exact .inr ⟨rfl, hdrop.1, hdrop.2, hup⟩
      · exact .inl h

theorem mem_foldl_step {k : List Char} (h : k ∈ read.foldl step kept) :
    k ∈ kept ∨ k ∈ read ∧ k ≠ [] ∧ k ≠ ['.'] ∧ k ≠ ['.', '.'] := by
  induction read generalizing kept with
  | nil => exact .inl h
  | cons s read ih =>
    rcases ih h with h | ⟨hmem, hk⟩
    · rcases mem_step h with h | ⟨rfl, hk⟩
      · exact .inl h
      · exact .inr ⟨List.mem_cons_self, hk⟩
    · exact .inr ⟨List.mem_cons_of_mem _ hmem, hk⟩

/-- What remains of a path are segments of a canonical one, made of characters of the path. -/
theorem mem_segments {path : List Char} (h : s ∈ segments path) : IsSegment s ∧ ∀ c ∈ s, c ∈ path := by
  rcases mem_foldl_step (List.mem_reverse.mp h) with h | ⟨hmem, hnil, hdot, hup⟩
  · exact absurd h List.not_mem_nil
  · obtain ⟨hslash, hchars⟩ := mem_splitOn hmem
    exact ⟨⟨hnil, hdot, hup, hslash⟩, hchars⟩

theorem foldl_step_eq (h : ∀ s ∈ segs, IsSegment s) : segs.foldl step kept = segs.reverse ++ kept := by
  induction segs generalizing kept with
  | nil => rfl
  | cons s segs ih =>
    have hsegs : ∀ t ∈ segs, IsSegment t := fun t ht => h t (List.mem_cons_of_mem _ ht)
    rw [List.foldl_cons, step_segment (h s List.mem_cons_self), ih hsegs, List.reverse_cons,
      List.append_assoc, List.singleton_append]

theorem ofSegments_append (s t : List (List Char)) : ofSegments (s ++ t) = ofSegments s ++ ofSegments t :=
  List.flatMap_append

theorem ofSegments_eq_nil : ofSegments segs = [] ↔ segs = [] := by
  cases segs <;> simp [ofSegments]

theorem splitOn_ofSegments (h : ∀ s ∈ segs, '/' ∉ s) : (ofSegments segs).splitOn '/' = [] :: segs := by
  induction segs using List.reverseRecOn with
  | nil => rfl
  | append_singleton segs s ih =>
    rw [ofSegments_append, show ofSegments [s] = '/' :: s by simp [ofSegments], List.splitOn_append_cons_self,
      ih fun t ht => h t (List.mem_append_left _ ht), List.splitOn_eq_singleton (h s (by simp))]
    rfl

theorem splitOn_append_slash (path : List Char) : (path ++ ['/']).splitOn '/' = path.splitOn '/' ++ [[]] :=
  List.splitOn_append_cons_self path []

theorem segments_ofSegments (h : ∀ s ∈ segs, IsSegment s) : segments (ofSegments segs) = segs := by
  rw [segments, splitOn_ofSegments fun s hs => (h s hs).2.2.2, List.foldl_cons, foldl_step_eq h]
  simp [step]

theorem segments_append_slash (path : List Char) : segments (path ++ ['/']) = segments path := by
  rw [segments, splitOn_append_slash, List.foldl_append]
  simp [step, segments]

theorem getLast?_ofSegments (h : ∀ s ∈ segs, IsSegment s) : (ofSegments segs).getLast? ≠ some '/' := by
  induction segs using List.reverseRecOn with
  | nil => simp [ofSegments]
  | append_singleton segs s _ =>
    obtain ⟨hne, -, -, hslash⟩ := h s (by simp)
    rw [ofSegments_append, show ofSegments [s] = ['/'] ++ s by simp [ofSegments], ← List.append_assoc,
      List.getLast?_append_of_ne_nil _ hne]
    exact fun hlast => hslash (List.mem_of_getLast? hlast)

end Segments

section Canonical

variable {path : List Char}

theorem canonical_iff : Canonical path ↔ path = ['/'] ∨
    ∃ segs, segs ≠ [] ∧ (∀ s ∈ segs, IsSegment s) ∧
      (path = ofSegments segs ∨ path = ofSegments segs ++ ['/']) := Iff.rfl

theorem canonical_cleanChars (path : List Char) : Canonical (cleanChars path) := by
  have hsegs : ∀ s ∈ segments path, IsSegment s := fun _ hs => (mem_segments hs).1
  by_cases hnil : segments path = []
  · refine .inl ?_
    simp [cleanChars, hnil, ofSegments]
  · refine .inr ⟨segments path, hnil, hsegs, ?_⟩
    rw [cleanChars]
    split
    · exact .inr rfl
    · exact .inl rfl

theorem cleanChars_of_canonical (h : Canonical path) : cleanChars path = path := by
  rcases canonical_iff.mp h with rfl | ⟨segs, hne, hsegs, rfl | rfl⟩
  · rfl
  · have hopen : ¬ (ofSegments segs = [] ∨ (ofSegments segs).getLast? = some '/') :=
      not_or.mpr ⟨mt ofSegments_eq_nil.mp hne, getLast?_ofSegments hsegs⟩
    rw [cleanChars, segments_ofSegments hsegs, if_neg hopen]
  · rw [cleanChars, segments_append_slash, segments_ofSegments hsegs, if_pos (by simp)]

theorem cleanChars_eq_iff : cleanChars path = path ↔ Canonical path :=
  ⟨fun h => h ▸ canonical_cleanChars path, cleanChars_of_canonical⟩

theorem mem_cleanChars {c : Char} (h : c ∈ cleanChars path) : c = '/' ∨ c ∈ path := by
  have hbody : c ∈ ofSegments (segments path) → c = '/' ∨ c ∈ path := by
    intro h
    obtain ⟨s, hs, hc⟩ := List.mem_flatMap.mp h
    rcases List.mem_cons.mp hc with rfl | hc
    · exact .inl rfl
    · exact .inr ((mem_segments hs).2 c hc)
  rw [cleanChars] at h
  split at h
  · rcases List.mem_append.mp h with h | h
    · exact hbody h
    · exact .inl (List.mem_singleton.mp h)
  · exact hbody h

theorem Canonical.append_slash (h : Canonical path) (hlast : path.getLast? ≠ some '/') :
    Canonical (path ++ ['/']) := by
  rcases canonical_iff.mp h with rfl | ⟨segs, hne, hsegs, rfl | rfl⟩
  · exact absurd rfl hlast
  · exact .inr ⟨segs, hne, hsegs, .inr rfl⟩
  · exact absurd (by simp) hlast

/-- Apart from the root, a canonical path with a final slash is one without it and the slash. -/
theorem Canonical.eq_append_slash (h : Canonical path) (hlast : path.getLast? = some '/')
    (hroot : path ≠ ['/']) :
    ∃ base, path = base ++ ['/'] ∧ Canonical base ∧ base.getLast? ≠ some '/' := by
  rcases canonical_iff.mp h with rfl | ⟨segs, hne, hsegs, rfl | rfl⟩
  · exact absurd rfl hroot
  · exact absurd hlast (getLast?_ofSegments hsegs)
  · exact ⟨ofSegments segs, rfl, .inr ⟨segs, hne, hsegs, .inl rfl⟩, getLast?_ofSegments hsegs⟩

theorem clean_of_canonical {path : String} (h : Canonical path.toList) : clean path = path := by
  rw [clean, cleanChars_of_canonical h, String.ofList_toList]

theorem canonical_clean (path : String) : Canonical (clean path).toList := by
  rw [clean, String.toList_ofList]
  exact canonical_cleanChars path.toList

end Canonical

section Coding

theorem toList_append_slash (text : String) : (text ++ "/").toList = text.toList ++ ['/'] :=
  String.toList_append

def encodePathChar (c : Char) : List Char := if c = '/' then ['/'] else Percent.encodeChar c

theorem encodeChars_eq (path : List Char) : encodeChars path = path.flatMap encodePathChar := by
  induction path with
  | nil => rfl
  | cons c path ih =>
    obtain ⟨first, rest, hsplit⟩ := List.exists_cons_of_ne_nil (List.splitOn_ne_nil '/' path)
    rw [encodeChars, hsplit] at ih
    rw [List.flatMap_cons, ← ih, encodeChars, List.splitOn_cons_eq_if_modifyHead, hsplit, encodePathChar]
    by_cases hc : c = '/'
    · simp [hc, Percent.encode, List.intercalate_cons_cons]
    · cases rest <;> simp [hc, Percent.encode, List.intercalate_cons_cons]

theorem encodeChars_append (s t : List Char) : encodeChars (s ++ t) = encodeChars s ++ encodeChars t := by
  simp only [encodeChars_eq, List.flatMap_append]

theorem encode_append_slash (path : String) : encode (path ++ "/") = encode path ++ "/" := by
  rw [encode, toList_append_slash, encodeChars_append, String.ofList_append, ← encode]
  rfl

theorem getLast?_encodeChars (path : List Char) :
    (encodeChars path).getLast? = some '/' ↔ path.getLast? = some '/' := by
  induction path using List.reverseRecOn with
  | nil => simp [encodeChars_eq]
  | append_singleton path c _ =>
    rw [encodeChars_append, encodeChars_eq [c], List.flatMap_singleton, encodePathChar]
    split
    · rename_i hc
      simp [hc]
    · rename_i hc
      rw [List.getLast?_append_of_ne_nil _ (Percent.encodeChar_ne_nil c), List.getLast?_concat]
      refine iff_of_false (fun hlast => ?_) (by simpa using hc)
      have hmem : '/' ∈ Percent.encode [c] := by
        rw [Percent.encode, List.flatMap_singleton]
        exact List.mem_of_getLast? hlast
      exact Percent.not_mem_encode (by decide) (by decide) hmem

theorem decode_append_slash (path : String) : decode (path ++ "/") = decode path ++ "/" := by
  have hchars : decodeChars (path.toList ++ ['/']) = decodeChars path.toList ++ ['/'] := by
    rw [decodeChars, Percent.decode?_append_slash, decodeChars]
    cases Percent.decode? path.toList <;> rfl
  rw [decode, toList_append_slash, hchars, String.ofList_append]
  rfl

end Coding

end RequestRouter.Path
