import RequestRouter.Proofs.Path.Clean
/-!
Cleaning a path as reading it. What stands between the slashes of a path is read from left to right onto a stack;
the cleaned path is the one that spells this stack, with a final slash if the path has one or the stack is empty.
Cleaning in parts comes to the same as cleaning at once.
-/
namespace RequestRouter.Path

/-- Pieces of a path, read from left to right, leave a stack of segments with the last one on top: empty pieces and
`.` are dropped, and `..` takes the top away if there is one. -/
inductive Stacks : List (List Char) → List (List Char) → Prop where
  | nil : Stacks [] []
  | drop {pieces stack s} (h : Stacks pieces stack) (hs : s = [] ∨ s = ['.']) : Stacks (pieces ++ [s]) stack
  | up {pieces stack} (h : Stacks pieces stack) : Stacks (pieces ++ [['.', '.']]) stack.dropLast
  | push {pieces stack s} (h : Stacks pieces stack) (hs : s ≠ [] ∧ s ≠ ['.'] ∧ s ≠ ['.', '.']) :
    Stacks (pieces ++ [s]) (stack ++ [s])

/-- A path in canonical form, by the pieces between its slashes: it begins with a slash, no piece behind that is empty
except possibly the last one, and none is `.` or `..`. -/
def Tidy (path : List Char) : Prop :=
  ∃ pieces, pieces ≠ [] ∧ path.splitOn '/' = [] :: pieces ∧ (∀ s ∈ pieces.dropLast, s ≠ []) ∧
    ∀ s ∈ pieces, s ≠ ['.'] ∧ s ≠ ['.', '.']

variable {path other rest : List Char} {pieces stack : List (List Char)}

section Stack

theorem Stacks.step (h : Stacks pieces stack) (s : List Char) :
    Stacks (pieces ++ [s]) (Path.step stack.reverse s).reverse := by
  unfold Path.step
  split
  · rename_i hdrop
    rw [List.reverse_reverse]
    exact h.drop hdrop
  · rename_i hkeep
    split
    · rename_i hup
      rw [hup, List.tail_reverse, List.reverse_reverse]
      exact h.up
    · rename_i hup
      rw [List.reverse_cons, List.reverse_reverse]
      exact h.push ⟨fun hs => hkeep (.inl hs), fun hs => hkeep (.inr hs), hup⟩

theorem stacks_foldl (pieces : List (List Char)) : Stacks pieces (pieces.foldl Path.step []).reverse := by
  induction pieces using List.reverseRecOn with
  | nil => exact .nil
  | append_singleton pieces s ih =>
    have hstep := ih.step s
    rwa [List.reverse_reverse, ← List.foldl_concat Path.step] at hstep

theorem Stacks.eq_foldl (h : Stacks pieces stack) : stack = (pieces.foldl Path.step []).reverse := by
  induction h with
  | nil => rfl
  | drop _ hs ih => rw [List.foldl_concat, Path.step, if_pos hs, ih]
  | up _ ih => rw [List.foldl_concat, Path.step, if_neg (by simp), if_pos rfl, ih, List.dropLast_reverse]
  | push _ hs ih =>
    rw [List.foldl_concat, Path.step, if_neg (not_or.mpr ⟨hs.1, hs.2.1⟩), if_neg hs.2.2, List.reverse_cons, ih]

theorem stacks_splitOn_iff : Stacks (path.splitOn '/') stack ↔ stack = segments path :=
  ⟨Stacks.eq_foldl, fun h => h ▸ stacks_foldl _⟩

end Stack

section Pieces

theorem eq_of_splitOn_eq (h : path.splitOn '/' = other.splitOn '/') : path = other :=
  calc path = ['/'].intercalate (path.splitOn '/') := (List.intercalate_splitOn '/').symm
    _ = ['/'].intercalate (other.splitOn '/') := by rw [h]
    _ = other := List.intercalate_splitOn '/'

theorem tidy_of_segments {segs : List (List Char)} (hsegs : ∀ s ∈ segs, IsSegment s) (hne : segs ≠ []) :
    Tidy (ofSegments segs) := by
  refine ⟨segs, hne, splitOn_ofSegments fun s hs => (hsegs s hs).2.2.2, fun s hs => ?_, fun s hs => ?_⟩
  · exact (hsegs s (List.dropLast_subset _ hs)).1
  · exact ⟨(hsegs s hs).2.1, (hsegs s hs).2.2.1⟩

theorem tidy_of_segments_slash {segs : List (List Char)} (hsegs : ∀ s ∈ segs, IsSegment s) :
    Tidy (ofSegments segs ++ ['/']) := by
  refine ⟨segs ++ [[]], by simp, ?_, fun s hs => ?_, fun s hs => ?_⟩
  · rw [splitOn_append_slash, splitOn_ofSegments fun s hs => (hsegs s hs).2.2.2, List.cons_append]
  · rw [List.dropLast_concat] at hs
    exact (hsegs s hs).1
  · rcases List.mem_append.mp hs with hs | hs
    · exact ⟨(hsegs s hs).2.1, (hsegs s hs).2.2.1⟩
    · simp [List.mem_singleton.mp hs]

theorem tidy_iff_canonical : Tidy path ↔ Canonical path := by
  constructor
  · rintro ⟨pieces, hne, hsplit, hfull, hdots⟩
    obtain ⟨init, last, rfl⟩ := (List.eq_nil_or_concat' pieces).resolve_left hne
    rw [List.dropLast_concat] at hfull
    have hsegment : ∀ s ∈ init ++ [last], s ≠ [] → IsSegment s := by
      intro s hs hnil
      have hmem : s ∈ path.splitOn '/' := hsplit ▸ List.mem_cons_of_mem _ hs
      exact ⟨hnil, (hdots s hs).1, (hdots s hs).2, (mem_splitOn hmem).1⟩
    have hinit : ∀ s ∈ init, IsSegment s := fun s hs => hsegment s (List.mem_append_left _ hs) (hfull s hs)
    by_cases hlast : last = []
    · have hpath : path = ofSegments init ++ ['/'] := by
        apply eq_of_splitOn_eq
        rw [hsplit, splitOn_append_slash, splitOn_ofSegments fun s hs => (hinit s hs).2.2.2, hlast, List.cons_append]
      by_cases hempty : init = []
      · exact .inl (by rw [hpath, hempty]; rfl)
      · exact .inr ⟨init, hempty, hinit, .inr hpath⟩
    · have hall : ∀ s ∈ init ++ [last], IsSegment s := by
        intro s hs
        rcases List.mem_append.mp hs with hmem | hmem
        · exact hinit s hmem
        · exact hsegment s hs (List.mem_singleton.mp hmem ▸ hlast)
      refine .inr ⟨init ++ [last], hne, hall, .inl (eq_of_splitOn_eq ?_)⟩
      rw [hsplit, splitOn_ofSegments fun s hs => (hall s hs).2.2.2]
  · intro h
    rcases canonical_iff.mp h with rfl | ⟨segs, hne, hsegs, rfl | rfl⟩
    · have hroot : Tidy (ofSegments [] ++ ['/']) := tidy_of_segments_slash (List.forall_mem_nil _)
      exact hroot
    · exact tidy_of_segments hsegs hne
    · exact tidy_of_segments_slash hsegs

end Pieces

section Cleaning

theorem getLast?_cleanChars (path : List Char) :
    (cleanChars path).getLast? = some '/' ↔ path.getLast? = some '/' ∨ segments path = [] := by
  rw [or_comm, ← ofSegments_eq_nil, cleanChars]
  split
  · rename_i h
    exact iff_of_true List.getLast?_concat h
  · rename_i h
    exact iff_of_false (getLast?_ofSegments fun _ hs => (mem_segments hs).1) h

/-- Between the slashes of a cleaned path stand the segments that remain, behind an empty piece at the beginning. -/
theorem splitOn_cleanChars : (cleanChars path).splitOn '/' =
    [] :: (segments path ++ if (cleanChars path).getLast? = some '/' then [[]] else []) := by
  have hsplit : (ofSegments (segments path)).splitOn '/' = [] :: segments path :=
    splitOn_ofSegments fun _ hs => (mem_segments hs).1.2.2.2
  have hlast := getLast?_cleanChars path
  rw [or_comm, ← ofSegments_eq_nil] at hlast
  by_cases h : ofSegments (segments path) = [] ∨ path.getLast? = some '/'
  · rw [if_pos (hlast.mpr h), cleanChars, if_pos h, splitOn_append_slash, hsplit, List.cons_append]
  · rw [if_neg (mt hlast.mp h), cleanChars, if_neg h, hsplit, List.append_nil]

theorem segments_cleanChars : segments (cleanChars path) = segments path := by
  have hbody : segments (ofSegments (segments path)) = segments path :=
    segments_ofSegments fun _ hs => (mem_segments hs).1
  rw [cleanChars]
  split
  · rw [segments_append_slash, hbody]
  · exact hbody

theorem segments_append_cons (path rest : List Char) :
    segments (path ++ '/' :: rest) = ((rest.splitOn '/').foldl step (segments path).reverse).reverse := by
  rw [segments, List.splitOn_append_cons_self, List.foldl_append, segments, List.reverse_reverse]

theorem cleanChars_congr (hsegs : segments path = segments other)
    (hlast : path.getLast? = some '/' ↔ other.getLast? = some '/') : cleanChars path = cleanChars other := by
  simp only [cleanChars, hsegs, hlast]

theorem cleanChars_append_cons (path rest : List Char) :
    cleanChars (cleanChars path ++ '/' :: rest) = cleanChars (path ++ '/' :: rest) := by
  apply cleanChars_congr
  · rw [segments_append_cons, segments_append_cons, segments_cleanChars]
  · rw [List.getLast?_append_of_ne_nil _ (List.cons_ne_nil _ _),
      List.getLast?_append_of_ne_nil _ (List.cons_ne_nil _ _)]

end Cleaning

/-- Cleaning gives the canonical form. The result is in that form; between its slashes stands the stack that the pieces
of the path leave; it ends in a slash exactly if the path does or the stack is empty. The paths that cleaning leaves
alone are those in canonical form, so that cleaning twice is cleaning once, and a path in front of another one may be
cleaned first. -/
theorem clean_canonical_form (p : String) :
    Tidy (clean p).toList ∧
    (∃ stack, Stacks (p.toList.splitOn '/') stack ∧
      (clean p).toList.splitOn '/' =
        [] :: (stack ++ if (clean p).toList.getLast? = some '/' then [[]] else []) ∧
      ((clean p).toList.getLast? = some '/' ↔ p.toList.getLast? = some '/' ∨ stack = [])) ∧
    (clean p = p ↔ Tidy p.toList) ∧
    clean (clean p) = clean p ∧
    ∀ q, clean (p ++ "/" ++ q) = clean (clean p ++ "/" ++ q) := by
  have hchars : (clean p).toList = cleanChars p.toList := String.toList_ofList
  have htidy : Tidy (clean p).toList := tidy_iff_canonical.mpr (canonical_clean p)
  have hfix : ∀ p : String, clean p = p ↔ Tidy p.toList := by
    intro p
    rw [tidy_iff_canonical, ← cleanChars_eq_iff, ← String.toList_inj, clean, String.toList_ofList]
  refine ⟨htidy, ⟨_, stacks_splitOn_iff.mpr rfl, ?_, ?_⟩, hfix p, (hfix _).mpr htidy, fun q => ?_⟩
  · rw [hchars]
    exact splitOn_cleanChars
  · rw [hchars]
    exact getLast?_cleanChars _
  · have happend : ∀ s : String, (s ++ "/" ++ q).toList = s.toList ++ '/' :: q.toList := by
      intro s
      simp
    rw [clean, clean, happend, happend, hchars, cleanChars_append_cons]

end RequestRouter.Path
