import RequestRouter.Proofs.Regex.Parts
/-!
The words that expressions without conditions accept. Every operator of expressions is an operation on sets of words:
sequence is concatenation, and repetition takes any number of words one after the other.
-/
namespace RequestRouter.Regex.Expr

variable {e f : Pattern} {es fs : List Pattern} {s : CharSet} {w : List Char} {n : Nat} {g : Bool}

theorem accepts_empty : (empty : Pattern).Accepts w ↔ w = [] := by
  constructor
  · intro h
    cases h
    rfl
  · rintro rfl
    exact .empty

theorem accepts_one : (one s : Pattern).Accepts w ↔ ∃ c, w = [c] ∧ s.mem c = true := by
  constructor
  · intro h
    cases h with
    | one hc => exact ⟨_, rfl, hc⟩
  · rintro ⟨c, rfl, hc⟩
    exact .one hc

theorem accepts_seq (he : e.lookFree = true) (hf : f.lookFree = true) :
    (seq e f).Accepts w ↔ ∃ u v, w = u ++ v ∧ e.Accepts u ∧ f.Accepts v := by
  constructor
  · intro h
    cases h with
    | seq hu hv => exact ⟨_, _, rfl, (matches_iff_accepts he).mp hu, (matches_iff_accepts hf).mp hv⟩
  · rintro ⟨u, v, rfl, hu, hv⟩
    exact .seq ((matches_iff_accepts he).mpr hu) ((matches_iff_accepts hf).mpr hv)

theorem accepts_upTo_zero : (upTo e 0 g).Accepts w ↔ w = [] := by
  constructor
  · intro h
    cases h
    rfl
  · rintro rfl
    exact .upToStop

theorem accepts_upTo_succ (he : e.lookFree = true) :
    (upTo e (n + 1) g).Accepts w ↔ w = [] ∨ ∃ u v, w = u ++ v ∧ e.Accepts u ∧ (upTo e n g).Accepts v := by
  constructor
  · intro h
    cases h with
    | upToStop => exact .inl rfl
    | upToMore hu hv =>
      exact .inr ⟨_, _, rfl, (matches_iff_accepts he).mp hu, (matches_iff_accepts (e := upTo e n g) he).mp hv⟩
  · rintro (rfl | ⟨u, v, rfl, hu, hv⟩)
    · exact .upToStop
    · exact .upToMore ((matches_iff_accepts he).mpr hu) ((matches_iff_accepts (e := upTo e n g) he).mpr hv)

theorem Matches.exists_words {b a : Option Char} (h : Matches (plus e g) b w a) (he : e.lookFree = true) :
    ∃ ws : List (List Char), ws ≠ [] ∧ w = ws.flatten ∧ ∀ u ∈ ws, e.Accepts u := by
  generalize hx : plus e g = x at h
  induction h with
  | plusOnce h =>
    cases hx
    exact ⟨[_], List.cons_ne_nil _ _, by simp, List.forall_mem_singleton.mpr ((matches_iff_accepts he).mp h)⟩
  | plusMore hu _ _ ih =>
    cases hx
    obtain ⟨ws, -, rfl, hws⟩ := ih rfl
    exact ⟨_ :: ws, List.cons_ne_nil _ _, rfl, List.forall_mem_cons.mpr ⟨(matches_iff_accepts he).mp hu, hws⟩⟩
  | _ => cases hx

theorem accepts_plus (he : e.lookFree = true) :
    (plus e g).Accepts w ↔ ∃ ws : List (List Char), ws ≠ [] ∧ w = ws.flatten ∧ ∀ u ∈ ws, e.Accepts u := by
  constructor
  · exact fun h => h.exists_words he
  · rintro ⟨ws, hne, rfl, hws⟩
    induction ws with
    | nil => exact absurd rfl hne
    | cons u ws ih =>
      obtain ⟨hu, hws⟩ := List.forall_mem_cons.mp hws
      by_cases hnil : ws = []
      · rw [hnil, List.flatten_singleton]
        exact .plusOnce hu
      · have hrest := ih hnil hws
        exact .plusMore ((matches_iff_accepts he).mpr hu) ((matches_iff_accepts (e := plus e g) he).mpr hrest)

theorem accepts_star_iff (he : e.lookFree = true) :
    (copies e 0 none g).Accepts w ↔ ∃ ws : List (List Char), w = ws.flatten ∧ ∀ u ∈ ws, e.Accepts u := by
  rw [copies, accepts_upTo_succ (e := plus e g) he]
  simp only [accepts_upTo_zero, accepts_plus he]
  constructor
  · rintro (rfl | ⟨u, _, rfl, ⟨ws, -, rfl, hws⟩, rfl⟩)
    · exact ⟨[], rfl, List.forall_mem_nil _⟩
    · exact ⟨ws, List.append_nil _, hws⟩
  · rintro ⟨ws, rfl, hws⟩
    by_cases hnil : ws = []
    · exact .inl (by rw [hnil, List.flatten_nil])
    · exact .inr ⟨ws.flatten, [], (List.append_nil _).symm, ⟨ws, hnil, rfl, hws⟩, rfl⟩

theorem accepts_star_one : (copies (one s : Pattern) 0 none g).Accepts w ↔ ∀ c ∈ w, s.mem c = true := by
  rw [accepts_star_iff rfl]
  simp only [accepts_one]
  constructor
  · rintro ⟨ws, rfl, hws⟩ c hc
    obtain ⟨u, hu, hcu⟩ := List.mem_flatten.mp hc
    obtain ⟨d, rfl, hd⟩ := hws u hu
    rwa [List.mem_singleton.mp hcu]
  · intro hw
    exact ⟨w.map fun c => [c], (List.flatMap_singleton' w).symm, List.forall_mem_map.mpr fun c hc => ⟨c, rfl, hw c hc⟩⟩

theorem accepts_copies_some (he : e.lookFree = true) : (copies e 0 (some n) g).Accepts w ↔ (upTo e n g).Accepts w := by
  rw [copies, Nat.sub_zero, accepts_seq (e := times e 0) (f := upTo e n g) he he]
  constructor
  · rintro ⟨_, v, rfl, ⟨⟩, hv⟩
    exact hv
  · exact fun h => ⟨[], w, rfl, .timesZero, h⟩

theorem accepts_optional (he : e.lookFree = true) :
    (copies e 0 (some 1) g).Accepts w ↔ w = [] ∨ e.Accepts w := by
  rw [accepts_copies_some he, accepts_upTo_succ he]
  simp only [accepts_upTo_zero]
  refine or_congr_right ⟨?_, fun h => ⟨w, [], (List.append_nil w).symm, h, rfl⟩⟩
  rintro ⟨u, _, rfl, hu, rfl⟩
  rwa [List.append_nil]

theorem accepts_copies_one :
    (copies (one s : Pattern) 0 (some n) g).Accepts w ↔ w.length ≤ n ∧ ∀ c ∈ w, s.mem c = true := by
  rw [accepts_copies_some rfl]
  induction n generalizing w with
  | zero =>
    rw [accepts_upTo_zero, Nat.le_zero, List.length_eq_zero_iff]
    exact ⟨fun h => ⟨h, by simp [h]⟩, And.left⟩
  | succ n ih =>
    rw [accepts_upTo_succ rfl]
    simp only [ih, accepts_one]
    constructor
    · rintro (rfl | ⟨_, v, rfl, ⟨c, rfl, hc⟩, hlen, hv⟩)
      · exact ⟨Nat.zero_le _, List.forall_mem_nil _⟩
      · exact ⟨Nat.succ_le_succ hlen, List.forall_mem_cons.mpr ⟨hc, hv⟩⟩
    · rintro ⟨hlen, hw⟩
      cases w with
      | nil => exact .inl rfl
      | cons c v =>
        obtain ⟨hc, hv⟩ := List.forall_mem_cons.mp hw
        exact .inr ⟨[c], v, rfl, ⟨c, rfl, hc⟩, Nat.le_of_succ_le_succ hlen, hv⟩

theorem accepts_concat_cons (he : e.lookFree = true) (hes : ∀ f ∈ es, f.lookFree = true) :
    (concat (e :: es)).Accepts w ↔ ∃ u v, w = u ++ v ∧ e.Accepts u ∧ (concat es).Accepts v := by
  cases es with
  | nil =>
    simp only [concat, accepts_empty]
    constructor
    · exact fun h => ⟨w, [], (List.append_nil w).symm, h, rfl⟩
    · rintro ⟨u, _, rfl, hu, rfl⟩
      rwa [List.append_nil]
  | cons f fs => exact accepts_seq he (lookFree_concat hes)

theorem accepts_concat_append (hes : ∀ e ∈ es, e.lookFree = true) (hfs : ∀ f ∈ fs, f.lookFree = true) :
    (concat (es ++ fs)).Accepts w ↔ ∃ u v, w = u ++ v ∧ (concat es).Accepts u ∧ (concat fs).Accepts v := by
  induction es generalizing w with
  | nil =>
    constructor
    · exact fun h => ⟨[], w, rfl, .empty, h⟩
    · rintro ⟨u, v, rfl, hu, hv⟩
      rwa [accepts_empty.mp hu]
  | cons e es ih =>
    obtain ⟨he, hes⟩ := List.forall_mem_cons.mp hes
    have hall : ∀ f ∈ es ++ fs, f.lookFree = true := List.forall_mem_append.mpr ⟨hes, hfs⟩
    rw [List.cons_append, accepts_concat_cons he hall]
    simp only [ih hes, accepts_concat_cons he hes]
    constructor
    · rintro ⟨u, _, rfl, hu, x, v, rfl, hx, hv⟩
      exact ⟨u ++ x, v, (List.append_assoc ..).symm, ⟨u, x, rfl, hu, hx⟩, hv⟩
    · rintro ⟨_, v, rfl, ⟨u, x, rfl, hu, hx⟩, hv⟩
      exact ⟨u, x ++ v, List.append_assoc .., hu, x, v, rfl, hx, hv⟩

end RequestRouter.Regex.Expr
