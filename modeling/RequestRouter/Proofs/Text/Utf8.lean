import RequestRouter.Text.Utf8
/-!
Reading UTF-8 back: the octets of a text give the text, character by character, whatever octets come behind. An
octet that is a character of its own is read as that character behind any octets.
-/
namespace RequestRouter.Text.Utf8

/-- What holds of the 128 characters of ASCII holds of every character that is an octet of its own. -/
theorem forall_ascii {P : Char → Prop} (h : ∀ n < 128, P (Char.ofNat n)) (c : Char) (hc : c.toNat < 128) : P c :=
  c.ofNat_toNat ▸ h c.toNat hc

section Character

variable {n : Nat} {c : Char} {bs : List UInt8}

theorem toNat_ofNat (h : n < 256) : (UInt8.ofNat n).toNat = n := by
  rw [UInt8.toNat_ofNat', Nat.mod_eq_of_lt h]

theorem readTail_succ {k lo hi acc b : Nat} (hb : b < 256) (hlo : lo ≤ b) (hhi : b ≤ hi)
    (bs : List UInt8) :
    readTail (k + 1) lo hi acc (UInt8.ofNat b :: bs) = readTail k 0x80 0xBF (acc * 64 + (b - 0x80)) bs := by
  rw [readTail, toNat_ofNat hb, if_pos ⟨hlo, hhi⟩]

theorem readChar_one (h : c.toNat < 0x80) :
    readChar (UInt8.ofNat c.toNat) bs = (some c, bs) := by
  have hb : (UInt8.ofNat c.toNat).toNat = c.toNat := toNat_ofNat (by omega)
  rw [readChar]
  simp only [hb]
  rw [if_pos h, Char.ofNat_toNat]

theorem readChar_two (h₁ : 0x80 ≤ c.toNat) (h₂ : c.toNat < 0x800) :
    readChar (UInt8.ofNat (0xC0 + c.toNat / 64)) (UInt8.ofNat (0x80 + c.toNat % 64) :: bs) =
      (some c, bs) := by
  have hb : (UInt8.ofNat (0xC0 + c.toNat / 64)).toNat = 0xC0 + c.toNat / 64 := toNat_ofNat (by omega)
  have hacc : (0xC0 + c.toNat / 64 - 0xC0) * 64 + (0x80 + c.toNat % 64 - 0x80) = c.toNat := by omega
  rw [readChar]
  simp only [hb]
  rw [if_neg (by omega), if_neg (by omega), if_pos (by omega),
    readTail_succ (by omega) (by omega) (by omega), readTail, hacc, Char.ofNat_toNat]

theorem toNat_valid (c : Char) : c.toNat < 0xD800 ∨ 0xDFFF < c.toNat ∧ c.toNat < 0x110000 := by
  have h := c.valid
  rcases h with h | h
  · exact .inl h
  · exact .inr h

theorem readChar_three (h₁ : 0x800 ≤ c.toNat) (h₂ : c.toNat < 0x10000) :
    readChar (UInt8.ofNat (0xE0 + c.toNat / 4096))
      (UInt8.ofNat (0x80 + c.toNat / 64 % 64) :: UInt8.ofNat (0x80 + c.toNat % 64) :: bs) =
        (some c, bs) := by
  have hvalid := toNat_valid c
  have hb : (UInt8.ofNat (0xE0 + c.toNat / 4096)).toNat = 0xE0 + c.toNat / 4096 := toNat_ofNat (by omega)
  have hacc : ((0xE0 + c.toNat / 4096 - 0xE0) * 64 + (0x80 + c.toNat / 64 % 64 - 0x80)) * 64 +
      (0x80 + c.toNat % 64 - 0x80) = c.toNat := by omega
  rw [readChar]
  simp only [hb]
  rw [if_neg (by omega), if_neg (by omega), if_neg (by omega)]
  by_cases he0 : c.toNat / 4096 = 0
  · have hacc' : (0 * 64 + (0x80 + c.toNat / 64 % 64 - 0x80)) * 64 + (0x80 + c.toNat % 64 - 0x80) =
        c.toNat := by omega
    rw [if_pos (by omega), readTail_succ (by omega) (by omega) (by omega),
      readTail_succ (by omega) (by omega) (by omega), readTail, hacc', Char.ofNat_toNat]
  · rw [if_neg (by omega)]
    by_cases hed : c.toNat / 4096 = 13
    · have hacc' : (0xD * 64 + (0x80 + c.toNat / 64 % 64 - 0x80)) * 64 + (0x80 + c.toNat % 64 - 0x80) =
          c.toNat := by omega
      rw [if_pos (by omega), readTail_succ (by omega) (by omega) (by omega),
        readTail_succ (by omega) (by omega) (by omega), readTail, hacc', Char.ofNat_toNat]
    · rw [if_neg (by omega), if_pos (by omega), readTail_succ (by omega) (by omega) (by omega),
        readTail_succ (by omega) (by omega) (by omega), readTail, hacc, Char.ofNat_toNat]

theorem readChar_four (h₁ : 0x10000 ≤ c.toNat) :
    readChar (UInt8.ofNat (0xF0 + c.toNat / 262144))
      (UInt8.ofNat (0x80 + c.toNat / 4096 % 64) :: UInt8.ofNat (0x80 + c.toNat / 64 % 64) ::
        UInt8.ofNat (0x80 + c.toNat % 64) :: bs) = (some c, bs) := by
  have hvalid := toNat_valid c
  have hb : (UInt8.ofNat (0xF0 + c.toNat / 262144)).toNat = 0xF0 + c.toNat / 262144 :=
    toNat_ofNat (by omega)
  have hacc : ∀ a, a = c.toNat / 262144 →
      ((a * 64 + (0x80 + c.toNat / 4096 % 64 - 0x80)) * 64 + (0x80 + c.toNat / 64 % 64 - 0x80)) * 64 +
        (0x80 + c.toNat % 64 - 0x80) = c.toNat := by omega
  rw [readChar]
  simp only [hb]
  rw [if_neg (by omega), if_neg (by omega), if_neg (by omega), if_neg (by omega), if_neg (by omega),
    if_neg (by omega)]
  by_cases hf0 : c.toNat / 262144 = 0
  · rw [if_pos (by omega), readTail_succ (by omega) (by omega) (by omega),
      readTail_succ (by omega) (by omega) (by omega), readTail_succ (by omega) (by omega) (by omega),
      readTail, hacc 0 hf0.symm, Char.ofNat_toNat]
  · rw [if_neg (by omega)]
    by_cases hf4 : c.toNat / 262144 = 4
    · rw [if_neg (by omega), if_pos (by omega), readTail_succ (by omega) (by omega) (by omega),
        readTail_succ (by omega) (by omega) (by omega), readTail_succ (by omega) (by omega) (by omega),
        readTail, hacc 4 hf4.symm, Char.ofNat_toNat]
    · rw [if_pos (by omega), readTail_succ (by omega) (by omega) (by omega),
        readTail_succ (by omega) (by omega) (by omega), readTail_succ (by omega) (by omega) (by omega),
        readTail, hacc _ (by omega), Char.ofNat_toNat]

theorem encodeChar_read (c : Char) :
    ∃ b tail, encodeChar c = b :: tail ∧ ∀ bs, readChar b (tail ++ bs) = (some c, bs) := by
  rw [encodeChar]
  split
  · rename_i h
    exact ⟨_, _, rfl, fun bs => readChar_one h⟩
  · split
    · exact ⟨_, _, rfl, fun bs => readChar_two (by omega) (by omega)⟩
    · split
      · exact ⟨_, _, rfl, fun bs => readChar_three (by omega) (by omega)⟩
      · exact ⟨_, _, rfl, fun bs => readChar_four (by omega)⟩

theorem toNat_of_mem_encodeChar {b : UInt8} (h : b ∈ encodeChar c) (hb : b.toNat < 0x80) : c.toNat = b.toNat := by
  have hvalid := toNat_valid c
  rw [encodeChar] at h
  split at h
  · rw [List.mem_singleton.mp h, toNat_ofNat (by omega)]
  · have hhigh : ∀ n : Nat, 0x80 ≤ n → n < 256 → b ≠ UInt8.ofNat n := by
      rintro n hn hlt rfl
      rw [toNat_ofNat hlt] at hb
      omega
    exfalso
    split at h
    · simp only [List.mem_cons, List.not_mem_nil, or_false] at h
      rcases h with h | h <;> exact hhigh _ (by omega) (by omega) h
    · split at h
      · simp only [List.mem_cons, List.not_mem_nil, or_false] at h
        rcases h with h | h | h <;> exact hhigh _ (by omega) (by omega) h
      · simp only [List.mem_cons, List.not_mem_nil, or_false] at h
        rcases h with h | h | h | h <;> exact hhigh _ (by omega) (by omega) h

end Character

theorem mem_of_mem_encode {s : List Char} {b : UInt8} (h : b ∈ encode s) (hb : b.toNat < 0x80) :
    Char.ofNat b.toNat ∈ s := by
  obtain ⟨c, hc, hmem⟩ := List.mem_flatMap.mp h
  rw [← toNat_of_mem_encodeChar hmem hb, Char.ofNat_toNat]
  exact hc

theorem piecesWithin_encode (s : List Char) (fuel : Nat) (h : (encode s).length ≤ fuel) :
    piecesWithin fuel (encode s) = s.map some := by
  induction s generalizing fuel with
  | nil => cases fuel <;> rfl
  | cons c s ih =>
    obtain ⟨b, tail, hb, hread⟩ := encodeChar_read c
    have htext : encode (c :: s) = b :: (tail ++ encode s) := by
      show encodeChar c ++ encode s = _
      rw [hb]
      rfl
    rw [htext] at h ⊢
    rw [List.length_cons, List.length_append] at h
    obtain ⟨fuel, rfl⟩ : ∃ k, fuel = k + 1 := ⟨fuel - 1, by omega⟩
    rw [piecesWithin, hread, ih fuel (by omega)]
    rfl

theorem pieces_encode (s : List Char) : pieces (encode s) = s.map some :=
  piecesWithin_encode s _ (Nat.le_refl _)

theorem decode?_encode (s : List Char) : decode? (encode s) = some s := by
  simp [decode?, pieces_encode, List.filterMap_map]

theorem decodeLenient_encode (s : List Char) : decodeLenient (encode s) = s := by
  simp [decodeLenient, pieces_encode, Function.comp_def]

theorem decode?_cons {c : UInt8} (hc : c.toNat < 0x80) (bs : List UInt8) :
    decode? (c :: bs) = (decode? bs).map (Char.ofNat c.toNat :: ·) := by
  have hpieces : pieces (c :: bs) = some (Char.ofNat c.toNat) :: pieces bs := by
    rw [pieces, List.length_cons, piecesWithin, readChar, if_pos hc, pieces]
  rw [decode?, hpieces, decode?]
  by_cases h : (pieces bs).all Option.isSome <;> simp [h]

section Append

variable {b c : UInt8} {bs : List UInt8}

theorem readTail_append (hc : c.toNat < 0x80) {k lo hi acc : Nat} (hlo : 0x80 ≤ lo) :
    readTail k lo hi acc (bs ++ [c]) =
      ((readTail k lo hi acc bs).1, (readTail k lo hi acc bs).2 ++ [c]) := by
  induction k generalizing lo hi acc bs with
  | zero => rfl
  | succ k ih =>
    cases bs with
    | nil => simp only [List.nil_append, readTail]; rw [if_neg (by omega)]
    | cons b bs =>
      simp only [List.cons_append, readTail]
      split
      · exact ih (Nat.le_refl _)
      · rfl

/-- A reader of octets that leaves them alone, or that reads the tail of a character from them. -/
def ReadsTail (f : List UInt8 → Option Char × List UInt8) : Prop :=
  (∃ o, ∀ bs, f bs = (o, bs)) ∨ ∃ k lo hi acc, 0x80 ≤ lo ∧ ∀ bs, f bs = readTail k lo hi acc bs

theorem ReadsTail.ite {p : Prop} [Decidable p] {f g : List UInt8 → Option Char × List UInt8}
    (hf : ReadsTail f) (hg : ReadsTail g) : ReadsTail fun bs => if p then f bs else g bs := by
  by_cases h : p
  · simpa only [if_pos h] using hf
  · simpa only [if_neg h] using hg

theorem readsTail_readChar (b : UInt8) : ReadsTail (readChar b) := by
  have alone (o : Option Char) : ReadsTail fun bs => (o, bs) := .inl ⟨o, fun _ => rfl⟩
  have tail (k : Nat) {lo hi acc : Nat} (hlo : 0x80 ≤ lo) : ReadsTail (readTail k lo hi acc) :=
    .inr ⟨k, lo, hi, acc, hlo, fun _ => rfl⟩
  exact .ite (alone _) <| .ite (alone _) <| .ite (tail 1 (by decide)) <| .ite (tail 2 (by decide)) <|
    .ite (tail 2 (by decide)) <| .ite (tail 2 (by decide)) <| .ite (tail 3 (by decide)) <|
    .ite (tail 3 (by decide)) <| .ite (tail 3 (by decide)) (alone _)

theorem readChar_append (hc : c.toNat < 0x80) :
    readChar b (bs ++ [c]) = ((readChar b bs).1, (readChar b bs).2 ++ [c]) := by
  rcases readsTail_readChar b with ⟨o, h⟩ | ⟨k, lo, hi, acc, hlo, h⟩
  · simp only [h]
  · simp only [h, readTail_append hc hlo]

theorem readTail_length_le {k lo hi acc : Nat} : (readTail k lo hi acc bs).2.length ≤ bs.length := by
  induction k generalizing lo hi acc bs with
  | zero => exact Nat.le_refl _
  | succ k ih =>
    cases bs with
    | nil => exact Nat.le_refl _
    | cons b bs =>
      simp only [readTail]
      split
      · exact Nat.le_succ_of_le ih
      · exact Nat.le_refl _

theorem readChar_length_le : (readChar b bs).2.length ≤ bs.length := by
  rcases readsTail_readChar b with ⟨o, h⟩ | ⟨k, lo, hi, acc, -, h⟩
  · simp only [h, Nat.le_refl]
  · rw [h]
    exact readTail_length_le

theorem piecesWithin_append (hc : c.toNat < 0x80) {fuel : Nat} (h : bs.length ≤ fuel) :
    piecesWithin (fuel + 1) (bs ++ [c]) = piecesWithin fuel bs ++ [some (Char.ofNat c.toNat)] := by
  induction fuel generalizing bs with
  | zero =>
    obtain rfl := List.length_eq_zero_iff.mp (Nat.le_zero.mp h)
    simp [piecesWithin, readChar, hc]
  | succ fuel ih =>
    cases bs with
    | nil => simp [piecesWithin, readChar, hc]
    | cons b bs =>
      have hrest : (readChar b bs).2.length ≤ fuel :=
        Nat.le_trans readChar_length_le (Nat.le_of_succ_le_succ h)
      rw [List.cons_append, piecesWithin, readChar_append hc, piecesWithin, ih hrest, List.cons_append]

theorem decode?_append (hc : c.toNat < 0x80) :
    decode? (bs ++ [c]) = (decode? bs).map (· ++ [Char.ofNat c.toNat]) := by
  have hpieces : pieces (bs ++ [c]) = pieces bs ++ [some (Char.ofNat c.toNat)] := by
    rw [pieces, List.length_append]
    exact piecesWithin_append hc (Nat.le_refl _)
  rw [decode?, hpieces, decode?]
  simp only [List.all_append, List.filterMap_append]
  by_cases h : (pieces bs).all Option.isSome <;> simp [h]

end Append

end RequestRouter.Text.Utf8
