import RequestRouter.Proofs.Path.Clean
/-!
The form of a path on the wire. It is written in unreserved characters, escapes and slashes. Its slashes are those of
the path, and what stands between them is read as what stood there, so that no other path has the same form.
-/
namespace RequestRouter.Path

open RequestRouter.Text RequestRouter.Text.Percent

def hexDigits : List Char := "0123456789ABCDEF".toList

/-- A text of letters and digits of ASCII, of other characters that stand for themselves, of slashes, and of escapes: a
percent sign and two digits. -/
inductive Wire : List Char → Prop where
  | nil : Wire []
  | plain {c s} (hc : c.isAlphanum = true ∨ c ∈ ['-', '_', '.', '~', '/']) (h : Wire s) : Wire (c :: s)
  | escape {a b s} (ha : a ∈ hexDigits) (hb : b ∈ hexDigits) (h : Wire s) : Wire ('%' :: a :: b :: s)

section Characters

variable {s t : List Char} {c : Char}

theorem Wire.append (hs : Wire s) (ht : Wire t) : Wire (s ++ t) := by
  induction hs with
  | nil => exact ht
  | plain hc _ ih => exact .plain hc ih
  | escape ha hb _ ih => exact .escape ha hb ih

theorem Wire.flatMap {α : Type} {f : α → List Char} (h : ∀ a, Wire (f a)) (l : List α) : Wire (l.flatMap f) := by
  induction l with
  | nil => exact .nil
  | cons a l ih => exact (h a).append ih

theorem Wire.of_isUnreserved (h : isUnreserved c = true) : Wire [c] := by
  refine .plain ?_ .nil
  simp only [isUnreserved, Bool.or_eq_true, beq_iff_eq] at h
  simp only [List.mem_cons]
  tauto

theorem digit_mem_hexDigits : ∀ n < 16, Hex.digit n ∈ hexDigits := by decide

theorem Wire.escapeOctet (b : UInt8) : Wire (Percent.escapeOctet b) :=
  .escape (digit_mem_hexDigits _ (Nat.div_lt_of_lt_mul b.toNat_lt))
    (digit_mem_hexDigits _ (Nat.mod_lt _ (by decide))) .nil

theorem Wire.encodePathChar (c : Char) : Wire (Path.encodePathChar c) := by
  unfold Path.encodePathChar
  split
  · exact .plain (.inr (by decide)) .nil
  · unfold Percent.encodeChar
    split
    · rename_i hc
      exact .of_isUnreserved hc
    · exact .flatMap .escapeOctet _

theorem wire_encodeChars (path : List Char) : Wire (encodeChars path) := by
  rw [encodeChars_eq]
  exact .flatMap .encodePathChar path

end Characters

section Pieces

variable {path : List Char}

theorem slash_not_mem_encode (s : List Char) : '/' ∉ Percent.encode s := not_mem_encode (by decide) (by decide)

theorem count_encodePathChar (c : Char) : (encodePathChar c).count '/' = [c].count '/' := by
  unfold encodePathChar
  split
  · rename_i hc
    rw [hc]
  · rename_i hc
    have hmem := slash_not_mem_encode [c]
    rw [Percent.encode, List.flatMap_singleton] at hmem
    rw [List.count_eq_zero.mpr hmem, List.count_singleton, if_neg (by simpa using hc)]

theorem count_encodeChars (path : List Char) : (encodeChars path).count '/' = path.count '/' := by
  rw [encodeChars_eq]
  induction path with
  | nil => rfl
  | cons c path ih =>
    rw [List.flatMap_cons, List.count_append, count_encodePathChar, ih, ← List.count_append, List.singleton_append]

theorem splitOn_encodeChars (path : List Char) :
    (encodeChars path).splitOn '/' = (path.splitOn '/').map Percent.encode := by
  refine List.splitOn_intercalate '/' (fun piece hpiece => ?_) ?_
  · obtain ⟨s, -, rfl⟩ := List.mem_map.mp hpiece
    exact slash_not_mem_encode s
  · exact mt List.map_eq_nil_iff.mp (List.splitOn_ne_nil '/' path)

theorem decodeChars_encode (s : List Char) : decodeChars (Percent.encode s) = s := by
  rw [decodeChars, (Decodes.encode s).decode?_eq, Option.getD_some]

end Pieces

/-- No two paths have the same form on the wire, and each is decoded to itself. The form consists of unreserved
characters, escapes and slashes, has as many slashes as the path, and between them what decodes to the text between
those of the path. -/
theorem encode_wire_form :
    Function.Injective encode ∧ ∀ path : String,
      decode (encode path) = path ∧
      Wire (encode path).toList ∧
      (encode path).toList.count '/' = path.toList.count '/' ∧
      ((encode path).toList.splitOn '/').map decodeChars = path.toList.splitOn '/' := by
  have hchars (path : String) : (encode path).toList = encodeChars path.toList := String.toList_ofList
  refine ⟨Function.LeftInverse.injective decode_encode, fun path => ⟨decode_encode path, ?_, ?_, ?_⟩⟩ <;>
    rw [hchars]
  · exact wire_encodeChars _
  · exact count_encodeChars _
  · rw [splitOn_encodeChars, List.map_map]
    exact (List.map_congr_left fun s _ => decodeChars_encode s).trans (List.map_id _)

/-- A path that looks encoded, with letters of two and of four octets. -/
example : encode "/a%2Fb//ü c/😀" = "/a%252Fb//%C3%BC%20c/%F0%9F%98%80" := by decide +kernel

end RequestRouter.Path
