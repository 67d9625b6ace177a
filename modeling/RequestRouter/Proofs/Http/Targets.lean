import Mathlib.Data.List.TakeWhile
import RequestRouter.Http.Message
import RequestRouter.Proofs.Path.Clean
import RequestRouter.Router.Serve
/-!
Targets made of a path and a query. A path and a query of characters that belong there are read back from the
text that puts them together, and whatever is read consists of such characters. Cleaned and encoded paths do.
-/
namespace RequestRouter

open RequestRouter.Http RequestRouter.Text

namespace Http.Uri

section Reading

variable {path : List Char} {query : Option (List Char)}

theorem ne_of_isPathChar {c : Char} (h : isPathChar c = true) : c ≠ '#' ∧ c ≠ '?' := by
  constructor <;> rintro rfl <;> exact absurd h (by decide)

theorem ne_of_isQueryChar {c : Char} (h : isQueryChar c = true) : c ≠ '#' := by
  rintro rfl
  exact absurd h (by decide)

theorem readPath_eq (hpath : ∀ c ∈ path, isPathChar c = true)
    (hquery : ∀ q, query = some q → ∀ c ∈ q, isQueryChar c = true) :
    readPath (path ++ query.elim [] ('?' :: ·)) = some (path, query) := by
  have hmark : '?' ∉ path := fun h => (ne_of_isPathChar (hpath _ h)).2 rfl
  have hcut : Form.cut '?' (path ++ query.elim [] ('?' :: ·)) = (path, query) := by
    cases query with
    | none => rw [Option.elim_none, List.append_nil, Form.cut_of_not_mem hmark]
    | some q => exact Form.cut_append hmark
  have hhash : ∀ c ∈ path ++ query.elim [] ('?' :: ·), (c != '#') = true := by
    intro c hc
    rw [bne_iff_ne]
    rcases List.mem_append.mp hc with hc | hc
    · exact (ne_of_isPathChar (hpath c hc)).1
    · cases query with
      | none => exact absurd hc List.not_mem_nil
      | some q =>
        rcases List.mem_cons.mp hc with rfl | hc
        · decide
        · exact ne_of_isQueryChar (hquery q rfl c hc)
  have hok : (path.all isPathChar && query.all (·.all isQueryChar)) = true := by
    rw [Bool.and_eq_true, List.all_eq_true, Option.all_eq_true]
    exact ⟨hpath, fun q hq => List.all_eq_true.mpr (hquery q hq)⟩
  rw [readPath, List.takeWhile_eq_self_iff.mpr hhash, hcut]
  exact if_pos hok

theorem readPath_spec {s : List Char} (h : readPath s = some (path, query)) :
    (∀ c ∈ path, isPathChar c = true) ∧ ∀ q, query = some q → ∀ c ∈ q, isQueryChar c = true := by
  rw [readPath] at h
  generalize Form.cut '?' (s.takeWhile (· != '#')) = parts at h
  obtain ⟨p, q⟩ := parts
  dsimp only at h
  split at h
  · rename_i hok
    cases h
    rw [Bool.and_eq_true, List.all_eq_true, Option.all_eq_true] at hok
    exact ⟨hok.1, fun q hq => List.all_eq_true.mp (hok.2 q hq)⟩
  · cases h

end Reading

end Http.Uri

/-- The path and the query of the request hold no character that does not belong there. -/
structure Request.Sound (req : Request) : Prop where
  path : ∀ c ∈ req.uri.path.toList, Uri.isPathChar c = true
  query : ∀ q, req.uri.query = some q → ∀ c ∈ q.toList, Uri.isQueryChar c = true

def Request.withPath (req : Request) (path : String) : Request := { req with uri := { req.uri with path } }

namespace Request

variable {req : Request} {path : String} {uri : Uri}

theorem toList_withQuery (path : String) (req : Request) :
    (withQuery path req).toList =
      path.toList ++ (req.uri.query.map String.toList).elim [] ('?' :: ·) := by
  rw [withQuery]
  cases req.uri.query with
  | none => simp
  | some q => simp [String.toList_append]

theorem redirected_withQuery (h : req.Sound) (hpath : ∀ c ∈ path.toList, Uri.isPathChar c = true) :
    ∃ uri, Uri.ofPath? (withQuery path req).toList = some uri ∧ req.redirected uri = req.withPath path := by
  have hquery : ∀ q, req.uri.query.map String.toList = some q → ∀ c ∈ q, Uri.isQueryChar c = true := by
    intro q hq
    obtain ⟨q, hq', rfl⟩ := Option.map_eq_some_iff.mp hq
    exact h.query q hq'
  rw [toList_withQuery, Uri.ofPath?, Uri.readPath_eq hpath hquery]
  refine ⟨_, rfl, ?_⟩
  rw [Request.redirected, Request.withPath]
  cases hq : req.uri.query <;> simp [hq]

theorem sound_redirected {s : List Char} (h : Uri.ofPath? s = some uri) : (req.redirected uri).Sound := by
  obtain ⟨⟨path, query⟩, hread, rfl⟩ := Option.map_eq_some_iff.mp h
  obtain ⟨hpath, hquery⟩ := Uri.readPath_spec hread
  constructor
  · intro c hc
    exact hpath c (by simpa [Request.redirected] using hc)
  · intro q hq c hc
    obtain ⟨q', hq', rfl⟩ := Option.map_eq_some_iff.mp (show query.map String.ofList = some q from hq)
    exact hquery q' hq' c (by simpa using hc)

theorem sound_of_ofString? {s : String} (h : Uri.ofString? s = some uri) (req : Request) :
    ({ req with uri } : Request).Sound := by
  have hstar : ∀ c ∈ "*".toList, Uri.isPathChar c = true := List.all_eq_true.mp (by decide)
  have hempty : ∀ c ∈ "".toList, Uri.isPathChar c = true := nofun
  have hroot : ∀ c ∈ "/".toList, Uri.isPathChar c = true := List.all_eq_true.mp (by decide)
  have hnone : ∀ q : String, none = some q → ∀ c ∈ q.toList, Uri.isQueryChar c = true := nofun
  rw [Uri.ofString?] at h
  split at h
  · unfold Uri.ofChars? at h
    split at h
    · cases h
    · cases h
      exact ⟨hstar, hnone⟩
    · have hsound : (({ req with uri } : Request).redirected uri).Sound := sound_redirected h
      exact hsound
    · split at h
      · rw [Uri.ofAbsolute?] at h
        dsimp only at h
        split at h
        · cases h
        · obtain ⟨⟨path, query⟩, hread, rfl⟩ := Option.map_eq_some_iff.mp h
          have hsound : (req.redirected ⟨none, none, String.ofList path, query.map String.ofList⟩).Sound :=
            sound_redirected (Option.map_eq_some_iff.mpr ⟨_, hread, rfl⟩)
          refine ⟨?_, hsound.query⟩
          dsimp only
          split
          · exact hroot
          · exact hsound.path
      · split at h
        · cases h
          exact ⟨hempty, hnone⟩
        · cases h
  · cases h

theorem sound_of_ofTexts? {method target : String} {headers : List (String × String)} {tls : Option Bool}
    (h : Request.ofTexts? method target headers tls = some req) : req.Sound := by
  obtain ⟨m, -, h⟩ := Option.bind_eq_some_iff.mp h
  obtain ⟨uri, huri, h⟩ := Option.bind_eq_some_iff.mp h
  obtain ⟨hs, -, h⟩ := Option.bind_eq_some_iff.mp h
  obtain rfl := Option.some.inj h
  exact sound_of_ofString? huri (.new m uri hs tls)

end Request

namespace Path

theorem isPathChar_of_isUnreserved {c : Char} (h : Percent.isUnreserved c = true) :
    Uri.isPathChar c = true :=
  Utf8.forall_ascii (P := fun c => Percent.isUnreserved c = true → Uri.isPathChar c = true)
    (by decide +kernel) c (Percent.isUnreserved_ascii h) h

theorem isPathChar_encode {path : String} {c : Char} (h : c ∈ (encode path).toList) :
    Uri.isPathChar c = true := by
  rw [encode, String.toList_ofList, encodeChars_eq] at h
  obtain ⟨d, -, hd⟩ := List.mem_flatMap.mp h
  rw [encodePathChar] at hd
  split at hd
  · rw [List.mem_singleton.mp hd]
    decide
  · have hmem : c ∈ Percent.encode [d] := by
      rw [Percent.encode, List.flatMap_singleton]
      exact hd
    rcases Percent.mem_encode hmem with rfl | hu
    · decide
    · exact isPathChar_of_isUnreserved hu

end Path

end RequestRouter
