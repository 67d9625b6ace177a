import RequestRouter.Proofs.Http.Targets
/-!
Where the reader of targets cuts. A text that is put together from a scheme, an authority, a path and a query is
cut there again unless a part holds a character that ends it: a slash in the scheme, a slash or a mark in the
authority, a mark in the path, a number sign in the query.
-/
namespace RequestRouter.Http.Uri

open RequestRouter.Text

section Path

variable {path p : List Char} {query q : Option (List Char)}

def pathText (path : List Char) (query : Option (List Char)) : List Char := path ++ query.elim [] ('?' :: ·)

def PathClear (path : List Char) (query : Option (List Char)) : Prop :=
  ('?' ∉ path ∧ '#' ∉ path) ∧ ∀ x, query = some x → '#' ∉ x

theorem readPath_eq_iff (h : readPath (pathText path query) = some (p, q)) :
    (p = path ∧ q = query) ↔ PathClear path query := by
  constructor
  · rintro ⟨rfl, rfl⟩
    obtain ⟨hp, hq⟩ := readPath_spec h
    exact ⟨⟨fun hm => (ne_of_isPathChar (hp _ hm)).2 rfl, fun hm => (ne_of_isPathChar (hp _ hm)).1 rfl⟩,
      fun x hx hm => ne_of_isQueryChar (hq x hx _ hm) rfl⟩
  · rintro ⟨⟨hmark, hhash⟩, hquery⟩
    have hopen : ∀ c ∈ pathText path query, (c != '#') = true := by
      intro c hc
      rw [bne_iff_ne]
      rintro rfl
      rcases List.mem_append.mp hc with hc | hc
      · exact hhash hc
      · cases query with
        | none => exact List.not_mem_nil hc
        | some x =>
          rcases List.mem_cons.mp hc with hc | hc
          · cases hc
          · exact hquery x rfl hc
    have hcut : Form.cut '?' (pathText path query) = (path, query) := by
      cases query with
      | none => rw [pathText, Option.elim_none, List.append_nil, Form.cut_of_not_mem hmark]
      | some x => exact Form.cut_append hmark
    rw [readPath, List.takeWhile_eq_self_iff.mpr hopen, hcut] at h
    dsimp only at h
    split at h
    · cases h
      exact ⟨rfl, rfl⟩
    · cases h

theorem readPath_eq_nil_iff (hr : Path.Rooted path) (h : readPath (pathText path query) = some (p, q)) :
    p = [] ↔ path = [] := by
  have hcut : p = (Form.cut '?' ((pathText path query).takeWhile (· != '#'))).1 := by
    rw [readPath] at h
    dsimp only at h
    split at h
    · cases h
      rfl
    · cases h
  cases path with
  | nil =>
    refine iff_of_true ?_ rfl
    rw [hcut]
    cases query <;> rfl
  | cons c path =>
    obtain rfl : c = '/' := hr.head_eq
    refine iff_of_false ?_ (List.cons_ne_nil _ _)
    rw [hcut]
    exact List.cons_ne_nil _ _

end Path

section Scheme

variable {s scheme rest : List Char} {uri : Uri}

theorem slash_not_mem_of_readScheme (h : readScheme s = some (scheme, rest)) : '/' ∉ scheme := by
  rw [readScheme] at h
  split at h
  · dsimp only at h
    split at h
    · rename_i hweb
      cases h
      rcases hweb with hweb | hweb <;> rw [hweb] <;> decide
    · cases h
      exact fun hm => absurd (List.mem_takeWhile_imp hm) (by decide)
  · cases h

theorem readScheme_append (h : ∀ c ∈ scheme, isSchemeChar c = true) (hlower : scheme.map Char.toLower = scheme) :
    readScheme (scheme ++ ("://".toList ++ rest)) = some (scheme, rest) := by
  have htake : (scheme ++ ("://".toList ++ rest)).takeWhile isSchemeChar = scheme := by
    rw [List.takeWhile_append_of_pos h]
    exact List.append_nil scheme
  have hdrop : (scheme ++ ("://".toList ++ rest)).dropWhile isSchemeChar = ':' :: '/' :: '/' :: rest := by
    rw [List.dropWhile_append_of_pos h]
    rfl
  rw [readScheme, hdrop, htake]
  dsimp only
  rw [hlower]
  exact ite_self _

/-- A scheme without slashes is read up to its end or not at all. -/
theorem isSchemeChar_of_readScheme (hs : '/' ∉ scheme) {parts : List Char × List Char}
    (h : readScheme (scheme ++ ("://".toList ++ rest)) = some parts) : ∀ c ∈ scheme, isSchemeChar c = true := by
  rw [← List.dropWhile_eq_nil_iff]
  cases hdrop : scheme.dropWhile isSchemeChar with
  | nil => rfl
  | cons c more =>
    exfalso
    have hmore : '/' ∉ c :: more := fun hm => hs ((List.dropWhile_sublist _).subset (hdrop ▸ hm))
    rw [readScheme, List.dropWhile_append, hdrop] at h
    cases more with
    | nil => simp at h
    | cons d more =>
      have hd : d ≠ '/' := fun heq => hmore (by simp [heq])
      simp [hd] at h

theorem isAuthority_eq_false_of_mem {c : Char} (hc : ∀ st, AuthorityScan.step st c = none) (h : c ∈ s) :
    isAuthority s = false := by
  have hfold : ∀ st, s.foldlM AuthorityScan.step st = none := by
    induction s with
    | nil => cases h
    | cons d s ih =>
      intro st
      rw [List.foldlM_cons]
      rcases List.mem_cons.mp h with rfl | h
      · rw [hc]
        rfl
      · cases AuthorityScan.step st d with
        | none => rfl
        | some st' => exact ih h st'
  rw [isAuthority, hfold]

theorem slash_not_mem_scheme (h : ofChars? s = some uri) (x : String) (hx : uri.scheme = some x) :
    '/' ∉ x.toList := by
  unfold ofChars? at h
  split at h
  · cases h
  · cases h
    cases hx
  · obtain ⟨_, -, rfl⟩ := Option.map_eq_some_iff.mp h
    cases hx
  · split at h
    · rename_i hscheme
      rw [ofAbsolute?] at h
      dsimp only at h
      split at h
      · cases h
      · obtain ⟨_, -, rfl⟩ := Option.map_eq_some_iff.mp h
        obtain rfl := Option.some.inj hx
        rw [String.toList_ofList]
        exact slash_not_mem_of_readScheme hscheme
    · split at h
      · cases h
        cases hx
      · cases h

theorem ofAbsolute?_of_ofChars? (hs : '/' ∉ scheme) (hlower : scheme.map Char.toLower = scheme)
    (h : ofChars? (scheme ++ ("://".toList ++ rest)) = some uri) : ofAbsolute? scheme rest = some uri := by
  have hnone : isAuthority (scheme ++ ("://".toList ++ rest)) = false :=
    isAuthority_eq_false_of_mem (c := '/') (fun _ => rfl) (by simp)
  have hread : ofChars? (scheme ++ ("://".toList ++ rest)) =
      (readScheme (scheme ++ ("://".toList ++ rest))).bind fun parts => ofAbsolute? parts.1 parts.2 := by
    cases scheme with
    | nil => rfl
    | cons c scheme =>
      have hc : c ≠ '/' := fun heq => hs (by simp [heq])
      unfold ofChars?
      split
      · rename_i heq
        cases heq
      · rename_i heq
        simp at heq
      · rename_i heq
        exact absurd (List.cons.inj heq).1 hc
      · cases hp : readScheme (c :: scheme ++ ("://".toList ++ rest)) with
        | none =>
          dsimp only
          rw [hnone]
          rfl
        | some parts => rfl
  rw [hread] at h
  obtain ⟨parts, hparts, h⟩ := Option.bind_eq_some_iff.mp h
  rw [readScheme_append (isSchemeChar_of_readScheme hs hparts) hlower] at hparts
  rwa [← Option.some.inj hparts] at h

end Scheme

section Components

variable {scheme host path : List Char} {query : Option (List Char)} {uri : Uri}

theorem ofPath?_of_ofChars? (hr : Path.Rooted path) (h : ofChars? (pathText path query) = some uri) :
    path ≠ [] ∧ ofPath? (pathText path query) = some uri := by
  cases path with
  | nil =>
    cases query with
    | none => cases h
    | some q =>
      have hnone : isAuthority ('?' :: q) = false :=
        isAuthority_eq_false_of_mem (c := '?') (fun _ => rfl) List.mem_cons_self
      have hread : ofChars? (pathText [] (some q)) =
          if isAuthority ('?' :: q) then some ⟨none, some (String.ofList ('?' :: q)), "", none⟩ else none := rfl
      rw [hread, hnone] at h
      cases h
  | cons c path =>
    obtain rfl : c = '/' := hr.head_eq
    exact ⟨nofun, h⟩

theorem scheme_of_ofPath? {s : List Char} (h : ofPath? s = some uri) : uri.scheme = none ∧ uri.authority = none := by
  obtain ⟨_, -, rfl⟩ := Option.map_eq_some_iff.mp h
  exact ⟨rfl, rfl⟩

theorem scheme_of_ofAbsolute? {rest : List Char} (h : ofAbsolute? scheme rest = some uri) :
    uri.scheme = some (String.ofList scheme) := by
  rw [ofAbsolute?] at h
  dsimp only at h
  split at h
  · cases h
  · obtain ⟨_, -, rfl⟩ := Option.map_eq_some_iff.mp h
    rfl

theorem map_ofList_inj {q : Option (List Char)} : q.map String.ofList = query.map String.ofList ↔ q = query :=
  (Option.map_injective fun _ _ => String.ofList_injective).eq_iff

theorem ofPath?_eq_iff (h : ofPath? (pathText path query) = some uri) :
    (uri.path = String.ofList path ∧ uri.query = query.map String.ofList) ↔ PathClear path query := by
  obtain ⟨⟨p, q⟩, hread, rfl⟩ := Option.map_eq_some_iff.mp h
  rw [← readPath_eq_iff hread]
  exact and_congr String.ofList_inj map_ofList_inj

theorem span_pathText (hr : Path.Rooted path) (query : Option (List Char)) :
    (pathText path query).takeWhile (!endsAuthority ·) = [] ∧
      (pathText path query).dropWhile (!endsAuthority ·) = pathText path query := by
  cases path with
  | nil => cases query <;> exact ⟨rfl, rfl⟩
  | cons c path =>
    obtain rfl : c = '/' := hr.head_eq
    exact ⟨rfl, rfl⟩

/-- Behind an authority a path and a query are read as such exactly if they are clear; no path is read as the
root. -/
theorem shownPath_eq_iff {p : List Char} {q : Option (List Char)} (hr : Path.Rooted path)
    (h : readPath (pathText path query) = some (p, q)) :
    ((if p.isEmpty then "/" else String.ofList p) = (if path.isEmpty then "/" else String.ofList path) ∧
      q.map String.ofList = query.map String.ofList) ↔ PathClear path query := by
  rw [← readPath_eq_iff h]
  refine and_congr ?_ map_ofList_inj
  have hnil := readPath_eq_nil_iff hr h
  by_cases hp : path = []
  · rw [hp, hnil.mpr hp]
    simp
  · have hp' : p ≠ [] := fun heq => hp (hnil.mp heq)
    rw [if_neg (by simpa using hp'), if_neg (by simpa using hp), String.ofList_inj]

/-- The authority and what stands behind it are read as such exactly if the authority does not hold a character
that ends it, and the path and the query are clear. -/
theorem ofAbsolute?_eq_iff (hr : Path.Rooted path)
    (h : ofAbsolute? scheme (host ++ pathText path query) = some uri) :
    (uri.authority = some (String.ofList host) ∧ uri.path = (if path.isEmpty then "/" else String.ofList path) ∧
        uri.query = query.map String.ofList) ↔
      (∀ c ∈ host, endsAuthority c = false) ∧ PathClear path query := by
  obtain ⟨htake, hdrop⟩ := span_pathText hr query
  rw [ofAbsolute?] at h
  dsimp only at h
  split at h
  · cases h
  · obtain ⟨⟨p, q⟩, hread, rfl⟩ := Option.map_eq_some_iff.mp h
    have hhost : (host ++ pathText path query).takeWhile (!endsAuthority ·) = host ↔
        ∀ c ∈ host, endsAuthority c = false := by
      constructor
      · intro heq c hc
        rw [← heq] at hc
        simpa using List.mem_takeWhile_imp hc
      · intro hall
        rw [List.takeWhile_append_of_pos (by simpa using hall), htake, List.append_nil]
    dsimp only
    rw [Option.some_inj, String.ofList_inj, hhost]
    refine and_congr_right fun hall => shownPath_eq_iff hr ?_
    rwa [List.dropWhile_append_of_pos (by simpa using hall), hdrop] at hread

end Components

end RequestRouter.Http.Uri
