import RequestRouter.Proofs.Router.Building
import RequestRouter.Proofs.Text.Coding
/-!
The query of a built URL is read back as what it was built from. Keys and values are encoded, so they hold none
of the characters that mean something in a query; the literal text of a template is put out as it is written.
-/
namespace RequestRouter

open RequestRouter.Http RequestRouter.Text

namespace Template

variable {t : Template} {values : String → Option String} {text : String}

/-- No character of the literal text means something in a query. -/
def QueryPlain (t : Template) : Prop := '%' ∉ t.literals ∧ '+' ∉ t.literals ∧ '&' ∉ t.literals

instance (t : Template) : Decidable t.QueryPlain := inferInstanceAs (Decidable (_ ∧ _))

theorem decodes_codedText (h : '%' ∉ t.literals) (values : String → Option String) :
    Percent.Decodes (t.codedText values) (t.valueText values) := by
  rw [literals, List.mem_append, not_or] at h
  obtain ⟨hslots, htail⟩ := h
  refine .append ?_ (.literal htail)
  generalize t.slots = slots at hslots
  induction slots with
  | nil => exact .nil
  | cons s slots ih =>
    rw [List.flatMap_cons, List.mem_append, not_or] at hslots
    exact .append (.append (.literal hslots.1) (.encode _)) (ih hslots.2)

/-- A query with plain literal text puts out a parameter that is read as its key and its value text. -/
theorem IsCompiled.pair_expand (h : t.IsCompiled) (hk : t.kind = .query) (hplain : t.QueryPlain)
    (he : t.expand values = .ok text) :
    Form.pair text.toList = ((t.queryKey.getD "").toList, t.valueText values) ∧ '&' ∉ text.toList := by
  obtain ⟨hpercent, hplus, hand⟩ := hplain
  obtain ⟨key, hkey, htext | ⟨hslots, htail, htext⟩⟩ := h.toList_expand hk he
  · rw [htext, hkey]
    constructor
    · have hdecode := Form.decode_of_decodes (decodes_codedText hpercent values)
        fun hmem => hplus (mem_literals_of_mem_codedText (by decide) (by decide) hmem)
      rw [Form.pair_encode_cons, hdecode, Option.getD_some]
    · intro hmem
      rcases List.mem_append.mp hmem with hmem | hmem
      · exact Percent.not_mem_encode (by decide) (by decide) hmem
      · rcases List.mem_cons.mp hmem with hmem | hmem
        · cases hmem
        · exact hand (mem_literals_of_mem_codedText (by decide) (by decide) hmem)
  · rw [htext, hkey, valueText, hslots, htail]
    exact ⟨Form.pair_encode_key key.toList, Percent.not_mem_encode (by decide) (by decide)⟩

theorem IsCompiled.expand_ne_nil (h : t.IsCompiled) (hk : t.kind = .query) (hkey : t.queryKey ≠ some "")
    (he : t.expand values = .ok text) : text.toList ≠ [] := by
  obtain ⟨key, hsome, htext | ⟨-, -, htext⟩⟩ := h.toList_expand hk he
  · simp [htext]
  · rw [htext]
    refine Percent.encode_ne_nil fun hempty => hkey ?_
    rw [hsome, String.toList_eq_nil_iff.mp hempty]

theorem parse_expanded {ts : List Template} {qs : List String} (hts : ∀ t ∈ ts, t.IsCompiled ∧ t.kind = .query)
    (hkeys : ∀ t ∈ ts, t.queryKey ≠ some "") (hplain : ∀ t ∈ ts, t.QueryPlain) (hne : qs ≠ [])
    (h : List.Forall₂ (fun t q => t.expand values = .ok q) ts qs) :
    Form.parse ("&".intercalate qs).toList =
      ts.map fun t => ((t.queryKey.getD "").toList, t.valueText values) := by
  have htext : ("&".intercalate qs).toList = ['&'].intercalate (qs.map (·.toList)) := String.toList_intercalate
  have hall : (∀ part ∈ qs.map (·.toList), '&' ∉ part ∧ part ≠ []) ∧ (qs.map (·.toList)).map Form.pair =
      ts.map fun t => ((t.queryKey.getD "").toList, t.valueText values) := by
    clear htext hne
    induction h with
    | nil => exact ⟨nofun, rfl⟩
    | @cons t q ts qs he _ ih =>
      rw [List.forall_mem_cons] at hts hkeys hplain
      obtain ⟨hparts, hpairs⟩ := ih hts.2 hkeys.2 hplain.2
      obtain ⟨hpair, hand⟩ := hts.1.1.pair_expand hts.1.2 hplain.1 he
      refine ⟨List.forall_mem_cons.mpr ⟨⟨hand, hts.1.1.expand_ne_nil hts.1.2 hkeys.1 he⟩, hparts⟩, ?_⟩
      rw [List.map_cons, List.map_cons, List.map_cons, hpair, hpairs]
  rw [htext, Form.parse_intercalate (by simpa using hne) hall.1, hall.2]

end Template

namespace Route

variable {H : Type}

/-- The query of a URL is read back, in the order of the templates, as one parameter for each: its key and its
literal text with the values in it, if the literal text has no percent sign, plus sign or ampersand. -/
theorem parse_url_query {r : Route H} (hr : r.Arises) (hne : r.queries ≠ [])
    (hkeys : ∀ t ∈ r.queries, t.queryKey ≠ some "") (hplain : ∀ t ∈ r.queries, t.QueryPlain)
    {pairs : List (String × String)} {u : BuiltUrl} (hu : r.url pairs = .ok u) :
    ∃ query, u.query = some query ∧ Form.parse query.toList = r.queries.map fun t =>
      ((t.queryKey.getD "").toList, t.valueText (r.transform (.ofPairs pairs)).get?) := by
  obtain ⟨qs, hqs, hquery⟩ := (url_builds hu).queries
  have hfull : qs ≠ [] := by
    rintro rfl
    exact hne (List.forall₂_nil_right_iff.mp hqs)
  rw [if_neg (by simpa using hfull)] at hquery
  exact ⟨_, hquery, Template.parse_expanded hr.valid.queries hkeys hplain hfull hqs⟩

/-- A value with all the characters that mean something in a query, below a mount with a query of its own that
has no value. -/
theorem parse_url_query_coded :
    ∃ (r : Route Unit) (u : BuiltUrl), r.Arises ∧ r.url [("term", "a+b&c=%41 é")] = .ok u ∧
      u.query = some "flag&q=x-a%2Bb%26c%3D%2541%20%C3%A9" ∧
      Form.parse "flag&q=x-a%2Bb%26c%3D%2541%20%C3%A9".toList =
        [("flag".toList, []), ("q".toList, "x-a+b&c=%41 é".toList)] := by
  let mount : Route Unit := (Call.applyAll [.leading "/find", .queries [("flag", "")]] (.new .root 0) (.new .new)).1
  let scope : Scope :=
    { mount.innerScope with strictSlash := false, skipClean := false, useEncodedPath := true }
  let r : Route Unit := (Call.applyAll [.queries [("q", "x-{term}")]] (.new scope 1) (.new .new)).1
  let u : BuiltUrl := ⟨none, none, "/find", some "flag&q=x-a%2Bb%26c%3D%2541%20%C3%A9"⟩
  have hmount : mount.MadeIn .root := ⟨_, _, _, PatternCache.faithful_new, rfl⟩
  have hr : r.Arises := ⟨_, .sub false false true (.root false false false) hmount,
    _, _, _, PatternCache.faithful_new, rfl⟩
  have hfacts : r.queries.isEmpty = false ∧ (∀ t ∈ r.queries, t.queryKey ≠ some "") ∧
      (∀ t ∈ r.queries, t.QueryPlain) ∧ r.url [("term", "a+b&c=%41 é")] = .ok u ∧
      (r.queries.map fun t => ((t.queryKey.getD "").toList,
        t.valueText (r.transform (.ofPairs [("term", "a+b&c=%41 é")])).get?)) =
        [("flag".toList, []), ("q".toList, "x-a+b&c=%41 é".toList)] := by
    decide +kernel
  obtain ⟨hne, hkeys, hplain, hu, hvalues⟩ := hfacts
  obtain ⟨query, hquery, hparse⟩ := parse_url_query hr (by simpa using hne) hkeys hplain hu
  obtain rfl := Option.some.inj hquery
  rw [hvalues] at hparse
  exact ⟨r, u, hr, hu, rfl, hparse⟩

/-- Literal text that is read as something else: a plus sign as a space, an ampersand as the end of the
parameter, a percent sign as the beginning of an escape. -/
theorem parse_url_query_literal :
    let route (value : String) : Route Unit :=
      (Call.applyAll [.path "/s", .queries [("q", value)]] (.new .root 0) (.new .new)).1
    let read (value : String) : Option (List (List Char × List Char)) :=
      ((route value).url []).toOption.bind fun u => u.query.map fun q => Form.parse q.toList
    (∀ value, (route value).Arises) ∧
      read "a+b" = some [("q".toList, "a b".toList)] ∧
      read "a&b" = some [("q".toList, "a".toList), ("b".toList, [])] ∧
      read "%41" = some [("q".toList, "A".toList)] := by
  intro route read
  have harises : ∀ value, (route value).Arises := fun value =>
    ⟨_, .root false false false, _, _, _, PatternCache.faithful_new, rfl⟩
  have hreads : read "a+b" = some [("q".toList, "a b".toList)] ∧
      read "a&b" = some [("q".toList, "a".toList), ("b".toList, [])] ∧
      read "%41" = some [("q".toList, "A".toList)] := by
    decide +kernel
  exact ⟨harises, hreads⟩

end Route

end RequestRouter
