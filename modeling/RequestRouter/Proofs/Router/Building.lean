import RequestRouter.Proofs.Pattern.FinalSlash
import RequestRouter.Proofs.Pattern.Inverse
import RequestRouter.Proofs.Router.Origins
import RequestRouter.Router.Url
/-!
What a URL is built of. A template puts out its literal text and the values of its variables in turn; in a query
the values are encoded and the key stands in front. The parts of a URL are what the templates of the route put
out, and the path is encoded unless routes see it as it is sent.
-/
namespace RequestRouter

open RequestRouter.Http RequestRouter.Text

/-- A text that begins with a slash has it in front of its first span, or it has no spans. -/
theorem Cut.rooted_of_ofChars? {s : List Char} {cut : Cut} (hr : Path.Rooted s) (h : ofChars? s = some cut) :
    (cut.spans = [] ∧ Path.Rooted cut.tail) ∨
      ∃ before span spans, cut.spans = ('/' :: before, span) :: spans := by
  cases s with
  | nil =>
    obtain rfl := Option.some.inj h
    exact .inl ⟨rfl, .inl rfl⟩
  | cons c rest =>
    obtain rfl : c = '/' := hr.head_eq
    rw [show '/' :: rest = ['/'] ++ rest from rfl, ofChars?_append Template.ofChars?_slash] at h
    obtain ⟨⟨spans, tail⟩, -, rfl⟩ := Option.map_eq_some_iff.mp h
    cases spans with
    | nil => exact .inl ⟨rfl, .inr rfl⟩
    | cons span spans => exact .inr ⟨span.1, span.2, spans, rfl⟩

namespace Template

variable {t : Template} {values : String → Option String} {text : String}

/-- The literal text of a template. -/
def literals (t : Template) : List Char := t.slots.flatMap (·.before) ++ t.tail

def slotValue (values : String → Option String) (s : Slot) : List Char := ((values s.var.name).getD "").toList

/-- The literal text of a template and the values of its variables in turn. -/
def valueText (t : Template) (values : String → Option String) : List Char :=
  t.slots.flatMap (fun s => s.before ++ slotValue values s) ++ t.tail

def codedText (t : Template) (values : String → Option String) : List Char :=
  t.slots.flatMap (fun s => s.before ++ Percent.encode (slotValue values s)) ++ t.tail

theorem fill_of_resolve {slots : List Slot} {filled : List (Slot × String)} (h : resolve values slots = .ok filled)
    (kind : TemplateKind) (tail : List Char) :
    fill kind filled tail = slots.flatMap (fun s => s.before ++
      (if kind = .query then Percent.encode (slotValue values s) else slotValue values s)) ++ tail := by
  obtain ⟨vs, rfl, hall⟩ := resolve_eq_ok.mp h
  rw [fill]
  congr 1
  clear h
  induction hall with
  | nil => rfl
  | @cons s v slots vs hv _ ih =>
    rw [List.zip_cons_cons, List.flatMap_cons, List.flatMap_cons, ih]
    simp only [slotValue, hv.1, Option.getD_some]

theorem Made.toList_expand (h : t.Made) (hk : t.kind ≠ .query) (he : t.expand values = .ok text) :
    text.toList = t.valueText values := by
  obtain ⟨filled, hr, rfl⟩ := exists_of_map_eq_ok he
  simp only [h.queryKey_eq_none hk, fill_of_resolve hr, if_neg hk, String.toList_ofList, valueText]

/-- A character that encoding does not put out comes from the literal text. -/
theorem mem_literals_of_mem_codedText {c : Char} (hc : c ≠ '%') (hu : Percent.isUnreserved c = false)
    (h : c ∈ t.codedText values) : c ∈ t.literals := by
  rw [literals]
  rcases List.mem_append.mp h with h | h
  · obtain ⟨s, hs, h⟩ := List.mem_flatMap.mp h
    rcases List.mem_append.mp h with h | h
    · exact List.mem_append_left _ (List.mem_flatMap.mpr ⟨s, hs, h⟩)
    · exact absurd h (Percent.not_mem_encode hc hu)
  · exact List.mem_append_right _ h

/-- A template that begins with a slash puts out nothing or text that begins with a slash. -/
theorem IsCompiled.rooted_valueText (h : t.IsCompiled) (hk : t.kind = .path ∨ t.kind = .leading)
    (hr : Path.Rooted t.source.toList) (values : String → Option String) :
    Path.Rooted (t.valueText values) := by
  obtain ⟨cut, hcut⟩ := h.built
  have hquery : t.kind ≠ .query := by rcases hk with hk | hk <;> simp [hk]
  have hcore : Path.Rooted t.core := by
    refine Path.Rooted.mono (t := t.body) ⟨_, t.body_eq.symm⟩ ?_
    rwa [body, splitKey, if_neg hquery]
  obtain ⟨slash, htail, hslash⟩ := hcut.tail
  have hslots := hcut.slots
  rw [valueText, htail, Cut.literalText_eq hk]
  rcases Cut.rooted_of_ofChars? hcore hcut.ofChars with ⟨hspans, htailRooted⟩ | ⟨before, span, spans, hspans⟩
  · rw [hspans] at hslots
    rw [List.forall₂_nil_left_iff.mp hslots]
    refine htailRooted.append ?_
    rcases hslash with rfl | ⟨-, rfl⟩
    · exact .inl rfl
    · exact .inr rfl
  · rw [hspans] at hslots
    obtain ⟨s, slots, hs, -, heq⟩ := List.forall₂_cons_left_iff.mp hslots
    rw [heq, List.flatMap_cons, hs.before, Cut.literalText_eq hk]
    exact .inr rfl

theorem IsCompiled.text_eq_nil (h : t.IsCompiled) (hp : t.presenceOnly = true) : t.slots = [] ∧ t.tail = [] := by
  obtain ⟨cut, hcut⟩ := h.built
  obtain ⟨hk, hbody⟩ := hcut.presenceOnly.mp hp
  have hstrict : ¬ t.Strict := fun h => by simp [h.2] at hk
  have hcore : t.core = [] := by
    rw [core, if_neg fun h => hstrict h.1]
    exact List.isEmpty_iff.mp hbody
  have hnil : cut = ⟨[], []⟩ := Option.some.inj (hcut.ofChars.symm.trans (by rw [hcore]; rfl))
  obtain ⟨slash, htail, hslash⟩ := hcut.tail
  have hempty : slash = [] := hslash.resolve_right fun h => hstrict h.1
  have hslots := hcut.slots
  rw [hnil] at hslots htail
  refine ⟨List.forall₂_nil_left_iff.mp hslots, ?_⟩
  rw [htail, hempty]
  simp [literalText]

theorem IsCompiled.toList_expand (h : t.IsCompiled) (hk : t.kind = .query) (he : t.expand values = .ok text) :
    ∃ key, t.queryKey = some key ∧
      (text.toList = Percent.encode key.toList ++ '=' :: t.codedText values ∨
        t.slots = [] ∧ t.tail = [] ∧ text.toList = Percent.encode key.toList) := by
  obtain ⟨filled, hr, rfl⟩ := exists_of_map_eq_ok he
  obtain ⟨key, hkey⟩ : ∃ key, t.queryKey = some key := by
    rw [h.made.queryKey, splitKey, if_pos hk]
    exact ⟨_, rfl⟩
  refine ⟨key, hkey, ?_⟩
  simp only [hkey, fill_of_resolve hr, if_pos hk, String.toList_ofList]
  split
  · rename_i hp
    obtain ⟨hslots, htail⟩ := h.text_eq_nil hp.1
    exact .inr ⟨hslots, htail, rfl⟩
  · exact .inl rfl

end Template

namespace Route

variable {H : Type} {r : Route H} {pairs : List (String × String)} {u : BuiltUrl}

/-- The URL is put together from what the templates of the route put out for the variables. -/
structure Builds (r : Route H) (vars : Vars) (u : BuiltUrl) : Prop where
  scheme : u.scheme = u.host.map fun _ => r.urlScheme
  noHost : r.host = none → u.host = none
  host : ∀ t, r.host = some t → ∃ text, u.host = some text ∧ t.expand vars.get? = .ok text
  noPath : r.path = none → u.path = ""
  path : ∀ t, r.path = some t → ∃ text, t.expand vars.get? = .ok text ∧
    u.path = if r.scope.useEncodedPath then text else Path.encode text
  queries : ∃ qs, List.Forall₂ (fun t q => t.expand vars.get? = .ok q) r.queries qs ∧
    u.query = if qs.isEmpty then none else some ("&".intercalate qs)

theorem forall₂_of_expandQueries {vars : Vars} {ts : List Template} {qs : List String}
    (h : expandQueries vars ts = .ok qs) : List.Forall₂ (fun t q => t.expand vars.get? = .ok q) ts qs := by
  induction ts generalizing qs with
  | nil =>
    cases h
    exact .nil
  | cons t ts ih =>
    rw [expandQueries] at h
    obtain ⟨q, hq, h⟩ := exists_of_bind_eq_ok h
    obtain ⟨rest, hrest, h⟩ := exists_of_bind_eq_ok h
    obtain rfl := Except.ok.inj h
    exact .cons hq (ih hrest)

theorem url_eq (r : Route H) (pairs : List (String × String)) :
    r.url pairs = (r.prepare pairs).bind fun vars =>
      (r.host.elim (.ok none) fun t => (t.expand vars.get?).map some).bind fun host =>
        (r.path.elim (.ok "") fun t => r.expandPath t vars).bind fun path =>
          (expandQueries vars r.queries).map fun qs =>
            ⟨host.map fun _ => r.urlScheme, host, path,
              if qs.isEmpty then none else some ("&".intercalate qs)⟩ := by
  rw [url]
  cases r.host <;> cases r.path <;> rfl

theorem transform_of_prepare {vars : Vars} (h : r.prepare pairs = .ok vars) :
    r.transform (.ofPairs pairs) = vars := by
  rw [prepare] at h
  cases he : r.error with
  | none =>
    rw [he] at h
    exact Except.ok.inj h
  | some e =>
    rw [he] at h
    cases h

theorem url_builds (h : r.url pairs = .ok u) : r.Builds (r.transform (.ofPairs pairs)) u := by
  rw [url_eq] at h
  obtain ⟨vars, hvars, h⟩ := exists_of_bind_eq_ok h
  obtain ⟨host, hhost, h⟩ := exists_of_bind_eq_ok h
  obtain ⟨path, hpath, h⟩ := exists_of_bind_eq_ok h
  obtain ⟨qs, hqs, rfl⟩ := exists_of_map_eq_ok h
  rw [transform_of_prepare hvars]
  refine ⟨rfl, fun hnone => ?_, fun t ht => ?_, fun hnone => ?_, fun t ht => ?_, qs,
    forall₂_of_expandQueries hqs, rfl⟩
  · rw [hnone] at hhost
    exact (Except.ok.inj hhost).symm
  · rw [ht] at hhost
    obtain ⟨text, htext, rfl⟩ := exists_of_map_eq_ok hhost
    exact ⟨text, rfl, htext⟩
  · rw [hnone] at hpath
    exact (Except.ok.inj hpath).symm
  · rw [ht] at hpath
    obtain ⟨text, htext, hpath⟩ := exists_of_map_eq_ok hpath
    exact ⟨text, htext, hpath.symm⟩

end Route

end RequestRouter
