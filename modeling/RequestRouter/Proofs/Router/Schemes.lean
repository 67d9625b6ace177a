import RequestRouter.Proofs.Router.Transforms
/-!
The scheme of URLs. A route starts with the scheme that its mount had when it got its router. Calls with schemes offer
the first one of each; an offer is taken as long as the route has no scheme other than the one it started with. So the
first offer that differs from that one stays.
-/
namespace RequestRouter

open RequestRouter.Http

variable {H : Type}

/-- The scheme of a route that started with one and got some offers. -/
def settledScheme (inherited : Option String) (offers : List String) : Option String :=
  (offers.find? fun x => inherited ≠ some x).or inherited

theorem settledScheme_concat (inherited : Option String) (offers : List String) (x : String) :
    settledScheme inherited (offers ++ [x]) =
      if (settledScheme inherited offers).isSome && settledScheme inherited offers != inherited
      then settledScheme inherited offers else some x := by
  rw [settledScheme, settledScheme, List.find?_append]
  cases hfirst : offers.find? fun x => inherited ≠ some x with
  | some y =>
    have hy : inherited ≠ some y := by simpa using List.find?_some hfirst
    simp [Ne.symm hy]
  | none =>
    by_cases hx : inherited = some x
    · simp [hx]
    · simp [hx]

/-- The first offer is the scheme, or without an offer the one at the start is, unless the first offer is the scheme at
the start and another one comes later. -/
theorem settledScheme_eq_iff (inherited : Option String) (offers : List String) :
    settledScheme inherited offers = offers.head?.or inherited ↔
      (offers.head? = inherited → ∀ x ∈ offers, inherited = some x) := by
  cases hfirst : offers.find? fun x => inherited ≠ some x with
  | none =>
    have hsame : ∀ x ∈ offers, inherited = some x := by simpa using hfirst
    refine iff_of_true ?_ fun _ => hsame
    rw [settledScheme, hfirst, Option.none_or]
    cases offers with
    | nil => rfl
    | cons x rest => exact hsame x List.mem_cons_self
  | some y =>
    have hy : inherited ≠ some y := by simpa using List.find?_some hfirst
    have hmem : y ∈ offers := List.mem_of_find?_eq_some hfirst
    rw [settledScheme, hfirst, Option.some_or]
    obtain ⟨x, rest, rfl⟩ := List.exists_cons_of_ne_nil (List.ne_nil_of_mem hmem)
    by_cases hx : inherited = some x
    · refine iff_of_false (fun h => hy ?_) fun h => hy (h hx.symm y hmem)
      rw [h]
      exact hx
    · rw [List.find?_cons_of_pos (by simpa using hx), Option.some_inj] at hfirst
      exact iff_of_true (hfirst ▸ rfl) fun h => absurd h.symm hx

namespace Call

variable {r : Route H} {st : Setup}

/-- The first scheme of a call with schemes. -/
def offer? : Call H → Option String
  | schemes names => (names.map lowerAscii).head?
  | _ => none

theorem buildScheme_addQueries (pairs : List (String × String)) :
    (addQueries pairs r st).route.buildScheme = r.buildScheme := by
  induction pairs generalizing r st with
  | nil => rfl
  | cons p rest ih =>
    simp only [addQueries]
    split
    · rfl
    · exact ih

/-- The scheme of a route stays as it is but for a call with schemes, and then too if it is one of its own. -/
theorem buildScheme_attempt (c : Call H) :
    (c.attempt r st).route.buildScheme =
      if r.buildScheme.isSome && r.buildScheme != r.scope.buildScheme then r.buildScheme
      else c.offer?.or r.buildScheme := by
  cases c with
  | schemes names =>
    simp only [attempt, addSchemes, addMatcher, offer?]
    split <;> rfl
  | path t | leading t =>
    simp only [attempt, setPath, offer?, Option.none_or, ite_self]
    split
    · rfl
    · split <;> rfl
  | host t =>
    simp only [attempt, setHost, offer?, Option.none_or, ite_self]
    split <;> rfl
  | methods | headers | headerPatterns =>
    simp only [attempt, addMatcher, offer?, Option.none_or, ite_self]
    split <;> rfl
  | queries pairs => simp [attempt, offer?, buildScheme_addQueries]
  | name n =>
    simp only [attempt, setName, offer?, Option.none_or, ite_self]
    split
    · rfl
    · split <;> rfl
  | matcher | buildOnly | handler | transform => simp [attempt, offer?, addMatcher]

theorem settled_apply (c : Call H) {offers : List String} (herror : r.error = none)
    (h : r.buildScheme = settledScheme r.scope.buildScheme offers) :
    (c.apply r st).1.buildScheme =
      settledScheme (c.apply r st).1.scope.buildScheme (offers ++ c.offer?.toList) := by
  have happly : (c.apply r st).1.buildScheme = (c.attempt r st).route.buildScheme := by
    rw [apply, herror]
    rfl
  rw [happly, (c.apply_named r st).scope, buildScheme_attempt]
  cases c.offer? with
  | none => simp [h]
  | some x => simp only [h, Option.toList_some, settledScheme_concat, Option.some_or]

end Call

namespace Route

theorem scheme_of_built {r : Route H} {pairs : List (String × String)} {u : BuiltUrl}
    (h : r.url pairs = .ok u ∨ r.urlHost pairs = .ok u) (hhost : u.host.isSome = true) :
    u.scheme = some r.urlScheme := by
  rcases h with h | h
  · obtain ⟨host, hhost⟩ := Option.isSome_iff_exists.mp hhost
    rw [(url_builds h).scheme, hhost]
    rfl
  · rw [(r.buildsFrom_transform pairs).urlHost, urlHostOf] at h
    cases herror : r.error with
    | some fault => simp [herror] at h
    | none =>
      cases ht : r.host with
      | none => simp [herror, ht] at h
      | some t =>
        simp only [herror, ht, Option.elim_none, Option.elim_some] at h
        obtain ⟨text, -, rfl⟩ := exists_of_map_eq_ok h
        rfl

end Route

/-- What routers hand down of the scheme: a router has the scheme that its mount had, of which `entered` tells, when
the router was created. -/
def Bond.ofSchemes (entered : Route H → Prop) : Bond H where
  top scope := scope.buildScheme = none
  owns scope r := r.scope.buildScheme = scope.buildScheme
  mounts r scope := ∃ mount, entered mount ∧ mount.id = r.id ∧ scope.buildScheme = mount.buildScheme

theorem Bond.ofSchemes_kept (entered : Route H → Prop) : (ofSchemes entered).Kept fun _ _ => True where
  root := rfl
  new _ _ := rfl
  call _ r c st h := (congrArg Scope.buildScheme (c.apply_named r st).scope).trans h
  late scope r c st _ := by
    rintro ⟨mount, hentered, hid, hscheme⟩
    exact ⟨mount, hentered, hid.trans (c.apply_named r st).id.symm, hscheme⟩
  set_top x t h := by cases x <;> exact h
  set_owns x t r h := by cases x <;> exact h
  set_mounts x t r h := by cases x <;> exact h

namespace Session

/-- The scheme that a route at the end of a way starts with: that of the innermost mount when its router was created,
and none without a mount. -/
inductive StartScheme (s : Session H) (ms : List (Move H)) : List (Route H × Router H) → Option String → Prop
  | root : StartScheme s ms [] none
  | below {before after : List (Move H)} {mount : Route H} {front : List (Route H × Router H)}
    {p : Route H × Router H} (hms : ms = before ++ .enter :: after)
    (hopened : (s.moves before).opened = some ⟨mount, none⟩) (hid : mount.id = p.1.id) :
    StartScheme s ms (front ++ [p]) mount.buildScheme

variable {cache : PatternCache} {ms : List (Move H)} {way : List (Route H × Router H)} {e : Entry H}

theorem startScheme_of_leads (hway : ((new cache).moves ms).root.Leads way e) :
    (new cache).StartScheme ms way e.route.scope.buildScheme := by
  let entered (mount : Route H) : Prop := ∃ before after, ms = before ++ .enter :: after ∧
    ((new cache).moves before).opened = some ⟨mount, none⟩
  have hkept := Bond.ofSchemes_kept entered
  obtain ⟨hbound, htop⟩ := (moves_bound hkept (bound_new hkept cache) ms fun before after heq mount hopened =>
    ⟨mount, ⟨before, after, heq, hopened⟩, rfl, rfl⟩).root
  rcases hbound.of_leads hway with ⟨rfl, howns⟩ | ⟨front, mount, sub, rfl, hmounts, howns⟩
  · rw [show e.route.scope.buildScheme = none from howns.trans htop]
    exact .root
  · obtain ⟨entered, ⟨before, after, heq, hopened⟩, hid, hscheme⟩ := hmounts
    rw [show e.route.scope.buildScheme = entered.buildScheme from howns.trans hscheme]
    exact .below heq hopened hid

/-- At every moment the scheme of the URLs with a host of a route is settled by the schemes that its calls have offered,
the first one of each list that is not empty, in lower case: the first offer that differs from the scheme that the
route started with, else that one, else "http". That scheme is the one that the innermost mount had when it got its
router. So the first offer counts, unless it is the scheme that the route started with and another one comes later. -/
theorem moves_scheme (hway : ((new cache).moves ms).root.Leads way e) :
    let offers := (new cache).notes Call.offer? e.route.id ms
    ∃ start, (new cache).StartScheme ms way start ∧
      ∀ pairs u, (e.route.url pairs = .ok u ∨ e.route.urlHost pairs = .ok u) → u.host.isSome = true →
        u.scheme = some ((settledScheme start offers).getD "http") ∧
          ((offers.head? = start → ∀ x ∈ offers, start = some x) →
            u.scheme = some ((offers.head?.or start).getD "http")) := by
  intro offers
  have hsettled : e.route.buildScheme = settledScheme e.route.scope.buildScheme offers :=
    (moves_notes (f := Call.offer?)
      (P := fun (r : Route H) (l : List String) => r.buildScheme = settledScheme r.scope.buildScheme l)
      (fun _ _ => rfl) (fun _ _ c _ herror h => c.settled_apply herror h) cache ms).routes _ hway.mem_flatten
  refine ⟨e.route.scope.buildScheme, startScheme_of_leads hway, fun pairs u hu hhost => ?_⟩
  have hscheme : u.scheme = some ((settledScheme e.route.scope.buildScheme offers).getD "http") := by
    rw [Route.scheme_of_built hu hhost, Route.urlScheme, hsettled]
  refine ⟨hscheme, fun hfirst => ?_⟩
  rw [hscheme, (settledScheme_eq_iff _ _).mpr hfirst]

/-- A route below two mounts offers two schemes of its own, after a list without any. -/
theorem moves_scheme_two_mounts :
    let ms : List (Move Unit) := [.route, .call (.host "example.com"), .call (.schemes []),
      .call (.schemes ["HTTPS"]), .enter, .route, .enter, .route, .call (.path "/x"), .call (.schemes []),
      .call (.schemes ["Ws", "http"]), .call (.schemes ["https"])]
    ∃ way e start, ((new .new).moves ms).root.Leads way e ∧ (new .new).StartScheme ms way start ∧
      e.route.url [] = .ok ⟨some "ws", some "example.com", "/x", none⟩ ∧
      (settledScheme start ["ws", "https"]).getD "http" = "ws" := by
  intro ms
  let e : Entry Unit := ((new .new).moves ms).opened.get (by decide +kernel)
  obtain ⟨way, hway, -⟩ := exists_way_opened (e := e) (Option.some_get _).symm
  have hurl : e.route.url [] = .ok ⟨some "ws", some "example.com", "/x", none⟩ := by decide +kernel
  have hoffers : (new .new).notes Call.offer? e.route.id ms = ["ws", "https"] := by decide +kernel
  obtain ⟨start, hstart, hscheme⟩ := moves_scheme hway
  rw [hoffers] at hscheme
  exact ⟨way, e, start, hway, hstart, hurl, (Option.some.inj (hscheme [] _ (.inl hurl) rfl).1).symm⟩

/-- A route whose mount has "https" offers "https" first and "http" later, and its URLs have "http". -/
theorem moves_scheme_offered_again :
    let ms : List (Move Unit) := [.route, .call (.host "example.com"), .call (.schemes ["https"]), .enter, .route,
      .call (.path "/x"), .call (.schemes ["https"]), .call (.schemes ["http"])]
    ∃ way e, ((new .new).moves ms).root.Leads way e ∧
      ((new .new).notes Call.offer? e.route.id ms).head? = some "https" ∧
      e.route.url [] = .ok ⟨some "http", some "example.com", "/x", none⟩ := by
  intro ms
  let e : Entry Unit := ((new .new).moves ms).opened.get (by decide +kernel)
  obtain ⟨way, hway, -⟩ := exists_way_opened (e := e) (Option.some_get _).symm
  exact ⟨way, e, hway, by decide +kernel, by decide +kernel⟩

end Session

end RequestRouter
