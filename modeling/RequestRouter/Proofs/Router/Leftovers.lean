import RequestRouter.Proofs.Router.Errors
/-!
What a call leaves on a route when it fails. Calls that read all of their arguments first leave nothing but the error.
Templates are stored before the variables of the route are compared, and those of queries one after the other, so that
a call may fail with templates stored already.
-/
namespace RequestRouter

variable {H : Type}

/-- The templates that a call stores, in place of those of the route or behind them. -/
structure Stored where
  host : Option Template
  path : Option Template
  queries : List Template

def Stored.nothing : Stored := ⟨none, none, []⟩

/-- The route with the templates stored. -/
def Stored.on (s : Stored) (r : Route H) : Route H :=
  { r with host := s.host.or r.host, path := s.path.or r.path, queries := r.queries ++ s.queries }

namespace Call

variable {r : Route H} {st : Setup} {e : RouteError}

def compiled? (r : Route H) (st : Setup) (source : String) (kind : TemplateKind) : Option Template :=
  (compile r st source kind).1.toOption

def storedPath? (r : Route H) (st : Setup) (template : String) (kind : TemplateKind) : Option Template :=
  if !template.isEmpty && template.toList.head? != some '/' then none
  else compiled? r st (fullPath r.scope template) kind

def storedQueries (r : Route H) : List (String × String) → Setup → List Template
  | [], _ => []
  | (key, value) :: rest, st =>
    match compile r st (querySource key value) .query with
    | (.error _, _) => []
    | (.ok t, st) => t :: storedQueries r rest st

/-- What a call stores, also if it fails afterwards. -/
def stored (r : Route H) (st : Setup) : Call H → Stored
  | host t => ⟨compiled? r st (r.scope.host.elim t fun parent => t ++ "." ++ parent.source) .host, none, []⟩
  | path t => ⟨none, storedPath? r st t .path, []⟩
  | leading t => ⟨none, storedPath? r st t .leading, []⟩
  | queries pairs => ⟨none, none, storedQueries r pairs st⟩
  | _ => .nothing

theorem nothing_on (r : Route H) : Stored.nothing.on r = r := by
  rw [Stored.nothing, Stored.on, List.append_nil]
  rfl

/-- What a failed attempt leaves: what the call stores, and only patterns in the shared state. A host or a path that
is stored is there before the variables are compared. -/
structure Leaves (r : Route H) (st : Setup) (s : Stored) (a : Attempt H) : Prop where
  route : a.route = s.on r
  setup : a.setup.Shares st
  fault : (s.host.isSome ∨ s.path.isSome) → a.fault = a.route.repeatedVar?

theorem Leaves.nothing {a : Attempt H} (hroute : a.route = r) (hsetup : a.setup.Shares st) :
    Leaves r st .nothing a :=
  ⟨hroute.trans (nothing_on r).symm, hsetup, by simp [Stored.nothing]⟩

theorem setHost_leaves (t : String) : Leaves r st (stored r st (.host t)) (setHost t r st) := by
  simp only [setHost, stored, compiled?]
  cases h : compile r st (r.scope.host.elim t fun parent => t ++ "." ++ parent.source) .host with
  | mk x st' =>
    cases x with
    | error e => exact .nothing rfl (compile_shares h)
    | ok t' => exact ⟨by simp [Stored.on, Except.toOption], compile_shares h, fun _ => rfl⟩

theorem setPath_leaves (t : String) (kind : TemplateKind) :
    Leaves r st ⟨none, storedPath? r st t kind, []⟩ (setPath t kind r st) := by
  simp only [setPath, storedPath?, compiled?]
  split
  · exact .nothing rfl ⟨rfl, rfl, rfl⟩
  · cases h : compile r st (fullPath r.scope t) kind with
    | mk x st' =>
      cases x with
      | error e => exact .nothing rfl (compile_shares h)
      | ok t' => exact ⟨by simp [Stored.on, Except.toOption], compile_shares h, fun _ => rfl⟩

/-- The queries stored so far stay in front of those that are still to come. -/
theorem addQueries_stored (pairs : List (String × String)) (qs : List Template) (st : Setup) :
    (addQueries pairs { r with queries := qs } st).route = { r with queries := qs ++ storedQueries r pairs st } := by
  induction pairs generalizing qs st with
  | nil => rw [addQueries, storedQueries, List.append_nil]
  | cons pair rest ih =>
    have hscope : compile { r with queries := qs } st (querySource pair.1 pair.2) .query =
        compile r st (querySource pair.1 pair.2) .query := rfl
    cases h : compile r st (querySource pair.1 pair.2) .query with
    | mk x st' =>
      simp only [addQueries, storedQueries, hscope, h]
      cases x with
      | error e => rw [List.append_nil]
      | ok t => exact (ih (qs ++ [t]) st').trans (by rw [List.append_assoc, List.singleton_append])

theorem addQueries_leaves (pairs : List (String × String)) :
    Leaves r st ⟨none, none, storedQueries r pairs st⟩ (addQueries pairs r st) :=
  ⟨addQueries_stored pairs r.queries st, (addQueries_shares pairs r st).2.2.2, by simp⟩

theorem attempt_leaves (c : Call H) (h : (c.attempt r st).fault = some e) :
    Leaves r st (c.stored r st) (c.attempt r st) := by
  cases c with
  | path t => exact setPath_leaves t .path
  | leading t => exact setPath_leaves t .leading
  | host t => exact setHost_leaves t
  | queries pairs => exact addQueries_leaves pairs
  | methods names | headers names =>
    simp only [attempt] at h ⊢
    split at h
    · exact .nothing rfl ⟨rfl, rfl, rfl⟩
    · cases h
  | headerPatterns pairs =>
    simp only [attempt] at h ⊢
    split at h
    · exact .nothing rfl ⟨rfl, rfl, rfl⟩
    · cases h
  | name n =>
    simp only [attempt, setName] at h ⊢
    split
    · exact .nothing rfl ⟨rfl, rfl, rfl⟩
    · split
      · exact .nothing rfl ⟨rfl, rfl, rfl⟩
      · rename_i hnone hfree
        rw [hnone, if_neg hfree] at h
        cases h
  | schemes | matcher | transform | buildOnly | handler => cases h

/-- A call that fails changes nothing on a route but its error and the templates that the call had stored, and nothing
in the shared state but the compiled patterns. -/
theorem apply_leaves (c : Call H) (hr : r.error = none) (h : (c.apply r st).1.error = some e) :
    (c.apply r st).1 = { (c.stored r st).on r with error := some e } ∧ (c.apply r st).2.Shares st ∧
      ((c.stored r st).host.isSome ∨ (c.stored r st).path.isSome → ∃ n, e = .duplicateVariable n) := by
  rw [apply_of_no_error c hr] at h ⊢
  have hfault : (c.attempt r st).fault = some e := h
  obtain ⟨hroute, hsetup, hrepeated⟩ := attempt_leaves c hfault
  refine ⟨by rw [hroute, hfault], hsetup, fun hstored => ?_⟩
  have hname := (hrepeated hstored).symm.trans hfault
  obtain ⟨n, -, rfl⟩ := Option.map_eq_some_iff.mp hname
  exact ⟨n, rfl⟩

theorem on_eq_iff (s : Stored) (r : Route H) (error : Option RouteError) :
    ({ s.on r with error } : Route H) = { r with error } ↔
      (∀ t, s.host = some t → r.host = some t) ∧ (∀ t, s.path = some t → r.path = some t) ∧ s.queries = [] := by
  have hor {x y : Option Template} : x.or y = y ↔ ∀ t, x = some t → y = some t := by
    cases x with
    | none => simp
    | some t => simp [eq_comm]
  rw [← hor, ← hor]
  constructor
  · intro h
    exact ⟨congrArg Route.host h, congrArg Route.path h, List.append_right_eq_self.mp (congrArg Route.queries h)⟩
  · rintro ⟨hhost, hpath, hqueries⟩
    rw [Stored.on, hhost, hpath, hqueries, List.append_nil]

/-- A call that fails leaves its error, and of the route nothing else is changed but for the templates that the call had
stored: in the shared state only patterns are compiled. The route is otherwise as before exactly if nothing was stored
that was not there; so it is unless a variable occurs twice or the call is one for queries. -/
theorem apply_failed (c : Call H) (hr : r.error = none) (h : (c.apply r st).1.error = some e) :
    ((c.apply r st).1 = { (c.stored r st).on r with error := some e } ∧ (c.apply r st).2.Shares st) ∧
    ((c.apply r st).1 = { r with error := some e } ↔
      (∀ t, (c.stored r st).host = some t → r.host = some t) ∧
        (∀ t, (c.stored r st).path = some t → r.path = some t) ∧ (c.stored r st).queries = []) ∧
    ((∀ n, e ≠ .duplicateVariable n) → (∀ pairs, c ≠ .queries pairs) →
      (c.apply r st).1 = { r with error := some e }) := by
  obtain ⟨hroute, hsetup, hrepeated⟩ := apply_leaves c hr h
  have hiff := on_eq_iff (c.stored r st) r (some e)
  rw [← hroute] at hiff
  refine ⟨⟨hroute, hsetup⟩, hiff, fun hname hqueries => hiff.mpr ?_⟩
  have hnone : ¬ ((c.stored r st).host.isSome ∨ (c.stored r st).path.isSome) := by
    intro hstored
    obtain ⟨n, hn⟩ := hrepeated hstored
    exact hname n hn
  rw [not_or, Option.not_isSome_iff_eq_none, Option.not_isSome_iff_eq_none] at hnone
  refine ⟨by simp [hnone.1], by simp [hnone.2], ?_⟩
  cases c with
  | queries pairs => exact absurd rfl (hqueries pairs)
  | _ => rfl

/-- The path has the variable of the host, so the call fails, but its template stays on the route; a call with a path
that is no template leaves only its error. -/
theorem apply_failed_path :
    let s := apply (.new .root 0 : Route Unit) (.new .new) (.host "{x}.com")
    s.1.error = none ∧ s.1.path.map (·.source) = none ∧
      (apply s.1 s.2 (.path "/{x}")).1 =
        { (stored s.1 s.2 (.path "/{x}")).on s.1 with error := some (.duplicateVariable "x") } ∧
      (stored s.1 s.2 (.path "/{x}")).path.map (·.source) = some "/{x}" ∧
      (apply s.1 s.2 (.path "/\x7by")).1 = { s.1 with error := some (.unbalancedBraces "/\x7by") } := by
  intro s
  have hs : s.1.error = none ∧ s.1.path.map (·.source) = none := by decide +kernel
  have hfails : (apply s.1 s.2 (.path "/{x}")).1.error = some (.duplicateVariable "x") := by decide +kernel
  have hbraces : (apply s.1 s.2 (.path "/\x7by")).1.error = some (.unbalancedBraces "/\x7by") := by decide +kernel
  exact ⟨hs.1, hs.2, (apply_failed _ hs.1 hfails).1.1, by decide +kernel,
    (apply_failed _ hs.1 hbraces).2.2 nofun nofun⟩

/-- The second pair is no template, so the call fails; the first one stays, on the route and for the routes below it. -/
theorem apply_failed_second_pair :
    let r : Route Unit := .new .root 0
    let failed := (apply r (.new .new) (.queries [("a", "{x}"), ("b", "\x7b")])).1
    r.error = none ∧ r.queries = [] ∧ failed.error = some (.unbalancedBraces "b=\x7b") ∧
      failed.queries.map (·.source) = ["a={x}"] ∧ failed.innerScope.queries.map (·.source) = ["a={x}"] :=
  ⟨rfl, rfl, by decide +kernel⟩

end Call
end RequestRouter
