import RequestRouter.Proofs.Dispatch.Methods
import RequestRouter.Proofs.Router.Building
import RequestRouter.Proofs.Router.Names
/-!
What a rule makes of its route. The calls of a rule are read as changes of what the route has of the rule; calls of
which none fails make exactly these changes, whatever patterns are in the cache and whatever names are taken.
-/
namespace RequestRouter

open RequestRouter.Http

variable {H : Type}

structure Texts where
  host : Option String
  path : Option String
  queries : List String
  deriving DecidableEq, Repr

namespace Texts

def hostBelow (up : Texts) (text : String) : String := up.host.elim text (text ++ "." ++ ·)

/-- A path below another one comes behind it, without the slashes at its end. -/
def pathBelow (up : Texts) (text : String) : String :=
  up.path.elim text fun parent => String.ofList (Call.trimSlashes parent.toList) ++ text

end Texts

/-- What routes created in this scope start from. -/
def Scope.texts (s : Scope) : Texts := ⟨s.host.map (·.source), s.path.map (·.source), s.queries.map (·.source)⟩

def Route.texts (r : Route H) : Texts := ⟨r.host.map (·.source), r.path.map (·.source), r.queries.map (·.source)⟩

namespace RouteSpec

/-- The texts of a rule below templates with the texts `up`. What it does not say is inherited. -/
def texts (up : Texts) (s : RouteSpec) : Texts where
  host := (s.host.map up.hostBelow).or up.host
  path := ((s.path.or s.leading).map up.pathBelow).or up.path
  queries := up.queries ++ s.queries.map fun p => Call.querySource p.1 p.2

/-- The methods of a rule, each of them once, or `none` if it takes all methods. -/
def methodNames? (s : RouteSpec) : Option (List String) :=
  if s.methods.isEmpty then none else some (s.methods.map upperAscii).eraseDups

structure Describes (resolve : String → Option H) (up : Texts) (s : RouteSpec) (r : Route H) : Prop where
  error : r.error = none
  name : r.name = s.name
  buildOnly : r.buildOnly = s.buildOnly
  handler : r.handler = s.handler.bind resolve
  handler_isSome : r.handler.isSome = s.handler.isSome
  methods : r.methods?.map (·.map (·.name)) = s.methodNames?
  valid : ∀ n ∈ s.methods, isToken (upperAscii n) = true
  texts : r.texts = s.texts up

/-- The route is what the rule has made of a new route when it cannot be configured any further. -/
structure Fails (resolve : String → Option H) (up : Texts) (s : RouteSpec) (e : InstallError) (r : Route H) :
    Prop where
  made : ∃ scope id st st', scope.texts = up ∧ s.configure resolve (.new scope id) st = (r, st', some e)
  cause : (∃ err, r.error = some err ∧ e = .route s.label err) ∨
    ∃ key, s.handler = some key ∧ resolve key = none ∧ e = .unknownHandler s.label key

end RouteSpec

theorem Tree.map_name_addMethods (out ms : List Method) :
    (Tree.addMethods out ms).map (·.name) = out.map (·.name) ++
      ((ms.map (·.name)).filter fun n => !(out.map (·.name)).contains n).eraseDups := by
  induction ms generalizing out with
  | nil => simp [addMethods]
  | cons m ms ih =>
    have hstep : addMethods out (m :: ms) = addMethods (if out.contains m then out else out ++ [m]) ms := rfl
    have hmem : (out.map (·.name)).contains m.name = out.contains m := by
      rw [Bool.eq_iff_iff, List.contains_iff_mem, List.contains_iff_mem]
      exact List.mem_map_of_injective fun _ _ hname => congrArg Method.mk hname
    rw [hstep, ih, List.map_cons]
    cases hc : out.contains m with
    | true => rw [if_pos rfl, List.filter_cons_of_neg (by rw [hmem, hc]; decide)]
    | false =>
      rw [if_neg (by decide), List.filter_cons_of_pos (by rw [hmem, hc]; rfl), List.eraseDups_cons,
        List.filter_filter, List.map_append, List.append_assoc]
      refine congrArg (_ ++ m.name :: List.eraseDups ·) (List.filter_congr fun n _ => ?_)
      rw [List.contains_append, Bool.not_or, Bool.and_comm, List.map_singleton, List.contains_cons, List.contains_nil,
        Bool.or_false]

/-- What a route has of the things that rules say, beside conditions on schemes and headers. -/
structure Traits (H : Type) where
  name : Option String
  buildOnly : Bool
  handler : Option H
  /-- The conditions on methods. -/
  methods : List (List String)
  texts : Texts

def Route.traits (r : Route H) : Traits H :=
  ⟨r.name, r.buildOnly, r.handler, (r.matchers.filterMap Matcher.methods?).map (·.map (·.name)), r.texts⟩

namespace Call

variable {r : Route H} {st : Setup}

/-- What a call that does not fail changes on a route below templates with the texts `up`. -/
def adjust (up : Texts) (x : Traits H) : Call H → Traits H
  | path t | leading t => { x with texts.path := some (up.pathBelow t) }
  | host t => { x with texts.host := some (up.hostBelow t) }
  | queries pairs => { x with texts.queries := x.texts.queries ++ pairs.map fun p => querySource p.1 p.2 }
  | methods names => { x with methods := x.methods ++ [names.map upperAscii] }
  | buildOnly => { x with buildOnly := true }
  | name n => { x with name := some n }
  | handler h => { x with handler := some h }
  | headers _ | headerPatterns _ | schemes _ | matcher _ | transform _ => x

theorem source_of_compile {source : String} {kind : TemplateKind} {t : Template} {st' : Setup}
    (h : compile r st source kind = (.ok t, st')) : t.source = source :=
  (Template.compileWith_kept (congrArg Prod.fst h)).1

theorem names_of_readMethods {names : List String} {ms : List Method} (h : readMethods names = .ok ms) :
    ms.map (·.name) = names.map upperAscii ∧ ∀ n ∈ names, isToken (upperAscii n) = true := by
  induction names generalizing ms with
  | nil =>
    cases h
    exact ⟨rfl, List.forall_mem_nil _⟩
  | cons n names ih =>
    rw [readMethods] at h
    cases hm : Method.ofString? (upperAscii n) with
    | none => simp [hm] at h
    | some m =>
      rw [hm] at h
      obtain ⟨rest, hrest, rfl⟩ := exists_of_map_eq_ok h
      obtain ⟨htoken, rfl⟩ : isToken (upperAscii n) = true ∧ ⟨upperAscii n⟩ = m := by
        simpa [Method.ofString?] using hm
      obtain ⟨hnames, htokens⟩ := ih hrest
      exact ⟨by rw [List.map_cons, List.map_cons, hnames], List.forall_mem_cons.mpr ⟨htoken, htokens⟩⟩

theorem traits_addQueries (pairs : List (String × String)) (h : (addQueries pairs r st).fault = none) (up : Texts) :
    (addQueries pairs r st).route.traits = (queries pairs).adjust up r.traits := by
  induction pairs generalizing r st with
  | nil => simp [addQueries, adjust]
  | cons p rest ih =>
    simp only [addQueries] at h ⊢
    split at h
    · cases h
    · rename_i t st' heq
      rw [ih h]
      simp [adjust, Route.traits, Route.texts, source_of_compile heq]

theorem traits_setPath {text : String} {kind : TemplateKind} (h : (setPath text kind r st).fault = none) :
    (setPath text kind r st).route.traits =
      { r.traits with texts.path := some (r.scope.texts.pathBelow text) } := by
  simp only [setPath] at h ⊢
  split at h
  · cases h
  rename_i hslash
  rw [if_neg hslash]
  split at h
  · cases h
  rename_i t st' heq
  have hfull : fullPath r.scope text = r.scope.texts.pathBelow text := by
    rw [fullPath, Texts.pathBelow, Scope.texts]
    cases r.scope.path <;> rfl
  simp [Route.traits, Route.texts, source_of_compile heq, hfull]

theorem traits_setHost {text : String} (h : (setHost text r st).fault = none) :
    (setHost text r st).route.traits = (host text).adjust r.scope.texts r.traits := by
  simp only [setHost] at h ⊢
  split at h
  · cases h
  rename_i t st' heq
  have hfull : (r.scope.host.elim text fun parent => text ++ "." ++ parent.source) =
      r.scope.texts.hostBelow text := by
    rw [Texts.hostBelow, Scope.texts]
    cases r.scope.host <;> rfl
  simp [adjust, Route.traits, Route.texts, source_of_compile heq, hfull]

theorem traits_attempt (c : Call H) (h : (c.attempt r st).fault = none) :
    (c.attempt r st).route.traits = c.adjust r.scope.texts r.traits := by
  cases c with
  | path t | leading t => exact traits_setPath h
  | host t => exact traits_setHost h
  | queries pairs => exact traits_addQueries pairs h _
  | methods names =>
    simp only [attempt] at h ⊢
    split at h
    · cases h
    · rename_i ms heq
      simp [adjust, Route.traits, addMatcher, Route.texts, Matcher.methods?, (names_of_readMethods heq).1]
  | headers pairs =>
    simp only [attempt] at h ⊢
    split at h
    · cases h
    · simp [adjust, Route.traits, addMatcher, Route.texts, Matcher.methods?]
  | headerPatterns pairs =>
    simp only [attempt] at h ⊢
    split at h
    · cases h
    · simp [adjust, Route.traits, addMatcher, Route.texts, Matcher.methods?]
  | schemes names =>
    simp only [attempt, addSchemes, addMatcher, adjust]
    split <;> simp [Route.traits, Route.texts, Matcher.methods?]
  | matcher judge => simp [attempt, adjust, Route.traits, addMatcher, Route.texts, Matcher.methods?]
  | name n =>
    simp only [attempt, setName] at h ⊢
    split at h
    · cases h
    split at h
    · cases h
    simp_all [adjust, Route.traits, Route.texts]
  | transform | buildOnly | handler => rfl

theorem traits_applyAll (calls : List (Call H)) (h : (applyAll calls r st).1.error = none) :
    (applyAll calls r st).1.traits = calls.foldl (adjust r.scope.texts) r.traits := by
  induction calls generalizing r st with
  | nil => rfl
  | cons c calls ih =>
    rw [applyAll_cons] at h ⊢
    cases hc : (c.apply r st).1.error with
    | some e =>
      rw [applyAll_of_error calls (by simp [hc]), hc] at h
      cases h
    | none =>
      have hr : ¬ r.error.isSome = true := by
        intro hr
        rw [apply, if_pos hr] at hc
        rw [show r.error = none from hc] at hr
        cases hr
      rw [ih h, (c.apply_named r st).scope, List.foldl_cons]
      rw [apply, if_neg hr] at hc ⊢
      exact congrArg (calls.foldl _) (traits_attempt c hc)

theorem exists_attempt {calls : List (Call H)} (h : (applyAll calls r st).1.error = none) {c : Call H}
    (hc : c ∈ calls) : ∃ r' st', (c.attempt r' st' : Attempt H).fault = none := by
  induction calls generalizing r st with
  | nil => cases hc
  | cons d calls ih =>
    rw [applyAll_cons] at h
    rcases List.mem_cons.mp hc with rfl | hc
    · refine ⟨r, st, ?_⟩
      by_contra hfault
      have hsome : (c.apply r st).1.error.isSome = true := by
        rw [apply]
        split
        · assumption
        · exact Option.isSome_iff_ne_none.mpr hfault
      rw [applyAll_of_error calls hsome] at h
      rw [h] at hsome
      cases hsome
    · exact ih h hc

end Call

namespace RouteSpec

theorem foldl_calls (up : Texts) (s : RouteSpec) :
    s.calls.foldl (Call.adjust up) (⟨none, false, none, [], up⟩ : Traits H) =
      ⟨s.name, s.buildOnly, none, if s.methods.isEmpty then [] else [s.methods.map upperAscii], s.texts up⟩ := by
  have hhost (x : Traits H) : (s.host.map Call.host).toList.foldl (Call.adjust up) x =
      { x with texts.host := (s.host.map up.hostBelow).or x.texts.host } := by cases s.host <;> rfl
  have hleading (x : Traits H) : (s.leading.map Call.leading).toList.foldl (Call.adjust up) x =
      { x with texts.path := (s.leading.map up.pathBelow).or x.texts.path } := by cases s.leading <;> rfl
  have hpath (x : Traits H) : (s.path.map Call.path).toList.foldl (Call.adjust up) x =
      { x with texts.path := (s.path.map up.pathBelow).or x.texts.path } := by cases s.path <;> rfl
  have hname (x : Traits H) : (s.name.map Call.name).toList.foldl (Call.adjust up) x =
      { x with name := s.name.or x.name } := by cases s.name <;> rfl
  have hmethods (x : Traits H) :
      (if s.methods.isEmpty then [] else [Call.methods s.methods]).foldl (Call.adjust up) x =
        { x with methods := x.methods ++ if s.methods.isEmpty then [] else [s.methods.map upperAscii] } := by
    split <;> simp [Call.adjust]
  have hqueries (x : Traits H) :
      (if s.queries.isEmpty then [] else [Call.queries s.queries]).foldl (Call.adjust up) x =
        (Call.queries s.queries).adjust up x := by
    split
    · rename_i hempty
      simp [Call.adjust, List.isEmpty_iff.mp hempty]
    · rfl
  have hschemes (x : Traits H) :
      (if s.schemes.isEmpty then [] else [Call.schemes s.schemes]).foldl (Call.adjust up) x = x := by split <;> rfl
  have hheaders (x : Traits H) :
      (if s.headers.isEmpty then [] else [Call.headers s.headers]).foldl (Call.adjust up) x = x := by split <;> rfl
  have hbuild (x : Traits H) : (if s.buildOnly then [Call.buildOnly] else []).foldl (Call.adjust up) x =
      { x with buildOnly := s.buildOnly || x.buildOnly } := by cases s.buildOnly <;> rfl
  have hboth : (s.path.map up.pathBelow).or ((s.leading.map up.pathBelow).or up.path) =
      ((s.path.or s.leading).map up.pathBelow).or up.path := by cases s.path <;> rfl
  simp only [calls, List.foldl_append, hhost, hleading, hpath, hmethods, hschemes, hheaders, hqueries, hbuild, hname,
    Call.adjust, hboth, Option.or_none, Bool.or_false, List.nil_append, texts]

variable {resolve : String → Option H} {s : RouteSpec} {scope : Scope} {id : RouteId} {st st' : Setup} {r : Route H}

theorem methods?_of_traits (h : r.traits.methods = if s.methods.isEmpty then [] else [s.methods.map upperAscii]) :
    r.methods?.map (·.map (·.name)) = s.methodNames? := by
  have hlists : (r.matchers.filterMap Matcher.methods?).map (·.map (·.name)) =
      if s.methods.isEmpty then [] else [s.methods.map upperAscii] := h
  rw [Route.methods?_eq, methodNames?]
  cases hl : r.matchers.filterMap Matcher.methods? with
  | nil =>
    rw [hl] at hlists
    split at hlists
    · rename_i hempty
      rw [if_pos hempty]
      rfl
    · cases hlists
  | cons ms more =>
    rw [hl] at hlists
    split at hlists
    · cases hlists
    · rename_i hempty
      obtain ⟨hms, hmore⟩ := List.cons.inj hlists
      obtain rfl := List.map_eq_nil_iff.mp hmore
      rw [if_neg hempty, ← hms]
      simp [Tree.map_name_addMethods]

theorem configure_eq (resolve : String → Option H) (s : RouteSpec) (r : Route H) (st : Setup) :
    s.configure resolve r st =
      let x := Call.applyAll (s.calls ++ ((s.handler.bind resolve).map .handler).toList) r st
      (x.1, x.2, ((s.handler.filter fun key => (resolve key).isNone).map (.unknownHandler s.label)).or
        (x.1.error.map (.route s.label))) := by
  rw [configure]
  cases hkey : s.handler with
  | none => simp
  | some key =>
    cases hh : resolve key with
    | none => simp [hh, Option.filter_some]
    | some h => simp [hh, Option.filter_some, Call.applyAll, List.foldl_append]

theorem describes_of_configure (h : s.configure resolve (.new scope id) st = (r, st', none)) :
    s.Describes resolve scope.texts r := by
  rw [configure_eq] at h
  simp only [Prod.mk.injEq, Option.or_eq_none_iff, Option.map_eq_none_iff] at h
  obtain ⟨rfl, -, hknown, herror⟩ := h
  have htraits := Call.traits_applyAll _ herror
  have hnew : (Route.new scope id : Route H).traits = ⟨none, false, none, [], scope.texts⟩ := rfl
  have hhandler (x : Traits H) (hx : x.handler = none) :
      ((s.handler.bind resolve).map Call.handler).toList.foldl (Call.adjust scope.texts) x =
        { x with handler := s.handler.bind resolve } := by
    cases s.handler.bind resolve with
    | none => exact congrArg (fun h => { x with handler := h }) hx
    | some h => rfl
  rw [List.foldl_append, hnew, show (Route.new scope id : Route H).scope = scope from rfl, foldl_calls,
    hhandler _ rfl] at htraits
  have hfound : (Call.applyAll _ _ _).1.handler = s.handler.bind resolve := congrArg Traits.handler htraits
  refine ⟨herror, congrArg Traits.name htraits, congrArg Traits.buildOnly htraits, hfound, ?_,
    methods?_of_traits (congrArg Traits.methods htraits), fun n hn => ?_, congrArg Traits.texts htraits⟩
  · rw [hfound]
    cases hkey : s.handler with
    | none => rfl
    | some key => simpa [hkey, Option.filter_some, ← Option.isSome_iff_ne_none] using hknown
  · have hcall : Call.methods s.methods ∈ s.calls ++ ((s.handler.bind resolve).map Call.handler).toList := by
      have hsome : s.methods.isEmpty = false := by
        rw [List.isEmpty_eq_false_iff]
        exact List.ne_nil_of_mem hn
      simp [calls, hsome]
    obtain ⟨r', st'', hfault⟩ := Call.exists_attempt herror hcall
    cases hread : Call.readMethods s.methods with
    | error e => simp [Call.attempt, hread] at hfault
    | ok ms => exact (Call.names_of_readMethods hread).2 n hn

/-- A rule that is not configured leaves its error on its route, or its handler is not known. -/
theorem fails_of_configure {e : InstallError} (h : s.configure resolve (.new scope id) st = (r, st', some e)) :
    s.Fails resolve scope.texts e r := by
  refine ⟨⟨scope, id, st, st', rfl, h⟩, ?_⟩
  rw [configure_eq] at h
  simp only [Prod.mk.injEq, Option.or_eq_some_iff, Option.map_eq_some_iff, Option.filter_eq_some_iff] at h
  obtain ⟨rfl, -, ⟨key, ⟨hkey, hunknown⟩, rfl⟩ | ⟨-, err, herr, rfl⟩⟩ := h
  · exact .inr ⟨key, hkey, by simpa using hunknown, rfl⟩
  · exact .inl ⟨err, herr, rfl⟩

end RouteSpec

end RequestRouter
