import RequestRouter.Router.Matcher
import RequestRouter.Router.View
/-!
Routes and how they are configured. A route takes a snapshot of what its router hands down when it is
created. The first call that fails leaves its error on the route, and later calls do nothing.
-/
namespace RequestRouter

open RequestRouter.Http

/-- What a router hands down to the routes created on it. -/
structure Scope where
  strictSlash : Bool
  skipClean : Bool
  useEncodedPath : Bool
  host : Option Template
  path : Option Template
  queries : List Template
  buildScheme : Option String
  /-- The transforms of the mounts above, the nearest mount first. -/
  transforms : List Transform

def Scope.root : Scope := ⟨false, false, false, none, none, [], none, []⟩

/-- One rule of a router. `H` is the type of handlers. -/
structure Route (H : Type) where
  id : RouteId
  scope : Scope
  matchers : List Matcher
  host : Option Template
  path : Option Template
  queries : List Template
  handler : Option H
  name : Option String
  error : Option RouteError
  /-- The route is only there for building URLs. -/
  buildOnly : Bool
  buildScheme : Option String
  transforms : List Transform

/-- What the routers of one tree share: the names given to routes, the patterns compiled, and the next
identities. -/
structure Setup where
  names : List (String × RouteId)
  cache : PatternCache
  nextRoute : RouteId
  nextRouter : Nat

def Setup.new (cache : PatternCache) : Setup := ⟨[], cache, 0, 0⟩

namespace Route

variable {H : Type}

def new (scope : Scope) (id : RouteId) : Route H :=
  ⟨id, scope, [], scope.host, scope.path, scope.queries, none, none, none, false, scope.buildScheme, []⟩

def templates (r : Route H) : List Template := r.host.toList ++ r.path.toList ++ r.queries

def varNames (r : Route H) : List String := r.templates.flatMap Template.varNames

def firstRepeated : List String → List String → Option String
  | _, [] => none
  | seen, n :: ns => if seen.contains n then some n else firstRepeated (n :: seen) ns

def repeatedVar? (r : Route H) : Option RouteError := (firstRepeated [] r.varNames).map .duplicateVariable

/-- The methods of all conditions on methods, each once, or `none` without such a condition. -/
def methods? (r : Route H) : Option (List Method) :=
  match r.matchers.filterMap Matcher.methods? with
  | [] => none
  | lists => some (lists.flatten.foldl (fun out m => if out.contains m then out else out ++ [m]) [])

def info (r : Route H) : RouteInfo where
  id := r.id
  name := r.name
  host := r.host.map (·.source)
  path := r.path.map (·.source)
  methods := r.methods?.getD []

/-- The own transforms in order, then those of the mounts above, the nearest first. -/
def transform (r : Route H) (vars : Vars) : Vars :=
  (r.transforms ++ r.scope.transforms).foldl (fun vs f => f vs) vars

def innerScope (r : Route H) : Scope :=
  { r.scope with
    host := r.host
    path := r.path
    queries := r.queries
    buildScheme := r.buildScheme
    transforms := r.transforms ++ r.scope.transforms }

end Route

/-- What a call came to: the route and the shared state as they are now, and what went wrong. -/
structure Attempt (H : Type) where
  route : Route H
  setup : Setup
  fault : Option RouteError

/-- A configuration call. -/
inductive Call (H : Type) where
  | path (template : String)
  | leading (template : String)
  | host (template : String)
  | methods (names : List String)
  | headers (pairs : List (String × String))
  | headerPatterns (pairs : List (String × String))
  | queries (pairs : List (String × String))
  | schemes (names : List String)
  | matcher (judge : Request → Verdict)
  | transform (f : Transform)
  | buildOnly
  | name (name : String)
  | handler (h : H)

namespace Call

variable {H : Type}

def compile (r : Route H) (st : Setup) (source : String) (kind : TemplateKind) :
    Except RouteError Template × Setup :=
  let (t, cache) := Template.compile source kind ⟨r.scope.strictSlash, r.scope.useEncodedPath⟩ st.cache
  (t, { st with cache })

def setHost (template : String) (r : Route H) (st : Setup) : Attempt H :=
  let full := r.scope.host.elim template fun parent => template ++ "." ++ parent.source
  match compile r st full .host with
  | (.error e, st) => ⟨r, st, some e⟩
  | (.ok t, st) => let r := { r with host := some t }; ⟨r, st, r.repeatedVar?⟩

def trimSlashes (s : List Char) : List Char := (s.reverse.dropWhile (· == '/')).reverse

/-- The path below a mount, which stands in front of it without its last slashes. -/
def fullPath (scope : Scope) (template : String) : String :=
  scope.path.elim template fun parent => String.ofList (trimSlashes parent.source.toList) ++ template

def setPath (template : String) (kind : TemplateKind) (r : Route H) (st : Setup) : Attempt H :=
  if !template.isEmpty && template.toList.head? != some '/' then
    ⟨r, st, some (.pathMustStartWithSlash template)⟩
  else
    match compile r st (fullPath r.scope template) kind with
    | (.error e, st) => ⟨r, st, some e⟩
    | (.ok t, st) => let r := { r with path := some t }; ⟨r, st, r.repeatedVar?⟩

/-- Methods are written in upper case; the first one that is not valid counts. -/
def readMethods : List String → Except RouteError (List Method)
  | [] => .ok []
  | n :: ns =>
    match Method.ofString? (upperAscii n) with
    | none => .error (.invalidMethod (upperAscii n))
    | some m => (readMethods ns).map (m :: ·)

def readHeaders : List (String × String) → Except RouteError (List (HeaderName × String))
  | [] => .ok []
  | (n, v) :: rest =>
    match HeaderName.ofString? n with
    | none => .error (.invalidHeader n)
    | some field => (readHeaders rest).map ((field, v) :: ·)

/-- Header names with patterns; an empty pattern is none. -/
def readHeaderPatterns (cache : PatternCache) :
    List (String × String) → Except RouteError (List (HeaderName × Option Regex)) × PatternCache
  | [] => (.ok [], cache)
  | (n, p) :: rest =>
    match HeaderName.ofString? n with
    | none => (.error (.invalidHeader n), cache)
    | some field =>
      if p.isEmpty then
        let (more, cache) := readHeaderPatterns cache rest
        (more.map ((field, none) :: ·), cache)
      else
        match cache.compile p with
        | (none, cache) => (.error (.invalidPattern p .malformed), cache)
        | (some regex, cache) =>
          let (more, cache) := readHeaderPatterns cache rest
          (more.map ((field, some regex) :: ·), cache)

/-- The query template of a key and a value; without a value the key is enough. -/
def querySource (key value : String) : String := if value.isEmpty then key else key ++ "=" ++ value

def addQueries : List (String × String) → Route H → Setup → Attempt H
  | [], r, st => ⟨r, st, r.repeatedVar?⟩
  | (key, value) :: rest, r, st =>
    match compile r st (querySource key value) .query with
    | (.error e, st) => ⟨r, st, some e⟩
    | (.ok t, st) => addQueries rest { r with queries := r.queries ++ [t] } st

def addMatcher (m : Matcher) (r : Route H) : Route H := { r with matchers := r.matchers ++ [m] }

/-- Adds a condition on the scheme. The first scheme becomes the scheme of built URLs unless the route has
one of its own already. -/
def addSchemes (names : List String) (r : Route H) : Route H :=
  let schemes := names.map lowerAscii
  let own := r.buildScheme.isSome && r.buildScheme != r.scope.buildScheme
  addMatcher (.schemes schemes)
    (if own then r else { r with buildScheme := schemes.head?.or r.buildScheme })

def setName (name : String) (r : Route H) (st : Setup) : Attempt H :=
  match r.name with
  | some existing => ⟨r, st, some (.routeAlreadyNamed existing name)⟩
  | none =>
    if (st.names.lookup name).isSome then ⟨r, st, some (.duplicateRouteName name)⟩
    else ⟨{ r with name := some name }, { st with names := (name, r.id) :: st.names }, none⟩

def attempt (r : Route H) (st : Setup) : Call H → Attempt H
  | path t => setPath t .path r st
  | leading t => setPath t .leading r st
  | host t => setHost t r st
  | methods names =>
    match readMethods names with
    | .error e => ⟨r, st, some e⟩
    | .ok ms => ⟨addMatcher (.methods ms) r, st, none⟩
  | headers pairs =>
    match readHeaders pairs with
    | .error e => ⟨r, st, some e⟩
    | .ok hs => ⟨addMatcher (.headers hs) r, st, none⟩
  | headerPatterns pairs =>
    match readHeaderPatterns st.cache pairs with
    | (.error e, cache) => ⟨r, { st with cache }, some e⟩
    | (.ok hs, cache) => ⟨addMatcher (.headerPatterns hs) r, { st with cache }, none⟩
  | queries pairs => addQueries pairs r st
  | schemes names => ⟨addSchemes names r, st, none⟩
  | matcher judge => ⟨addMatcher (.custom judge) r, st, none⟩
  | transform f => ⟨{ r with transforms := r.transforms ++ [f] }, st, none⟩
  | buildOnly => ⟨{ r with buildOnly := true }, st, none⟩
  | name n => setName n r st
  | handler h => ⟨{ r with handler := some h }, st, none⟩

/-- Carries out a call; on a route with an error nothing happens. -/
def apply (r : Route H) (st : Setup) (call : Call H) : Route H × Setup :=
  if r.error.isSome then (r, st)
  else
    let a := call.attempt r st
    ({ a.route with error := a.fault }, a.setup)

def applyAll (calls : List (Call H)) (r : Route H) (st : Setup) : Route H × Setup :=
  calls.foldl (fun s c => c.apply s.1 s.2) (r, st)

theorem applyAll_cons (c : Call H) (calls : List (Call H)) (r : Route H) (st : Setup) :
    applyAll (c :: calls) r st = applyAll calls (c.apply r st).1 (c.apply r st).2 := rfl

end Call

end RequestRouter
