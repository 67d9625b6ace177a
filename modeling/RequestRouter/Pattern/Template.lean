import RequestRouter.Error
import RequestRouter.Pattern.Cache
import RequestRouter.Pattern.Span
import RequestRouter.Pattern.Validator
import RequestRouter.Regex.Escape
import RequestRouter.Text.Coding
/-!
Templates: literal text with variables `{name}` or `{name:constraint}`. A template compiles to a pattern
that takes the values of its variables out of a text, and it keeps what it needs to put values back. A
constraint is the name of a shorthand or a pattern, which goes into the whole pattern as it is written.
-/
namespace RequestRouter

open RequestRouter.Text

/-- What a template is matched against. -/
inductive TemplateKind where
  /-- The whole path. -/
  | path
  /-- The host, in lower case. -/
  | host
  /-- The beginning of the path. -/
  | leading
  /-- The value of a query parameter, after `key=`. -/
  | query
  deriving DecidableEq, Repr

/-- What a variable without a constraint matches: anything up to the next separator. -/
def TemplateKind.defaultPattern : TemplateKind → String
  | path | leading => "[^/]+"
  | host => "[^.]+"
  | query => ".*"

structure TemplateOptions where
  /-- A path matches with and without its final slash. -/
  strictSlash : Bool
  /-- The path is matched as it was sent. -/
  useEncodedPath : Bool
  deriving DecidableEq, Repr

structure Variable where
  name : String
  /-- The name of the group that captures it. -/
  group : String
  /-- The pattern inside that group. -/
  pattern : String
  validator : Validator
  deriving DecidableEq, Repr

structure Slot where
  before : List Char
  var : Variable
  deriving DecidableEq, Repr

/-- A compiled template. -/
structure Template where
  /-- The template as written, in a query with its key. -/
  source : String
  kind : TemplateKind
  options : TemplateOptions
  regex : Regex
  /-- For hosts: the pattern of the last labels of a longer host. -/
  suffix : Option Regex
  slots : List Slot
  /-- The literal text after the last variable. -/
  tail : List Char
  /-- A host template without a port matches hosts with any port. -/
  ignoresPort : Bool
  queryKey : Option String
  /-- A query template without a value asks only for the key. -/
  presenceOnly : Bool
  deriving DecidableEq, Repr

namespace Template

/-- The literal text of a template; hosts do not depend on case. -/
def literalText (kind : TemplateKind) (s : List Char) : List Char :=
  if kind = .host then s.map Char.toLower else s

def patternValidator (build : Regex.Builder) (cache : PatternCache) (pattern : String) :
    Except RouteError Validator × PatternCache :=
  match cache.compileWith build (anchored pattern) with
  | (some r, cache) => (.ok ⟨r, none⟩, cache)
  | (none, cache) => (.error (.invalidPattern pattern .malformed), cache)

def constraintValidator (build : Regex.Builder) (kind : TemplateKind) (cache : PatternCache) (span : String) :
    Option String → Except RouteError (String × Validator) × PatternCache
  | none =>
    let (v, cache) := patternValidator build cache kind.defaultPattern
    (v.map (kind.defaultPattern, ·), cache)
  | some "" => (.error (.invalidPattern span .emptyConstraint), cache)
  | some constraint =>
    match Shorthand.lookup? constraint with
    | some s => (.ok (s.pattern, s.validatorWith build), cache)
    | none =>
      let (v, cache) := patternValidator build cache constraint
      (v.map (constraint, ·), cache)

/-- The variable of a span: its name is not empty and is not among `used`. -/
def compileSpan (build : Regex.Builder) (source : String) (kind : TemplateKind) (used : List String)
    (cache : PatternCache) (span : List Char) : Except RouteError Variable × PatternCache :=
  let (name, constraint) := Form.cut ':' span
  let name := String.ofList name
  if name.isEmpty then (.error (.missingVariableName source), cache)
  else if used.contains name then (.error (.duplicateVariable name), cache)
  else
    let (r, cache) := constraintValidator build kind cache (String.ofList span) (constraint.map String.ofList)
    (r.map fun (pattern, validator) => ⟨name, "v" ++ toString used.length, pattern, validator⟩, cache)

/-- The slots of the spans of a template, given the names of the spans before. The first fault counts. -/
def compileSpans (build : Regex.Builder) (source : String) (kind : TemplateKind) (used : List String)
    (cache : PatternCache) : List (List Char × List Char) → Except RouteError (List Slot) × PatternCache
  | [] => (.ok [], cache)
  | (before, span) :: spans =>
    match compileSpan build source kind used cache span with
    | (.error e, cache) => (.error e, cache)
    | (.ok var, cache) =>
      let (r, cache) := compileSpans build source kind (used ++ [var.name]) cache spans
      (r.map (⟨literalText kind before, var⟩ :: ·), cache)

/-- The pattern of a slot: the literal text, then a named group around the pattern of the variable. -/
def Slot.regexText (s : Slot) : List Char :=
  Regex.literal s.before ++ "(?P<".toList ++ s.var.group.toList ++ '>' :: s.var.pattern.toList ++ [')']

def regexBody (kind : TemplateKind) (strict presenceOnly : Bool) (slots : List Slot) (tail : List Char) :
    List Char :=
  slots.flatMap Slot.regexText ++ Regex.literal tail
    ++ (if strict then "[/]?".toList else [])
    ++ (if presenceOnly then kind.defaultPattern.toList else [])
    ++ (if kind = .leading then [] else ['$'])

/-- The key and the value part of a template; only query templates have a key. -/
def splitKey (kind : TemplateKind) (s : List Char) : Option (List Char) × List Char :=
  if kind = .query then (some (Form.cut '=' s).1, (Form.cut '=' s).2.getD []) else (none, s)

def compileWhole (build : Regex.Builder) (source : String) (kind : TemplateKind) (body : List Char)
    (cache : PatternCache) : Except RouteError (Regex × Option Regex) × PatternCache :=
  match cache.compileWith build (String.ofList ('^' :: body)) with
  | (none, cache) => (.error (.invalidPattern source .malformed), cache)
  | (some regex, cache) =>
    if kind = .host then
      match cache.compileWith build (String.ofList ("(?:^|\\.)".toList ++ body)) with
      | (none, cache) => (.error (.invalidPattern source .malformed), cache)
      | (some suffix, cache) => (.ok (regex, some suffix), cache)
    else (.ok (regex, none), cache)

/-- Compiles a template, looking patterns up in the cache. Unbalanced braces come before any other fault,
then the leftmost faulty span, then the pattern as a whole. -/
def compileWith (build : Regex.Builder) (source : String) (kind : TemplateKind) (options : TemplateOptions)
    (cache : PatternCache) : Except RouteError Template × PatternCache :=
  let (key, body) := splitKey kind source.toList
  let presenceOnly := kind = .query ∧ body.isEmpty
  match Cut.ofChars? body with
  | none => (.error (.unbalancedBraces source), cache)
  | some cut =>
    let strict := options.strictSlash ∧ kind = .path
    let endSlash := strict ∧ body.getLast? = some '/'
    match compileSpans build source kind [] cache cut.spans with
    | (.error e, cache) => (.error e, cache)
    | (.ok slots, cache) =>
      let tail := literalText kind (if endSlash then cut.tail.dropLast else cut.tail)
      match compileWhole build source kind (regexBody kind strict presenceOnly slots tail) cache with
      | (.error e, cache) => (.error e, cache)
      | (.ok (regex, suffix), cache) =>
        (.ok {
          source, kind, options, regex, suffix, slots
          tail := if endSlash then tail ++ ['/'] else tail
          ignoresPort := kind = .host ∧ ¬ (slots.any (·.before.contains ':') ∨ tail.contains ':')
          queryKey := key.map String.ofList
          presenceOnly }, cache)

/-- Compiles a template with the patterns that can be read. -/
def compile (source : String) (kind : TemplateKind) (options : TemplateOptions) (cache : PatternCache) :
    Except RouteError Template × PatternCache :=
  compileWith Regex.compile? source kind options cache

def varNames (t : Template) : List String := t.slots.map (·.var.name)

/-- A template for the beginning of a path matches whatever comes after. -/
def isWildcard (t : Template) : Bool := t.kind == .leading

def hasTrailingSlash (t : Template) : Bool := t.source.toList.getLast? == some '/'

/-- The values that a match gives to the variables, in their order; a group that took part in no match
stands for the empty text. The rules beside the patterns are checked too. -/
def values (slots : List Slot) (found : Regex.Found) (text : List Char) : Option (List (String × String)) :=
  slots.mapM fun s =>
    let value := String.ofList ((found.group? text s.var.group).getD [])
    if s.var.validator.acceptsExtra value then some (s.var.name, value) else none

def capturesWith (t : Template) (regex : Regex) (text : String) : Option (List (String × String)) :=
  (regex.search text).bind fun found => values t.slots found text.toList

def captures (t : Template) (text : String) : Option (List (String × String)) := t.capturesWith t.regex text

/-- The variables of a text; a host may also match with its last labels. -/
def capturesSuffix (t : Template) (text : String) : Option (List (String × String)) :=
  t.capturesWith (t.suffix.getD t.regex) text

/-- The value for each variable, all of them present and valid; the first that is not counts. -/
def resolve (values : String → Option String) : List Slot → Except RouteError (List (Slot × String))
  | [] => .ok []
  | s :: slots =>
    match values s.var.name with
    | none => .error (.missingVariable s.var.name)
    | some value =>
      if s.var.validator.isValid value then (resolve values slots).map ((s, value) :: ·)
      else .error (.invalidVariable s.var.name value s.var.validator.regex.source)

/-- Literal text and values in turn; in a query the values are encoded. -/
def fill (kind : TemplateKind) (filled : List (Slot × String)) (tail : List Char) : List Char :=
  filled.flatMap (fun (s, value) =>
    s.before ++ (if kind = .query then Percent.encode value.toList else value.toList)) ++ tail

/-- The text that a template gives for the values of its variables. A query template gives its encoded key,
an equals sign if one was written or a value follows, and the value. -/
def expand (t : Template) (values : String → Option String) : Except RouteError String :=
  (resolve values t.slots).map fun filled =>
    let value := fill t.kind filled t.tail
    String.ofList <| match t.queryKey with
      | none => value
      | some key =>
        if t.presenceOnly ∧ ¬ t.source.toList.contains '=' then Percent.encode key.toList
        else Percent.encode key.toList ++ '=' :: value

end Template

end RequestRouter
