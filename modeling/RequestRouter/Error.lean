import RequestRouter.Text.Shown
/-!
What can go wrong while routes are configured and URLs are built, and why a request finds no route.
-/
namespace RequestRouter

open RequestRouter.Text

inductive PatternFault where
  | emptyConstraint
  /-- The text is no pattern. -/
  | malformed
  deriving DecidableEq, Repr

inductive RouteError where
  | unbalancedBraces (template : String)
  | missingVariableName (template : String)
  | invalidPattern (pattern : String) (fault : PatternFault)
  /-- A variable name appears twice in a template or across the templates of a route. -/
  | duplicateVariable (name : String)
  | duplicateRouteName (name : String)
  | routeAlreadyNamed (existing requested : String)
  | invalidMethod (method : String)
  | invalidHeader (name : String)
  | pathMustStartWithSlash (template : String)
  | missingVariable (name : String)
  | invalidVariable (name value expected : String)
  | missingHost
  | missingPath
  | invalidUrl (url : String)
  deriving DecidableEq, Repr

namespace RouteError

def message : RouteError → String
  | unbalancedBraces t => "unbalanced braces in template " ++ quoted t
  | missingVariableName t => "missing variable name in template " ++ quoted t
  | invalidPattern p .emptyConstraint => "invalid pattern " ++ quoted p ++ ": empty constraint"
  | invalidPattern p .malformed => "invalid pattern " ++ quoted p
  | duplicateVariable n => "duplicate route variable " ++ quoted n
  | duplicateRouteName n => "route name " ++ quoted n ++ " already exists"
  | routeAlreadyNamed e r => "route already has name " ++ quoted e ++ ", can't set " ++ quoted r
  | invalidMethod m => "invalid HTTP method " ++ quoted m
  | invalidHeader n => "invalid header name " ++ quoted n
  | pathMustStartWithSlash t => "path must start with a slash, got " ++ quoted t
  | missingVariable n => "missing route variable " ++ quoted n
  | invalidVariable n v e =>
    "variable " ++ quoted n ++ " value " ++ quoted v ++ " doesn't match, expected " ++ quoted e
  | missingHost => "route doesn't have a host"
  | missingPath => "route doesn't have a path"
  | invalidUrl u => "built URL " ++ quoted u ++ " is not a valid URI"

def kind : RouteError → String
  | unbalancedBraces _ => "UnbalancedBraces"
  | missingVariableName _ => "MissingVariableName"
  | invalidPattern .. => "InvalidPattern"
  | duplicateVariable _ => "DuplicateVariable"
  | duplicateRouteName _ => "DuplicateRouteName"
  | routeAlreadyNamed .. => "RouteAlreadyNamed"
  | invalidMethod _ => "InvalidMethod"
  | invalidHeader _ => "InvalidHeader"
  | pathMustStartWithSlash _ => "PathMustStartWithSlash"
  | missingVariable _ => "MissingVariable"
  | invalidVariable .. => "InvalidVariable"
  | missingHost => "MissingHost"
  | missingPath => "MissingPath"
  | invalidUrl _ => "InvalidUrl"

/-- The parts of an error by name; why a text is no pattern is left out. -/
def fields : RouteError → List (String × String)
  | unbalancedBraces t | missingVariableName t | pathMustStartWithSlash t => [("template", quoted t)]
  | invalidPattern p .emptyConstraint => [("pattern", quoted p), ("reason", quoted "empty constraint")]
  | invalidPattern p .malformed => [("pattern", quoted p), ("reason", quoted "..")]
  | duplicateVariable n | duplicateRouteName n | invalidHeader n | missingVariable n => [("name", quoted n)]
  | routeAlreadyNamed e r => [("existing", quoted e), ("requested", quoted r)]
  | invalidMethod m => [("method", quoted m)]
  | invalidVariable n v e => [("name", quoted n), ("value", quoted v), ("expected", quoted e)]
  | missingHost | missingPath => []
  | invalidUrl u => [("url", quoted u)]

def shown (e : RouteError) : String :=
  if e.fields.isEmpty then e.kind else shownRecord e.kind e.fields

end RouteError

/-- Why no route takes a request: some route would but for the method, or none would. -/
inductive MatchError where
  | methodMismatch
  | notFound
  deriving DecidableEq, Repr

namespace MatchError

def message : MatchError → String
  | methodMismatch => "method is not allowed"
  | notFound => "no matching route was found"

def shown : MatchError → String
  | methodMismatch => "MethodMismatch"
  | notFound => "NotFound"

end MatchError

end RequestRouter
