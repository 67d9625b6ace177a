import RequestRouter.Config
/-!
Route tables: descriptions of the routes of a router and of the switches of the router.
-/
namespace RequestRouter

/-- One rule of a table, without the rules nested below it. -/
structure RouteSpec where
  name : Option String
  host : Option String
  path : Option String
  /-- The beginning of the path. -/
  leading : Option String
  methods : List String
  schemes : List String
  /-- Sorted by name. -/
  headers : List (String × String)
  /-- Sorted by key. -/
  queries : List (String × String)
  buildOnly : Bool
  /-- The key of the handler. -/
  handler : Option String
  deriving DecidableEq, Repr

namespace RouteSpec

def empty : RouteSpec := ⟨none, none, none, none, [], [], [], [], false, none⟩

/-- What messages call a rule: its name, else its path, else the beginning of its path with a star, else its
host. -/
def label (s : RouteSpec) : String :=
  ((s.name.or s.path).or (s.leading.map (· ++ "*"))).or s.host |>.getD "<unnamed>"

end RouteSpec

/-- The rules of a table in order, each with the rules nested below it. -/
inductive Outline where
  | nil
  | cons (spec : RouteSpec) (nested rest : Outline)
  deriving DecidableEq, Repr

namespace Outline

def ofList : List (RouteSpec × Outline) → Outline
  | [] => nil
  | (spec, nested) :: rest => cons spec nested (ofList rest)

def size : Outline → Nat
  | nil => 0
  | cons _ nested rest => 1 + nested.size + rest.size

def isEmpty : Outline → Bool
  | nil => true
  | cons .. => false

end Outline

structure RouteTable where
  /-- Without a configuration the switches come from the environment. -/
  config : Option RouterConfig
  routes : Outline
  deriving DecidableEq, Repr

end RequestRouter
