/-!
What a data text says before anything is expected of it: single values, lists and records. The readers of
data formats produce such trees; here they are taken apart.
-/
namespace RequestRouter.Data

/-- What a single value can be read as. A reading that does not apply is missing. -/
structure Scalar where
  text : Option String
  bool : Option Bool
  /-- Whether the value stands for no value at all; missing if it claims to and is something else. -/
  absent : Option Bool
  /-- The value stands for an empty list or an empty record. -/
  blank : Bool
  deriving DecidableEq, Repr

inductive Node where
  | scalar (s : Scalar)
  | list (items : List Node)
  | record (entries : List (Node × Node))
  /-- A reference to a list or record from inside it; nothing can be read from it. -/
  | cycle

/-- What data formats differ in when a tree is taken apart. -/
structure Rules where
  /-- A record may be written as the list of its values in order. -/
  positional : Bool
  /-- How many lists and records may lie inside each other. -/
  maxDepth : Nat
  deriving DecidableEq, Repr

abbrev Fields := List (String × Node)

def Fields.read {α : Type} (fields : Fields) (name : String) (default : α) (read : Node → Option α) : Option α :=
  match fields.lookup name with
  | none => some default
  | some n => read n

namespace Node

def text? : Node → Option String
  | scalar s => s.text
  | _ => none

def bool? : Node → Option Bool
  | scalar s => s.bool
  | _ => none

def isBlank : Node → Bool
  | scalar s => s.blank
  | _ => false

def optional? {α : Type} (read : Node → Option α) : Node → Option (Option α)
  | scalar s =>
    match s.absent with
    | none => none
    | some true => some none
    | some false => (read (scalar s)).map some
  | n => (read n).map some

def items? : Node → Option (List Node)
  | list items => some items
  | n => if n.isBlank then some [] else none

def entries? : Node → Option Fields
  | record entries => entries.mapM fun e => do return (← e.1.text?, e.2)
  | n => if n.isBlank then some [] else none

/-- The fields of a record among `names`, each at most once. A closed record has no other fields. -/
def fields? (rules : Rules) (names : List String) (closed : Bool) : Node → Option Fields
  | list items => if rules.positional && items.length ≤ names.length then some (names.zip items) else none
  | n => do
    let entries ← n.entries?
    let known := entries.filter (names.contains ·.1)
    if (closed && known.length != entries.length) || !decide (known.map (·.1)).Nodup then none
    else some known

/-- Reads a tree below which `depth` lists and records may lie inside each other. -/
def within {α : Type} (depth : Nat) (blank : α) (read : Nat → Node → Option α) (n : Node) : Option α :=
  match depth with
  | 0 => if n.isBlank then some blank else none
  | depth + 1 => read depth n

def texts? (depth : Nat) : Node → Option (List String) :=
  within depth [] fun _ n => do (← n.items?).mapM text?

end Node

/-- Puts a pair into a list that is sorted by its first parts, in the place of one that has the same. -/
def insertSorted (key value : String) : List (String × String) → List (String × String)
  | [] => [(key, value)]
  | (k, v) :: rest =>
    if key = k then (key, value) :: rest
    else if key < k then (key, value) :: (k, v) :: rest
    else (k, v) :: insertSorted key value rest

/-- The pairs sorted by their first parts; of two values for one key the later one stays. -/
def sortPairs (pairs : List (String × String)) : List (String × String) :=
  pairs.foldl (fun out p => insertSorted p.1 p.2 out) []

def Node.textMap? (depth : Nat) : Node → Option (List (String × String)) :=
  within depth [] fun _ n => do
    let pairs ← (← n.entries?).mapM fun e => do return (e.1, ← e.2.text?)
    return sortPairs pairs

end RequestRouter.Data
