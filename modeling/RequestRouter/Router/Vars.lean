import RequestRouter.Http.Field
/-!
Route variables: names with values, each name once.
-/
namespace RequestRouter

/-- Variables in the order in which they were first set. -/
abbrev Vars := List (String × String)

namespace Vars

def get? (vars : Vars) (name : String) : Option String := vars.lookup name

def put (vars : Vars) (name value : String) : Vars :=
  match vars with
  | [] => [(name, value)]
  | (n, v) :: rest => if n = name then (n, value) :: rest else (n, v) :: put rest name value

def erase (vars : Vars) (name : String) : Vars := vars.filter (·.1 ≠ name)

/-- Sets several variables; of two values for one name the later one stays. -/
def putAll (vars : Vars) (pairs : List (String × String)) : Vars :=
  pairs.foldl (fun vs p => put vs p.1 p.2) vars

theorem putAll_cons (vars : Vars) (p : String × String) (pairs : List (String × String)) :
    putAll vars (p :: pairs) = putAll (put vars p.1 p.2) pairs := rfl

def ofPairs (pairs : List (String × String)) : Vars := putAll [] pairs

def names (vars : Vars) : List String := vars.map (·.1)

@[simp] theorem get?_nil (name : String) : get? [] name = none := rfl

theorem get?_put (vars : Vars) (name value other : String) :
    (vars.put name value).get? other = if other = name then some value else vars.get? other := by
  induction vars with
  | nil =>
    by_cases h : other = name
    · simp [put, get?, h]
    · simp [put, get?, List.lookup_cons, h, beq_false_of_ne h]
  | cons p rest ih =>
    obtain ⟨n, v⟩ := p
    simp only [get?] at ih
    by_cases hn : n = name
    · subst hn
      by_cases h : other = n
      · simp [put, get?, h]
      · simp [put, get?, List.lookup_cons, h, beq_false_of_ne h]
    · by_cases h : other = n
      · subst h; simp [put, get?, hn]
      · simp [put, get?, List.lookup_cons, hn, beq_false_of_ne h, ih]

end Vars

/-- A change of the variables before they are handed out or put into a URL. -/
abbrev Transform := Vars → Vars

inductive Edit where
  | put (name value : String)
  /-- Sets a variable that is not there. -/
  | default (name value : String)
  /-- Puts a text behind the value of a variable that is there. -/
  | append (name text : String)
  | erase (name : String)
  /-- Writes the value in lower case. -/
  | lower (name : String)
  | copy (source target : String)
  deriving DecidableEq, Repr

def Edit.apply (vars : Vars) : Edit → Vars
  | put name value => vars.put name value
  | default name value => if (vars.get? name).isSome then vars else vars.put name value
  | append name text => (vars.get? name).elim vars fun v => vars.put name (v ++ text)
  | erase name => vars.erase name
  | lower name => (vars.get? name).elim vars fun v => vars.put name (Http.lowerAscii v)
  | copy source target => (vars.get? source).elim vars (vars.put target)

def Transform.ofEdits (edits : List Edit) : Transform := fun vars => edits.foldl Edit.apply vars

end RequestRouter
