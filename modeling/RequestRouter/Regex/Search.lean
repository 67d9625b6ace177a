import RequestRouter.Regex.Expr
/-!
Searching a text. A set of places is a number whose bit `i` says whether place `i`, the place before the
character of index `i`, belongs to it. `Plan.starts` walks an expression backwards and marks the places
from which it can reach a goal; `Plan.follow` then walks forwards and takes the preferred branch among
those that are marked, so it never has to take a choice back. The result is the leftmost match that a
search with backtracking finds first: earlier alternatives come before later ones, greedy loops go on as
long as they can, and an iteration of a loop after the first one has to move on.
-/
namespace RequestRouter.Regex

/-- A set of places in a text. -/
abbrev Marks := Nat

/-- An expression whose leaves say at which places they apply. -/
abbrev Plan := Expr Marks Marks

def addPlaces (c : Char) (m : Marks) : List (Char × Marks) → List (Char × Marks)
  | [] => [(c, m)]
  | (d, n) :: rest => if d = c then (d, n ||| m) :: rest else (d, n) :: addPlaces c m rest

/-- The characters of a text whose first place is `start`, each with the places before it. -/
def places (start : Nat) : List Char → List (Char × Marks)
  | [] => []
  | c :: cs => addPlaces c (1 <<< start) (places (start + 1) cs)

def marksOf (p : Char → Bool) (index : List (Char × Marks)) : Marks :=
  index.foldr (fun e m => if p e.1 then e.2 ||| m else m) 0

def marksBetween (p : Option Char → Option Char → Bool) (before : Option Char) : List Char → Marks
  | [] => (p before none).toNat
  | c :: cs => 2 * marksBetween p (some c) cs + (p before (some c)).toNat

/-- The plan of an expression for one text, given the places of its characters. -/
def Expr.planWith (text : List Char) (index : List (Char × Marks)) : Expr CharSet Assertion → Plan
  | .empty => .empty
  | .one s => .one (marksOf s.mem index)
  | .look a => .look (marksBetween a.holds none text)
  | .seq a b => .seq (a.planWith text index) (b.planWith text index)
  | .alt a b => .alt (a.planWith text index) (b.planWith text index)
  | .capture n e => .capture n (e.planWith text index)
  | .times e n => .times (e.planWith text index) n
  | .upTo e n g => .upTo (e.planWith text index) n g
  | .plus e g => .plus (e.planWith text index) g

def Expr.plan (text : List Char) (e : Expr CharSet Assertion) : Plan := e.planWith text (places 0 text)

def grow (f : Marks → Marks) : Nat → Marks → Marks
  | 0, x => x
  | fuel + 1, x => if x ||| f x = x then x else grow f fuel (x ||| f x)

/-- Everything reached from `goal` by any number of steps `f`. No step marks a place beyond the last one of
`goal`, which bounds the number of steps that find something new. -/
def closure (f : Marks → Marks) (goal : Marks) : Marks := grow f (goal.log2 + 1) goal

def above (m : Marks) (i : Nat) : Marks := (m >>> (i + 1)) <<< (i + 1)

def only (m : Marks) (i : Nat) : Marks := if m.testBit i then 1 <<< i else 0

namespace Plan

/-- The places from which the plan can be carried out so that it ends at a place of `goal`. -/
def starts : Plan → Marks → Marks
  | .empty, goal => goal
  | .one m, goal => m &&& (goal >>> 1)
  | .look m, goal => m &&& goal
  | .seq a b, goal => starts a (starts b goal)
  | .alt a b, goal => starts a goal ||| starts b goal
  | .capture _ e, goal => starts e goal
  | .times e n, goal => Nat.repeat (starts e) n goal
  | .upTo e n _, goal => Nat.repeat (fun x => goal ||| starts e x) n goal
  | .plus e _, goal => starts e (closure (starts e) goal)

end Plan

/-- Where a search stands: a place, and the captured stretches, the latest first. -/
structure Progress where
  place : Nat
  captures : List (String × Nat × Nat)

/-- The goals of `n` steps one after the other, the goal of the first step first. -/
def stages (f : Marks → Marks) : Nat → Marks → List Marks → List Marks
  | 0, _, later => later
  | n + 1, goal, later => stages f n (f goal) (goal :: later)

/-- Takes another copy while `stages` offers one and the preference or the goal asks for it. -/
def followUpTo (starts : Marks → Marks) (follow : Marks → Progress → Progress) (greedy : Bool)
    (goal : Marks) : List Marks → Progress → Progress
  | [], p => p
  | stage :: later, p =>
    if greedy then
      if (starts stage).testBit p.place then
        followUpTo starts follow greedy goal later (follow stage p)
      else p
    else if goal.testBit p.place then p
    else followUpTo starts follow greedy goal later (follow stage p)

/-- Takes another copy of a loop that has come to `p`; every copy has to move on. -/
def followLoop (starts : Marks → Marks) (follow : Marks → Progress → Progress) (greedy : Bool)
    (goal reach : Marks) : Nat → Progress → Progress
  | 0, p => p
  | fuel + 1, p =>
    let next := above reach p.place
    if greedy then
      if (starts next).testBit p.place then
        followLoop starts follow greedy goal reach fuel (follow next p)
      else p
    else if goal.testBit p.place then p
    else followLoop starts follow greedy goal reach fuel (follow next p)

namespace Plan

/-- Carries out the plan from a place of `starts plan goal`, by the preferred way to a place of `goal`. -/
def follow : Plan → Marks → Progress → Progress
  | .empty, _, p => p
  | .one _, _, p => { p with place := p.place + 1 }
  | .look _, _, p => p
  | .seq (.one _) b, goal, p => follow b goal { p with place := p.place + 1 }
  | .seq a b, goal, p => follow b goal (follow a (starts b goal) p)
  | .alt a b, goal, p => if (starts a goal).testBit p.place then follow a goal p else follow b goal p
  | .capture name e, goal, p =>
    let q := follow e goal p
    { q with captures := (name, p.place, q.place) :: q.captures }
  | .times e n, goal, p => (stages (starts e) n goal []).foldl (fun p stage => follow e stage p) p
  | .upTo e n greedy, goal, p =>
    followUpTo (starts e) (follow e) greedy goal
      (stages (fun x => goal ||| starts e x) n goal []) p
  | .plus e greedy, goal, p =>
    let reach := closure (starts e) goal
    let q := follow e (above reach p.place ||| only goal p.place) p
    if q.place = p.place then q
    else followLoop (starts e) (follow e) greedy goal reach (goal.log2 + 1) q

theorem follow_seq (a b : Plan) (goal : Marks) (p : Progress) :
    follow (.seq a b) goal p = follow b goal (follow a (starts b goal) p) := by
  cases a <;> rfl

end Plan

/-- A match: the stretch from `start` to `stop`, and the stretches captured inside it, the latest first. -/
structure Found where
  start : Nat
  stop : Nat
  captures : List (String × Nat × Nat)

def everywhere (text : List Char) : Marks := 1 <<< (text.length + 1) - 1

def Expr.beginnings (e : Expr CharSet Assertion) (text : List Char) : Marks :=
  (e.plan text).starts (everywhere text)

def Expr.search (e : Expr CharSet Assertion) (text : List Char) : Option Found :=
  let plan := e.plan text
  let marks := plan.starts (everywhere text)
  ((List.range (text.length + 1)).find? marks.testBit).map fun start =>
    let p := plan.follow (everywhere text) ⟨start, []⟩
    ⟨start, p.place, p.captures⟩

def stretch (text : List Char) (start stop : Nat) : List Char := (text.take stop).drop start

def Found.group? (f : Found) (text : List Char) (name : String) : Option (List Char) :=
  (f.captures.find? (·.1 == name)).map fun c => stretch text c.2.1 c.2.2

end RequestRouter.Regex
