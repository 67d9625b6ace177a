import RequestRouter.Regex.Expr
import RequestRouter.Regex.Token
/-!
From tokens to expressions. The reader goes through the tokens once and keeps the groups that are open,
so a pattern that is complete in itself is read the same way inside another one.
-/
namespace RequestRouter.Regex

structure Flags where
  ignoreCase : Bool
  dotAll : Bool
  multiLine : Bool
  crlf : Bool
  swapGreed : Bool
  deriving DecidableEq, Repr

def Flags.initial : Flags := ⟨false, false, false, false, false⟩

def Flags.set (fl : Flags) : Flag × Bool → Flags
  | (.ignoreCase, b) => { fl with ignoreCase := b }
  | (.dotAll, b) => { fl with dotAll := b }
  | (.multiLine, b) => { fl with multiLine := b }
  | (.crlf, b) => { fl with crlf := b }
  | (.swapGreed, b) => { fl with swapGreed := b }

def Flags.edit (fl : Flags) (edits : List (Flag × Bool)) : Flags := edits.foldl Flags.set fl

def Flags.dotExcluded (fl : Flags) : CharSet :=
  if fl.dotAll then .none else if fl.crlf then .union (.single '\r') (.single '\n') else .single '\n'

def Flags.start (fl : Flags) : Assertion :=
  if fl.multiLine then if fl.crlf then .lineStartCrlf else .lineStart else .textStart

def Flags.stop (fl : Flags) : Assertion :=
  if fl.multiLine then if fl.crlf then .lineEndCrlf else .lineEnd else .textEnd

abbrev Pattern := Expr CharSet Assertion

structure Part where
  expr : Pattern
  depth : Nat
  deriving DecidableEq, Repr

/-- The set that an atom reads one character from, or the condition it puts on its place. -/
def Atom.part (fl : Flags) : Atom → Part
  | .char c => ⟨.one ((CharSet.single c).foldIf fl.ignoreCase), 0⟩
  | .dot => ⟨.one (.compl fl.dotExcluded), 0⟩
  | .caret => ⟨.look fl.start, 0⟩
  | .dollar => ⟨.look fl.stop, 0⟩
  | .set s => ⟨.one s, 0⟩
  | .look a => ⟨.look a, 0⟩
  | .cls c => ⟨.one (c.toSet fl.ignoreCase), c.depth⟩

/-- The parts of one alternative, the last first; `none` stands where switches were set. -/
abbrev Items := List (Option Part)

def deepest (ps : List Part) : Nat := ps.foldr (fun p d => max p.depth d) 0

def Items.part (items : Items) : Part :=
  let ps := (items.filterMap id).reverse
  ⟨.concat (ps.map (·.expr)), if items.length ≤ 1 then deepest ps else deepest ps + 1⟩

/-- A part from the alternatives before the last one, the latest first, and the last one. -/
def joinAlternatives (before : List Part) (last : Part) : Part :=
  match before.reverse with
  | [] => last
  | p :: ps => ⟨.choice p.expr (ps.map (·.expr) ++ [last.expr]), max p.depth (deepest (ps ++ [last])) + 1⟩

/-- What waits outside an open group. -/
structure Outside where
  name : Option String
  flags : Flags
  alternatives : List Part
  items : Items

/-- How far a pattern is read: the open groups, the innermost first, the alternatives and the parts read in
the innermost one, the switches in force, and the group names used. -/
structure Reading where
  outside : List Outside
  alternatives : List Part
  items : Items
  flags : Flags
  names : List String

def Reading.initial : Reading := ⟨[], [], [], .initial, []⟩

def Reading.inner (r : Reading) : Part := joinAlternatives r.alternatives r.items.part

def group (name : Option String) (p : Part) : Part :=
  match name with
  | some n => ⟨.capture n p.expr, p.depth + 1⟩
  | none => ⟨p.expr, p.depth + 1⟩

/-- Reads one token. There must be something to repeat, an open group to close, and no name twice. -/
def Reading.step (r : Reading) : Token → Option Reading
  | .atom a => some { r with items := some (a.part r.flags) :: r.items }
  | .bar => some { r with alternatives := r.items.part :: r.alternatives, items := [] }
  | .switch edits => some { r with items := none :: r.items, flags := r.flags.edit edits }
  | .enter name edits =>
    if name.any (r.names.contains ·) then none
    else some ⟨⟨name, r.flags, r.alternatives, r.items⟩ :: r.outside, [], [], r.flags.edit edits,
      name.toList ++ r.names⟩
  | .leave =>
    match r.outside with
    | [] => none
    | o :: outside => some ⟨outside, o.alternatives, some (group o.name r.inner) :: o.items, o.flags, r.names⟩
  | .quantity min max greedy =>
    match r.items with
    | some p :: items =>
      let copies : Part := ⟨.copies p.expr min max (greedy != r.flags.swapGreed), p.depth + 1⟩
      some { r with items := some copies :: items }
    | _ => none

def maxDepth : Nat := 250

def Reading.finish? (r : Reading) : Option Pattern :=
  if r.outside.isEmpty ∧ r.inner.depth ≤ maxDepth then some r.inner.expr else none

def ofTokens? (ts : List Token) : Option Pattern := (ts.foldlM Reading.step .initial).bind Reading.finish?

def read? (s : List Char) : Option Pattern := (tokens s).bind ofTokens?

end RequestRouter.Regex
