import RequestRouter.Regex.Escape
/-!
Bracketed classes: members and ranges, named classes, nested classes, and the operations intersection
`&&`, difference `--` and symmetric difference `~~`, which bind weaker than listing and group to the left.
-/
namespace RequestRouter.Regex

inductive SetOp where
  | inter
  | diff
  | symDiff
  deriving DecidableEq, Repr

/-- A class as written. Whether letter case counts is decided where the class stands. -/
inductive Class where
  | nothing
  | range (lo hi : Char)
  | set (s : CharSet)
  /-- A class with a name, of which the ranges are known. -/
  | named (negated : Bool) (rs : List (Char × Char))
  | union (a b : Class)
  | op (o : SetOp) (a b : Class)
  | bracket (negated : Bool) (c : Class)
  deriving DecidableEq, Repr

def SetOp.apply : SetOp → CharSet → CharSet → CharSet
  | inter, s, t => .inter s t
  | diff, s, t => .diff s t
  | symDiff, s, t => .symDiff s t

def CharSet.ofRanges (rs : List (Char × Char)) : CharSet :=
  rs.foldr (fun r s => .union (.range r.1 r.2) s) .none

def CharSet.foldAndNegate (fold negated : Bool) (s : CharSet) : CharSet :=
  if negated then .compl (s.foldIf fold) else s.foldIf fold

/-- The characters of a class. Case is ignored, if at all, before an operation or a negation applies. -/
def Class.toSet (fold : Bool) : Class → CharSet
  | nothing => .none
  | range lo hi => .range lo hi
  | set s => s
  | named negated rs => (CharSet.ofRanges rs).foldAndNegate fold negated
  | union a b => .union (a.toSet fold) (b.toSet fold)
  | op o a b => o.apply ((a.toSet fold).foldIf fold) ((b.toSet fold).foldIf fold)
  | bracket negated c => (c.toSet fold).foldAndNegate fold negated

def Class.depth : Class → Nat
  | nothing | range .. | set _ | named .. => 0
  | union a b => max a.depth b.depth
  | op _ a b => max a.depth b.depth + 1
  | bracket _ c => c.depth + 1

def asciiClass? : String → Option (List (Char × Char))
  | "alnum" => some [('0', '9'), ('A', 'Z'), ('a', 'z')]
  | "alpha" => some [('A', 'Z'), ('a', 'z')]
  | "ascii" => some [('\x00', '\x7f')]
  | "blank" => some [('\t', '\t'), (' ', ' ')]
  | "cntrl" => some [('\x00', '\x1f'), ('\x7f', '\x7f')]
  | "digit" => some [('0', '9')]
  | "graph" => some [('!', '~')]
  | "lower" => some [('a', 'z')]
  | "print" => some [(' ', '~')]
  | "punct" => some [('!', '/'), (':', '@'), ('[', '`'), ('{', '~')]
  | "space" => some [('\t', '\r'), (' ', ' ')]
  | "upper" => some [('A', 'Z')]
  | "word" => some [('0', '9'), ('A', 'Z'), ('_', '_'), ('a', 'z')]
  | "xdigit" => some [('0', '9'), ('A', 'F'), ('a', 'f')]
  | _ => none

def readNamed : List Char → Option (Class × List Char)
  | ':' :: rest =>
    let negated := rest.head? = some '^'
    let rest := if negated then rest.tail else rest
    match rest.dropWhile (· != ':') with
    | ':' :: ']' :: after =>
      (asciiClass? (String.ofList (rest.takeWhile (· != ':')))).map fun rs => (.named negated rs, after)
    | _ => none
  | _ => none

def readMember : List Char → Option (Escape × List Char)
  | [] => none
  | '\\' :: rest => readEscape rest
  | c :: rest => some (.char c, rest)

/-- A member, or a range if a single `-` follows that does not end the class. -/
def readItem (s : List Char) : Option (Class × List Char) := do
  let (first, rest) ← readMember s
  match rest with
  | [] => none
  | '-' :: after =>
    if after.head? = some ']' ∨ after.head? = some '-' then
      match first with
      | .char c => some (.range c c, rest)
      | .set t => some (.set t, rest)
      | .look _ => none
    else
      let (last, rest) ← readMember after
      match first, last with
      | .char lo, .char hi => if lo ≤ hi then some (.range lo hi, rest) else none
      | _, _ => none
  | _ =>
    match first with
    | .char c => some (.range c c, rest)
    | .set t => some (.set t, rest)
    | .look _ => none

/-- The beginning of a class: a caret negates it, then hyphens and, failing those, a closing bracket stand
for themselves. -/
def readOpening (s : List Char) : Bool × Class × List Char :=
  let negated := s.head? = some '^'
  let s := if negated then s.tail else s
  let hyphens := s.takeWhile (· == '-')
  let s := s.dropWhile (· == '-')
  match hyphens, s with
  | [], ']' :: rest => (negated, .range ']' ']', rest)
  | [], _ => (negated, .nothing, s)
  | _, _ => (negated, .range '-' '-', s)

def settle : Option (SetOp × Class) → Class → Class
  | none, c => c
  | some (o, lhs), c => .op o lhs c

/-- Reads the rest of a class up to its closing bracket, with the members read so far and the operation
that waits for them. -/
def readMembers : Nat → Option (SetOp × Class) → Class → List Char → Option (Class × List Char)
  | 0, _, _, _ => none
  | _ + 1, _, _, [] => none
  | _ + 1, waiting, members, ']' :: rest => some (settle waiting members, rest)
  | fuel + 1, waiting, members, '[' :: rest =>
    match readNamed rest with
    | some (c, rest) => readMembers fuel waiting (.union members c) rest
    | none =>
      let (negated, first, rest) := readOpening rest
      match readMembers fuel none first rest with
      | some (inner, rest) => readMembers fuel waiting (.union members (.bracket negated inner)) rest
      | none => none
  | fuel + 1, waiting, members, '&' :: '&' :: rest =>
    readMembers fuel (some (.inter, settle waiting members)) .nothing rest
  | fuel + 1, waiting, members, '-' :: '-' :: rest =>
    readMembers fuel (some (.diff, settle waiting members)) .nothing rest
  | fuel + 1, waiting, members, '~' :: '~' :: rest =>
    readMembers fuel (some (.symDiff, settle waiting members)) .nothing rest
  | fuel + 1, waiting, members, c :: rest =>
    match readItem (c :: rest) with
    | some (item, rest) => readMembers fuel waiting (.union members item) rest
    | none => none

def readClass (s : List Char) : Option (Class × List Char) :=
  let (negated, first, rest) := readOpening s
  (readMembers (rest.length + 1) none first rest).map fun r => (.bracket negated r.1, r.2)

end RequestRouter.Regex
