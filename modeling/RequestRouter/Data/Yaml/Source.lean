/-!
The characters of a YAML text with their places, since columns decide what belongs to what.
-/
namespace RequestRouter.Data.Yaml

structure Spot where
  char : Char
  line : Nat
  column : Nat
  deriving DecidableEq, Repr

/-- The characters that a text may hold: no control characters but the tab and line ends. -/
def isAllowed (c : Char) : Bool :=
  let n := c.toNat
  c == '\t' || c == '\n' || c == '\r' || n == 0x85 || (0x20 ≤ n && n ≤ 0x7E) || (0xA0 ≤ n && n ≤ 0xFFFD)
    || 0x10000 ≤ n

/-- Writes every line end but the line and paragraph separators as one line feed. -/
def unifyBreaks : List Char → List Char
  | [] => []
  | '\r' :: '\n' :: rest => '\n' :: unifyBreaks rest
  | c :: rest => (if c == '\r' || c == '\u0085' then '\n' else c) :: unifyBreaks rest

def isBreak (c : Char) : Bool := c == '\n' || c == '\u2028' || c == '\u2029'

def isBlank (c : Char) : Bool := c == ' ' || c == '\t'

/-- The places of characters, the first of which stands at the given line and column. -/
def locate (line column : Nat) : List Char → List Spot
  | [] => []
  | c :: rest => ⟨c, line, column⟩ :: (if isBreak c then locate (line + 1) 0 rest else locate line (column + 1) rest)

/-- The characters of a text, unless one of them is not allowed. A byte order mark in front is dropped. -/
def spots? (s : List Char) : Option (List Spot) :=
  let s := match s with
    | '\uFEFF' :: rest => rest
    | s => s
  if s.all isAllowed then some (locate 0 0 (unifyBreaks s)) else none

def span (p : Char → Bool) (s : List Spot) : List Char × List Spot :=
  ((s.takeWhile (p ·.char)).map (·.char), s.dropWhile (p ·.char))

def skipBlanks (s : List Spot) : List Spot := s.dropWhile (isBlank ·.char)

def endsWord (s : List Spot) : Bool := s.head?.all fun p => isBlank p.char || isBreak p.char

def endsLine (s : List Spot) : Bool := s.head?.all (isBreak ·.char)

def nextIn (chars : List Char) (s : List Spot) : Bool := s.head?.any (chars.contains ·.char)

/-- Whether a line begins here with a mark between documents, which is one of `-` and `.` three times. -/
def isDocumentMark (mark : Char) (s : List Spot) : Bool :=
  match s with
  | a :: b :: c :: rest => a.column == 0 && a.char == mark && b.char == mark && c.char == mark && endsWord rest
  | _ => false

def atDocumentMark (s : List Spot) : Bool := isDocumentMark '-' s || isDocumentMark '.' s

/-- Skips blanks and a comment up to a line end, and the line end itself; nothing else may come first. -/
def skipLineEnd? (s : List Spot) : Option (List Spot) :=
  let s := skipBlanks s
  let s := if nextIn ['#'] s then s.dropWhile fun p => !isBreak p.char else s
  if endsLine s then some s.tail else none

end RequestRouter.Data.Yaml
