import RequestRouter.Regex.Class
/-!
The tokens of a pattern. Reading a token needs no more than the characters after it, so a pattern that is
put between others keeps its tokens.
-/
namespace RequestRouter.Regex

open RequestRouter.Text

/-- A switch: ignore case, let the dot match line feeds, let anchors match at lines, let lines end in carriage
returns too, swap the preference of repetitions. -/
inductive Flag where
  | ignoreCase
  | dotAll
  | multiLine
  | crlf
  | swapGreed
  deriving DecidableEq, Repr

/-- What matches on its own. -/
inductive Atom where
  | char (c : Char)
  | dot
  | caret
  | dollar
  | set (s : CharSet)
  | look (a : Assertion)
  | cls (c : Class)
  deriving DecidableEq, Repr

inductive Token where
  | atom (a : Atom)
  /-- The start of a group, with its name if it has one, and the switches it sets inside. -/
  | enter (name : Option String) (edits : List (Flag × Bool))
  | leave
  | bar
  /-- Switches for the rest of the group around them. -/
  | switch (edits : List (Flag × Bool))
  /-- A repetition of what stands before it. -/
  | quantity (min : Nat) (max : Option Nat) (greedy : Bool)
  deriving DecidableEq, Repr

def readFlag : Char → Option Flag
  | 'i' => some .ignoreCase
  | 's' => some .dotAll
  | 'm' => some .multiLine
  | 'R' => some .crlf
  | 'U' => some .swapGreed
  | _ => none

/-- Reads switches up to a colon or a closing parenthesis, which stays. After one hyphen they are turned
off; no switch comes twice, and a hyphen is not the last character. -/
def readFlags (on : Bool) (seen : List (Flag × Bool)) : List Char → Option (List (Flag × Bool) × List Char)
  | [] => none
  | '-' :: c :: rest =>
    if on ∧ c ≠ ':' ∧ c ≠ ')' ∧ c ≠ '-' then
      match readFlag c with
      | some f => if seen.any (·.1 == f) then none else readFlags false (seen ++ [(f, false)]) rest
      | none => none
    else none
  | c :: rest =>
    if c = ':' ∨ c = ')' then some (seen, c :: rest)
    else
      match readFlag c with
      | some f => if seen.any (·.1 == f) then none else readFlags on (seen ++ [(f, on)]) rest
      | none => none

/-- Group names begin with a letter or an underscore; digits, dots and brackets may follow. -/
def isGroupName : List Char → Bool
  | [] => false
  | c :: cs =>
    (c == '_' || (isWord c && !isDigit c)) &&
      cs.all fun c => c == '.' || c == '[' || c == ']' || isWord c

def readName (s : List Char) : Option (Token × List Char) :=
  match s.dropWhile (· != '>') with
  | '>' :: rest =>
    let name := s.takeWhile (· != '>')
    if isGroupName name then some (.enter (some (String.ofList name)) [], rest) else none
  | _ => none

/-- Reads what follows an opening parenthesis: a name, switches, or nothing special. Looking around is not
available. -/
def readGroup : List Char → Option (Token × List Char)
  | '?' :: 'P' :: '<' :: rest => readName rest
  | '?' :: '<' :: '=' :: _ => none
  | '?' :: '<' :: '!' :: _ => none
  | '?' :: '<' :: rest => readName rest
  | '?' :: rest =>
    match readFlags true [] rest with
    | some (edits, ':' :: rest) => some (.enter none edits, rest)
    | some ([], _) => none
    | some (edits, ')' :: rest) => some (.switch edits, rest)
    | _ => none
  | rest => some (.enter none [], rest)

/-- Skips white space, reads a decimal number below 2³², and skips white space again. -/
def readCount (s : List Char) : Option (Nat × List Char) :=
  let s := s.dropWhile isSpace
  let digits := s.takeWhile Char.isDigit
  let n := digits.foldl (fun n d => 10 * n + (d.toNat - 48)) 0
  if digits.isEmpty ∨ UInt32.size ≤ n then none
  else some (n, (s.dropWhile Char.isDigit).dropWhile isSpace)

def readCounts (s : List Char) : Option ((Nat × Option Nat) × List Char) :=
  match readCount s with
  | some (n, '}' :: rest) => some ((n, some n), rest)
  | some (n, ',' :: '}' :: rest) => some ((n, none), rest)
  | some (n, ',' :: rest) =>
    match readCount rest with
    | some (m, '}' :: rest) => if n ≤ m then some ((n, some m), rest) else none
    | _ => none
  | _ => none

/-- A repetition token; a question mark behind it asks for as few copies as possible. -/
def quantityToken (min : Nat) (max : Option Nat) : List Char → Token × List Char
  | '?' :: rest => (.quantity min max false, rest)
  | rest => (.quantity min max true, rest)

def readToken (c : Char) (rest : List Char) : Option (Token × List Char) :=
  match c with
  | '(' => readGroup rest
  | ')' => some (.leave, rest)
  | '|' => some (.bar, rest)
  | '[' => (readClass rest).map fun r => (.atom (.cls r.1), r.2)
  | '?' => some (quantityToken 0 (some 1) rest)
  | '*' => some (quantityToken 0 none rest)
  | '+' => some (quantityToken 1 none rest)
  | '{' => (readCounts rest).map fun r => quantityToken r.1.1 r.1.2 r.2
  | '.' => some (.atom .dot, rest)
  | '^' => some (.atom .caret, rest)
  | '$' => some (.atom .dollar, rest)
  | '\\' => (readEscape rest).map fun
    | (.char c, rest) => (.atom (.char c), rest)
    | (.set s, rest) => (.atom (.set s), rest)
    | (.look a, rest) => (.atom (.look a), rest)
  | c => some (.atom (.char c), rest)

def tokensWithin : Nat → List Char → Option (List Token)
  | _, [] => some []
  | 0, _ :: _ => none
  | fuel + 1, c :: rest =>
    match readToken c rest with
    | some (t, rest) => (tokensWithin fuel rest).map (t :: ·)
    | none => none

/-- The tokens of a pattern; every token takes at least one character. -/
def tokens (s : List Char) : Option (List Token) := tokensWithin s.length s

end RequestRouter.Regex
