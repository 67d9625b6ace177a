import RequestRouter.Regex.CharSet
import RequestRouter.Text.Coding
/-!
What a backslash means in a pattern, and how literal text is written in one.
-/
namespace RequestRouter.Regex

open RequestRouter.Text

def metaChars : List Char :=
  ['\\', '.', '+', '*', '?', '(', ')', '|', '[', ']', '{', '}', '^', '$', '#', '&', '-', '~']

def literal (s : List Char) : List Char := s.flatMap fun c => if c ∈ metaChars then ['\\', c] else [c]

inductive Escape where
  | char (c : Char)
  | set (s : CharSet)
  | look (a : Assertion)

/-- A backslash before any other ASCII character that is no letter and no digit keeps that character. -/
def isEscapable (c : Char) : Bool := c.toNat < 128 && !c.isAlphanum

/-- The character with a code point, unless it is a surrogate or too large. -/
def charOfCode? (n : Nat) : Option Char := if n.isValidChar then some (Char.ofNat n) else none

/-- A code point in exactly `digits` hexadecimal digits, or in any number of them between braces. -/
def readHex (digits : Nat) : List Char → Option (Escape × List Char)
  | '{' :: rest => do
    let inside := rest.takeWhile (· != '}')
    match rest.dropWhile (· != '}') with
    | '}' :: after => return (.char (← charOfCode? (← Hex.number? inside)), after)
    | _ => none
  | rest => do
    let (code, after) ← Hex.take? digits rest
    return (.char (← charOfCode? code), after)

def readEscape : List Char → Option (Escape × List Char)
  | [] => none
  | 'x' :: rest => readHex 2 rest
  | 'u' :: rest => readHex 4 rest
  | 'U' :: rest => readHex 8 rest
  | 'd' :: rest => some (.set .digit, rest)
  | 'D' :: rest => some (.set (.compl .digit), rest)
  | 's' :: rest => some (.set .space, rest)
  | 'S' :: rest => some (.set (.compl .space), rest)
  | 'w' :: rest => some (.set .word, rest)
  | 'W' :: rest => some (.set (.compl .word), rest)
  | 'a' :: rest => some (.char '\x07', rest)
  | 'f' :: rest => some (.char '\x0c', rest)
  | 't' :: rest => some (.char '\t', rest)
  | 'n' :: rest => some (.char '\n', rest)
  | 'r' :: rest => some (.char '\r', rest)
  | 'v' :: rest => some (.char '\x0b', rest)
  | 'A' :: rest => some (.look .textStart, rest)
  | 'z' :: rest => some (.look .textEnd, rest)
  | 'b' :: rest => some (.look .wordBoundary, rest)
  | 'B' :: rest => some (.look .notWordBoundary, rest)
  | '<' :: rest => some (.look .wordStart, rest)
  | '>' :: rest => some (.look .wordEnd, rest)
  | c :: rest => if isEscapable c then some (.char c, rest) else none

end RequestRouter.Regex
