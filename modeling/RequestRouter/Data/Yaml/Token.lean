import RequestRouter.Data.Yaml.Scalar
import RequestRouter.Text.Utf8
/-!
The tokens of a YAML text. Indentation becomes tokens that open and close block collections, and a key is
marked even if only the colon behind it shows that it is one.
-/
namespace RequestRouter.Data.Yaml

open RequestRouter.Text

inductive Style where
  | plain
  /-- In quotes, or folded. -/
  | quoted
  | literal
  deriving DecidableEq, Repr

inductive Token where
  | scalar (text : List Char) (style : Style)
  | anchor (name : List Char)
  | alias (name : List Char)
  /-- A tag: the handle that stands for the beginning of its name, and the rest of the name. -/
  | tag (handle suffix : List Char)
  | blockList
  | blockRecord
  | blockEnd
  | openList
  | closeList
  | openRecord
  | closeRecord
  | comma
  /-- The dash before an item. -/
  | entry
  | key
  | value
  | documentStart
  | documentEnd
  | version (major minor : Nat)
  /-- Declares what a handle stands for. -/
  | handle (name start : List Char)
  deriving DecidableEq, Repr

structure Candidate where
  /-- The number of tokens before the place. -/
  index : Nat
  line : Nat
  column : Nat
  /-- Only a key can begin there. -/
  required : Bool

structure Layout where
  /-- The tokens so far, the latest first. -/
  tokens : List Token
  /-- The columns of the open block collections, the innermost first. -/
  indents : List Nat
  candidate : Option Candidate
  /-- The candidates outside each open bracket or brace, the innermost first. -/
  outer : List (Option Candidate)
  /-- Whether a key may begin at the next token. -/
  keyAllowed : Bool

namespace Layout

def start : Layout := ⟨[], [], none, [], true⟩

def inFlow (st : Layout) : Bool := !st.outer.isEmpty

/-- The column where the content of the innermost block collection begins at the earliest. -/
def least (st : Layout) : Nat := (st.indents.head?.map (· + 1)).getD 0

def push (st : Layout) (t : Token) : Layout := { st with tokens := t :: st.tokens }

def insert (st : Layout) (index : Nat) (t : Token) : Layout :=
  { st with tokens := st.tokens.insertIdx (st.tokens.length - index) t }

/-- Gives up the candidate; one that only a key could begin at is a fault. -/
def dropCandidate (st : Layout) : Option Layout :=
  if st.candidate.any (·.required) then none else some { st with candidate := none }

def markCandidate (st : Layout) (s : Spot) : Option Layout :=
  if st.keyAllowed then
    let required := !st.inFlow && st.indents.head? == some s.column
    st.dropCandidate.map fun st => { st with candidate := some ⟨st.tokens.length, s.line, s.column, required⟩ }
  else some st

def closeBlocks (st : Layout) (closes : Nat → Bool) : Layout :=
  if st.inFlow then st
  else
    { st with
      tokens := (st.indents.takeWhile closes).map (fun _ => .blockEnd) ++ st.tokens
      indents := st.indents.dropWhile closes }

/-- Opens a block collection in front of token `index`, unless one is open at this column or behind it. -/
def openBlock (st : Layout) (column index : Nat) (t : Token) : Layout :=
  if st.inFlow || st.indents.head?.any (column ≤ ·) then st
  else { st.insert index t with indents := column :: st.indents }

def allowKey (st : Layout) (allowed : Bool) : Layout := { st with keyAllowed := allowed }

def enterFlow (st : Layout) : Layout := { st with outer := st.candidate :: st.outer, candidate := none }

def leaveFlow (st : Layout) : Layout :=
  match st.outer with
  | [] => st
  | c :: outer => { st with candidate := c, outer }

end Layout

/-- Skips blanks, comments and line ends. Outside brackets a key may begin after a line end, and no tab may
stand where a key may begin. -/
def skipGap (inFlow keyAllowed inComment : Bool) : List Spot → Bool × List Spot
  | [] => (keyAllowed, [])
  | s :: rest =>
    if isBreak s.char then skipGap inFlow (keyAllowed || !inFlow) false rest
    else if inComment then skipGap inFlow keyAllowed true rest
    else if s.char == ' ' || (s.char == '\t' && (inFlow || !keyAllowed)) then skipGap inFlow keyAllowed false rest
    else if s.char == '#' then skipGap inFlow keyAllowed true rest
    else (keyAllowed, s :: rest)

def isNameChar (c : Char) : Bool := c.isAlphanum || c == '_' || c == '-'

def readName (s : List Spot) : Option (List Char × List Spot) :=
  let (name, rest) := span isNameChar s
  if !name.isEmpty && (endsWord rest || nextIn ['?', ':', ',', ']', '}', '%', '@', '`'] rest) then some (name, rest)
  else none

def octetCount? (n : Nat) : Option Nat :=
  if n < 0x80 then some 1
  else if 0xC0 ≤ n && n < 0xE0 then some 2
  else if 0xE0 ≤ n && n < 0xF0 then some 3
  else if 0xF0 ≤ n && n < 0xF8 then some 4
  else none

def readOctet : List Spot → Option (Nat × List Spot)
  | p :: rest =>
    if p.char == '%' then (Hex.take? 2 (rest.map (·.char))).map fun (n, _) => (n, rest.drop 2) else none
  | [] => none

def readTailOctets : Nat → List Spot → Option (List Nat × List Spot)
  | 0, s => some ([], s)
  | count + 1, s => do
    let (n, rest) ← readOctet s
    if 0x80 ≤ n && n < 0xC0 then
      let (more, rest) ← readTailOctets count rest
      return (n :: more, rest)
    else none

def readPercent (s : List Spot) : Option (List Char × List Spot) := do
  let (n, rest) ← readOctet s
  let (more, rest) ← readTailOctets ((← octetCount? n) - 1) rest
  return (Utf8.decodeLenient ((n :: more).map UInt8.ofNat), rest)

/-- The characters of a tag; some more stand in tags between angle brackets and in declarations. -/
def isTagChar (verbatim : Bool) (c : Char) : Bool :=
  isNameChar c || ";/?:@&=+$.%!~*'()".toList.contains c || (verbatim && [',', '[', ']'].contains c)

def readTagText (verbatim : Bool) : Nat → List Spot → Option (List Char × List Spot)
  | 0, s => some ([], s)
  | _ + 1, [] => some ([], [])
  | fuel + 1, p :: rest =>
    if p.char == '%' then
      (readPercent (p :: rest)).bind fun (c, rest) =>
        (readTagText verbatim fuel rest).map fun (text, rest) => (c ++ text, rest)
    else if isTagChar verbatim p.char then
      (readTagText verbatim fuel rest).map fun (text, rest) => (p.char :: text, rest)
    else some ([], p :: rest)

def readTagPart (verbatim : Bool) (s : List Spot) : Option (List Char × List Spot) :=
  (readTagText verbatim s.length s).bind fun (text, rest) => if text.isEmpty then none else some (text, rest)

/-- A tag behind its exclamation mark: `!<name>`, `!handle!suffix`, `!suffix`, or `!` alone. -/
def readTag (inFlow : Bool) (s : List Spot) : Option (Token × List Spot) := do
  let (name, afterName) := span isNameChar s
  let (t, rest) ←
    if nextIn ['<'] s then do
      let (suffix, rest) ← readTagPart true s.tail
      if nextIn ['>'] rest then some (Token.tag [] suffix, rest.tail) else none
    else if nextIn ['!'] afterName then do
      let (suffix, rest) ← readTagPart false afterName.tail
      some (Token.tag ('!' :: name ++ ['!']) suffix, rest)
    else do
      let (suffix, rest) ← readTagText false s.length s
      some (if suffix.isEmpty then Token.tag [] ['!'] else Token.tag ['!'] suffix, rest)
  if endsWord rest || (inFlow && nextIn [','] rest) then return (t, rest) else none

def readVersionPart (s : List Spot) : Option (Nat × List Spot) :=
  let (digits, rest) := span Char.isDigit s
  if digits.isEmpty || 9 < digits.length then none
  else some (digits.foldl (fun n d => 10 * n + (d.toNat - 48)) 0, rest)

/-- The handle of a declaration: exclamation marks around a name, or one alone. -/
def readHandle : List Spot → Option (List Char × List Spot)
  | [] => none
  | p :: s =>
    let (name, rest) := span isNameChar s
    if p.char != '!' then none
    else if nextIn ['!'] rest then some ('!' :: name ++ ['!'], rest.tail)
    else if name.isEmpty then some (['!'], rest)
    else none

def readDirective (s : List Spot) : Option (Token × List Spot) := do
  let (name, rest) := span isNameChar s
  if name.isEmpty || !endsWord rest then none
  else
    let (t, rest) ←
      if name = "YAML".toList then do
        let (major, rest) ← readVersionPart (skipBlanks rest)
        let (minor, rest) ← if nextIn ['.'] rest then readVersionPart rest.tail else none
        some (Token.version major minor, rest)
      else if name = "TAG".toList then do
        let (handle, rest) ← readHandle (skipBlanks rest)
        let (start, rest) ← if nextIn [' ', '\t'] rest then readTagPart true (skipBlanks rest) else none
        if endsWord rest then some (Token.handle handle start, rest) else none
      else none
    return (t, ← skipLineEnd? rest)

/-- A key and the text before its colon are on one line of this length at most. -/
def maxKeyLength : Nat := 1024

namespace Layout

def readColon (st : Layout) (s : Spot) : Option Layout :=
  let fresh := st.candidate.filter fun c => c.line == s.line && s.column ≤ c.column + maxKeyLength
  match fresh with
  | some c => some <|
    (((st.insert c.index .key).openBlock c.column c.index .blockRecord).push .value
      |> fun st => { st with candidate := none, keyAllowed := false })
  | none => do
    let st ← st.dropCandidate
    if st.inFlow then return (st.allowKey false).push .value
    else if st.keyAllowed then
      return ((st.openBlock s.column st.tokens.length .blockRecord).allowKey true).push .value
    else none

/-- Reads the dash before an item. The grammar has no place for one between brackets. -/
def readDash (st : Layout) (s : Spot) : Option Layout := do
  if !st.inFlow && !st.keyAllowed then none
  else
    let st ← (st.openBlock s.column st.tokens.length .blockList).dropCandidate
    return (st.allowKey true).push .entry

def readKeyMark (st : Layout) (s : Spot) : Option Layout := do
  if !st.inFlow && !st.keyAllowed then none
  else
    let st ← (st.openBlock s.column st.tokens.length .blockRecord).dropCandidate
    return (st.allowKey !st.inFlow).push .key

def readInKey (st : Layout) (s : Spot) (found : Option (Token × List Spot)) : Option (Layout × List Spot) := do
  let (t, rest) ← found
  return (((← st.markCandidate s).allowKey false).push t, rest)

/-- Reads a mark between documents or a directive, which end all block collections. -/
def readDocumentPart (st : Layout) (t : Token) (rest : List Spot) : Option (Layout × List Spot) := do
  let st ← (st.closeBlocks fun _ => true).dropCandidate
  return ((st.allowKey false).push t, rest)

def readPlainScalar (st : Layout) (s : Spot) (rest : List Spot) : Option (Layout × List Spot) := do
  let marked ← st.markCandidate s
  let found ← readPlain st.inFlow st.least (s :: rest)
  return ((marked.allowKey found.broken).push (.scalar found.text .plain), found.rest)

def readBlockScalar (st : Layout) (literal : Bool) (rest : List Spot) : Option (Layout × List Spot) := do
  let st ← st.dropCandidate
  let (text, rest) ← readBlock literal st.least rest
  return ((st.allowKey true).push (.scalar text (if literal then .literal else .quoted)), rest)

/-- The characters with which a plain scalar does not begin, though three of them may with something
behind them. -/
def indicators : List Char := "-?:,[]{}#&*!|>'\"%@`".toList

def startsPlain (st : Layout) (c : Char) (rest : List Spot) : Bool :=
  !indicators.contains c || (c == '-' && !rest.head?.any (isBlank ·.char))
    || (!st.inFlow && (c == '?' || c == ':') && !endsWord rest)

def readToken (st : Layout) (s : Spot) (rest : List Spot) : Option (Layout × List Spot) :=
  if s.column == 0 && s.char == '%' then
    (readDirective rest).bind fun (t, rest) => st.readDocumentPart t rest
  else if isDocumentMark '-' (s :: rest) then st.readDocumentPart .documentStart (rest.drop 2)
  else if isDocumentMark '.' (s :: rest) then st.readDocumentPart .documentEnd (rest.drop 2)
  else
    match s.char with
    | '[' => (st.markCandidate s).map fun st => ((st.enterFlow.allowKey true).push .openList, rest)
    | '{' => (st.markCandidate s).map fun st => ((st.enterFlow.allowKey true).push .openRecord, rest)
    | ']' => st.dropCandidate.map fun st => ((st.leaveFlow.allowKey false).push .closeList, rest)
    | '}' => st.dropCandidate.map fun st => ((st.leaveFlow.allowKey false).push .closeRecord, rest)
    | ',' => st.dropCandidate.map fun st => ((st.allowKey true).push .comma, rest)
    | '*' => st.readInKey s ((readName rest).map fun (name, rest) => (.alias name, rest))
    | '&' => st.readInKey s ((readName rest).map fun (name, rest) => (.anchor name, rest))
    | '!' => st.readInKey s (readTag st.inFlow rest)
    | '\'' => st.readInKey s ((readSingle (rest.length + 1) rest).map fun (t, rest) => (.scalar t .quoted, rest))
    | '"' => st.readInKey s ((readDouble (rest.length + 1) rest).map fun (t, rest) => (.scalar t .quoted, rest))
    | c =>
      if c == '-' && endsWord rest then (st.readDash s).map (·, rest)
      else if c == '?' && (st.inFlow || endsWord rest) then (st.readKeyMark s).map (·, rest)
      else if c == ':' && (st.inFlow || endsWord rest) then (st.readColon s).map (·, rest)
      else if c == '|' && !st.inFlow then st.readBlockScalar true rest
      else if c == '>' && !st.inFlow then st.readBlockScalar false rest
      else if st.startsPlain c rest && !isBlank c then st.readPlainScalar s rest
      else none

/-- Reads tokens to the end of the text; `fuel` bounds their number. -/
def readAll : Nat → Layout → List Spot → Option Layout
  | 0, _, _ => none
  | fuel + 1, st, s =>
    let (keyAllowed, s) := skipGap st.inFlow st.keyAllowed false s
    match s with
    | [] => (st.closeBlocks fun _ => true).dropCandidate
    | s :: rest => do
      let (st, rest) ← ((st.allowKey keyAllowed).closeBlocks (s.column < ·)).readToken s rest
      readAll fuel st rest

end Layout

def tokens? (s : List Char) : Option (List Token) := do
  let spots ← spots? s
  let st ← Layout.start.readAll (spots.length + 1) spots
  return st.tokens.reverse

end RequestRouter.Data.Yaml
