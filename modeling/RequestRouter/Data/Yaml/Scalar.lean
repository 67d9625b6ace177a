import RequestRouter.Data.Yaml.Source
import RequestRouter.Text.Coding
/-!
The text of plain, quoted and block scalars. A line end inside a plain or quoted scalar is folded: alone it
is a space, and of several ones the first is dropped.
-/
namespace RequestRouter.Data.Yaml

open RequestRouter.Text

/-- Blanks and line ends between two words: the blanks before the first line end, and the line ends. -/
structure Gap where
  blanks : List Char
  breaks : List Char

/-- Reads a gap; `broken` tells whether a line end was read. A tab may not stand for indentation, which ends
before column `indent`. -/
def readGap (indent : Nat) (broken : Bool) : List Spot → Option (Gap × List Spot)
  | [] => some (⟨[], []⟩, [])
  | s :: rest =>
    if isBreak s.char then
      (readGap indent true rest).map fun (gap, rest) => ({ gap with breaks := s.char :: gap.breaks }, rest)
    else if isBlank s.char then
      if broken then
        if s.char == '\t' && s.column < indent then none else readGap indent broken rest
      else (readGap indent broken rest).map fun (gap, rest) => ({ gap with blanks := s.char :: gap.blanks }, rest)
    else some (⟨[], []⟩, s :: rest)

def foldBreaks : List Char → List Char
  | '\n' :: [] => [' ']
  | '\n' :: more => more
  | breaks => breaks

def Gap.text (g : Gap) : List Char := if g.breaks.isEmpty then g.blanks else foldBreaks g.breaks

def flowMarks : List Char := [',', '[', ']', '{', '}']

/-- A word of a plain scalar: it ends at a blank, before a colon with a blank behind it, and between brackets
at their marks. -/
def plainWord (inFlow : Bool) : List Spot → Option (List Char × List Spot)
  | [] => some ([], [])
  | s :: rest =>
    if isBlank s.char || isBreak s.char then some ([], s :: rest)
    else if inFlow && s.char == ':' && nextIn ('?' :: flowMarks) rest then none
    else if (s.char == ':' && endsWord rest) || (inFlow && flowMarks.contains s.char) then some ([], s :: rest)
    else (plainWord inFlow rest).map fun (word, rest) => (s.char :: word, rest)

/-- A scalar that was read: its text, what follows it, and whether it was followed by a line end. -/
structure PlainText where
  text : List Char
  rest : List Spot
  broken : Bool

/-- Reads the words of a plain scalar, of which `fuel` bounds the number. Outside brackets the words stand at
column `indent` or behind it. -/
def plainWords (inFlow : Bool) (indent : Nat) : Nat → Gap → List Spot → Option PlainText
  | 0, _, _ => none
  | fuel + 1, before, s =>
    if atDocumentMark s || nextIn ['#'] s then some ⟨[], s, !before.breaks.isEmpty⟩
    else do
      let (word, rest) ← plainWord inFlow s
      if word.isEmpty then return ⟨[], s, !before.breaks.isEmpty⟩
      else
        let (gap, next) ← readGap indent false rest
        let found ← if !inFlow && (next.head?.any (·.column < indent)) then some ⟨[], next, !gap.breaks.isEmpty⟩
          else plainWords inFlow indent fuel gap next
        return { found with text := before.text ++ word ++ found.text }

def readPlain (inFlow : Bool) (indent : Nat) (s : List Spot) : Option PlainText :=
  plainWords inFlow indent (s.length + 1) ⟨[], []⟩ s

/-- A text between single quotes, the first of which is already read; two single quotes stand for one. -/
def readSingle : Nat → List Spot → Option (List Char × List Spot)
  | 0, _ | _, [] => none
  | fuel + 1, s :: rest =>
    let more (text : List Char) (rest : List Spot) := (readSingle fuel rest).map fun (t, r) => (text ++ t, r)
    if atDocumentMark (s :: rest) then none
    else if isBlank s.char || isBreak s.char then
      (readGap 0 false (s :: rest)).bind fun (gap, rest) => more gap.text rest
    else if s.char != '\'' then more [s.char] rest
    else if nextIn ['\''] rest then more ['\''] rest.tail
    else some ([], rest)

def escaped? : Char → Option Char
  | '0' => some '\x00'
  | 'a' => some '\x07'
  | 'b' => some '\x08'
  | 't' | '\t' => some '\t'
  | 'n' => some '\n'
  | 'v' => some '\x0b'
  | 'f' => some '\x0c'
  | 'r' => some '\r'
  | 'e' => some '\x1b'
  | ' ' => some ' '
  | '"' => some '"'
  | '/' => some '/'
  | '\\' => some '\\'
  | 'N' => some '\u0085'
  | '_' => some '\u00a0'
  | 'L' => some '\u2028'
  | 'P' => some '\u2029'
  | _ => none

/-- How many hexadecimal digits follow a letter that introduces a code point. -/
def codeLength? : Char → Option Nat
  | 'x' => some 2
  | 'u' => some 4
  | 'U' => some 8
  | _ => none

def readEscape : List Spot → Option (Char × List Spot)
  | [] => none
  | s :: rest =>
    match codeLength? s.char with
    | none => (escaped? s.char).map (·, rest)
    | some count => do
      let (code, _) ← Hex.take? count (rest.map (·.char))
      if code.isValidChar then return (Char.ofNat code, rest.drop count) else none

/-- A text between double quotes, the first of which is already read. A backslash at the end of a line joins
it with the next one. -/
def readDouble : Nat → List Spot → Option (List Char × List Spot)
  | 0, _ | _, [] => none
  | fuel + 1, s :: rest =>
    let more (text : List Char) (rest : List Spot) := (readDouble fuel rest).map fun (t, r) => (text ++ t, r)
    if atDocumentMark (s :: rest) then none
    else if isBlank s.char || isBreak s.char then
      (readGap 0 false (s :: rest)).bind fun (gap, rest) => more gap.text rest
    else if s.char == '"' then some ([], rest)
    else if s.char != '\\' then more [s.char] rest
    else if rest.head?.any (isBreak ·.char) then
      (readGap 0 true rest.tail).bind fun (gap, rest) => more gap.breaks rest
    else (readEscape rest).bind fun (c, rest) => more [c] rest

inductive Chomp where
  | strip
  | clip
  | keep
  deriving DecidableEq, Repr

def chomp? (s : List Spot) : Option Chomp :=
  if nextIn ['+'] s then some .keep else if nextIn ['-'] s then some .strip else none

/-- The indentation that a header names, a digit but zero. -/
def increment? (s : List Spot) : Option Nat :=
  match s with
  | [] => none
  | p :: _ => if p.char.isDigit then some (p.char.toNat - 48) else none

/-- The header of a block scalar: a chomping mark and an indentation in either order, then the line end. -/
def blockHeader (s : List Spot) : Option (Chomp × Nat × List Spot) := do
  let (chomp, increment, rest) := match chomp? s with
    | some chomp =>
      match increment? s.tail with
      | some n => (chomp, some n, s.tail.tail)
      | none => (chomp, none, s.tail)
    | none =>
      match increment? s with
      | none => (.clip, none, s)
      | some n =>
        match chomp? s.tail with
        | some chomp => (chomp, some n, s.tail.tail)
        | none => (.clip, some n, s.tail)
  if increment = some 0 then none else return (chomp, increment.getD 0, ← skipLineEnd? rest)

/-- The line ends before the next line of a block scalar, the largest column reached, and that line without
its indentation. An indentation of zero is not known yet. -/
def blockBreaks (indent : Nat) : List Spot → Option (List Char × Nat × List Spot)
  | [] => some ([], 0, [])
  | s :: rest =>
    let inIndent := indent == 0 || s.column < indent
    if s.char == ' ' && inIndent then blockBreaks indent rest
    else if s.char == '\t' && inIndent then none
    else if isBreak s.char then
      (blockBreaks indent rest).map fun (breaks, most, rest) => (s.char :: breaks, max s.column most, rest)
    else some ([], s.column, s :: rest)

structure BlockText where
  text : List Char
  /-- The end of the last line. -/
  lineEnd : List Char
  /-- The empty lines behind it. -/
  breaks : List Char
  /-- The last line begins with a blank. -/
  indented : Bool

/-- What stands between the text so far and the next line. Folding leaves alone lines that begin with a
blank. -/
def BlockText.joint (b : BlockText) (literal nextIndented : Bool) : List Char :=
  if !literal && b.lineEnd == ['\n'] && !b.indented && !nextIndented then
    (if b.breaks.isEmpty then [' '] else []) ++ b.breaks
  else b.lineEnd ++ b.breaks

def blockLines (literal : Bool) (indent : Nat) : Nat → BlockText → List Spot → Option (BlockText × List Spot)
  | 0, _, _ => none
  | fuel + 1, b, s =>
    match s with
    | [] => some (b, [])
    | p :: _ =>
      if p.column != indent then some (b, s)
      else do
        let (line, rest) := span (fun c => !isBreak c) s
        let (breaks, _, next) ← blockBreaks indent rest.tail
        blockLines literal indent fuel
          { text := b.text ++ b.joint literal (isBlank p.char) ++ line
            lineEnd := (rest.head?.map (·.char)).toList
            breaks
            indented := isBlank p.char } next

/-- A block scalar behind its mark, in a collection whose content begins at column `least` or later. -/
def readBlock (literal : Bool) (least : Nat) (s : List Spot) : Option (List Char × List Spot) := do
  let (chomp, increment, rest) ← blockHeader s
  let (breaks, most, next) ← blockBreaks (if increment = 0 then 0 else least - 1 + increment) rest
  let indent := if increment = 0 then max most (max least 1) else least - 1 + increment
  let (b, next) ← blockLines literal indent (next.length + 1) ⟨[], [], breaks, false⟩ next
  return (b.text ++ (if chomp = .strip then [] else b.lineEnd) ++ (if chomp = .keep then b.breaks else []), next)

end RequestRouter.Data.Yaml
