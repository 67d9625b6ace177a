import RequestRouter.Data.Node
import RequestRouter.Text.Coding
/-!
JSON: reading a text into a tree, and writing values with one field or item a line.
-/
namespace RequestRouter.Data.Json

open RequestRouter.Text

def rules : Rules := ⟨true, 127⟩

def isSpace (c : Char) : Bool := c == ' ' || c == '\t' || c == '\n' || c == '\r'

def skipSpace (s : List Char) : List Char := s.dropWhile isSpace

def nullScalar : Scalar := ⟨none, none, some true, false⟩

def boolScalar (b : Bool) : Scalar := ⟨none, some b, some false, false⟩

def numberScalar : Scalar := ⟨none, none, some false, false⟩

def textScalar (text : Option (List Char)) : Scalar := ⟨text.map String.ofList, none, some false, false⟩

def escapedChar? : Char → Option Char
  | '"' => some '"'
  | '\\' => some '\\'
  | '/' => some '/'
  | 'b' => some '\x08'
  | 'f' => some '\x0c'
  | 'n' => some '\n'
  | 'r' => some '\r'
  | 't' => some '\t'
  | _ => none

def isHighSurrogate (n : Nat) : Bool := 0xD800 ≤ n && n < 0xDC00

def isLowSurrogate (n : Nat) : Bool := 0xDC00 ≤ n && n < 0xE000

/-- The units of a text up to its closing quote, and what follows. A unit is a character, or the number
behind `\u`. -/
def readUnits : Nat → List Char → Option (List (Char ⊕ Nat) × List Char)
  | 0, _ => none
  | fuel + 1, s =>
    let more (unit : Char ⊕ Nat) (rest : List Char) := (readUnits fuel rest).map fun (us, r) => (unit :: us, r)
    match s with
    | '"' :: rest => some ([], rest)
    | '\\' :: 'u' :: rest => (Hex.take? 4 rest).bind fun (n, rest) => more (.inr n) rest
    | '\\' :: c :: rest => (escapedChar? c).bind fun c => more (.inl c) rest
    | c :: rest => if c.toNat < 32 then none else more (.inl c) rest
    | [] => none

def spell : List (Char ⊕ Nat) → Option (List Char)
  | [] => some []
  | .inl c :: rest => (spell rest).map (c :: ·)
  | .inr high :: .inr low :: rest =>
    if isHighSurrogate high then
      if isLowSurrogate low then
        (spell rest).map (Char.ofNat (0x10000 + (high - 0xD800) * 1024 + (low - 0xDC00)) :: ·)
      else none
    else if isLowSurrogate high then none
    else (spell (.inr low :: rest)).map (Char.ofNat high :: ·)
  | .inr n :: rest => if isHighSurrogate n || isLowSurrogate n then none else (spell rest).map (Char.ofNat n :: ·)

def readText (s : List Char) : Option (Scalar × List Char) :=
  (readUnits (s.length + 1) s).map fun (units, rest) => (textScalar (spell units), rest)

def readDigits (s : List Char) : Option (List Char) :=
  if (s.takeWhile Char.isDigit).isEmpty then none else some (s.dropWhile Char.isDigit)

/-- What follows a number: a sign, digits without a leading zero, a fraction, an exponent. -/
def readNumber (s : List Char) : Option (List Char) := do
  let s := match s with
    | '-' :: rest => rest
    | s => s
  let s ← match s with
    | '0' :: rest => if (rest.head?.all fun c => !c.isDigit) then some rest else none
    | s => readDigits s
  let s ← match s with
    | '.' :: rest => readDigits rest
    | s => some s
  match s with
  | 'e' :: '+' :: rest | 'e' :: '-' :: rest | 'E' :: '+' :: rest | 'E' :: '-' :: rest => readDigits rest
  | 'e' :: rest | 'E' :: rest => readDigits rest
  | s => some s

mutual

def readValue : Nat → List Char → Option (Node × List Char)
  | 0, _ => none
  | fuel + 1, s =>
    match skipSpace s with
    | 'n' :: 'u' :: 'l' :: 'l' :: rest => some (.scalar nullScalar, rest)
    | 't' :: 'r' :: 'u' :: 'e' :: rest => some (.scalar (boolScalar true), rest)
    | 'f' :: 'a' :: 'l' :: 's' :: 'e' :: rest => some (.scalar (boolScalar false), rest)
    | '"' :: rest => (readText rest).map fun (t, rest) => (.scalar t, rest)
    | '[' :: rest =>
      match skipSpace rest with
      | ']' :: rest => some (.list [], rest)
      | rest => (readItems fuel rest).map fun (items, rest) => (.list items, rest)
    | '{' :: rest =>
      match skipSpace rest with
      | '}' :: rest => some (.record [], rest)
      | rest => (readEntries fuel rest).map fun (entries, rest) => (.record entries, rest)
    | s => (readNumber s).map (.scalar numberScalar, ·)

def readItems : Nat → List Char → Option (List Node × List Char)
  | 0, _ => none
  | fuel + 1, s => do
    let (item, rest) ← readValue fuel s
    match skipSpace rest with
    | ',' :: rest =>
      let (items, rest) ← readItems fuel rest
      return (item :: items, rest)
    | ']' :: rest => return ([item], rest)
    | _ => none

def readEntries : Nat → List Char → Option (List (Node × Node) × List Char)
  | 0, _ => none
  | fuel + 1, s => do
    match skipSpace s with
    | '"' :: rest =>
      let (key, rest) ← readText rest
      match skipSpace rest with
      | ':' :: rest =>
        let (value, rest) ← readValue fuel rest
        match skipSpace rest with
        | ',' :: rest =>
          let (entries, rest) ← readEntries fuel rest
          return ((.scalar key, value) :: entries, rest)
        | '}' :: rest => return ([(.scalar key, value)], rest)
        | _ => none
      | _ => none
    | _ => none

end

/-- The tree of a text, if the text is JSON and nothing but one value. Every call of a reader inside another
one has at least one character less, but for the first item of a list. -/
def read? (s : String) : Option Node := do
  let (node, rest) ← readValue (2 * s.length + 1) s.toList
  if (skipSpace rest).isEmpty then return node else none

end RequestRouter.Data.Json
