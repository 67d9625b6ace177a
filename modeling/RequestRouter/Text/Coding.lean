import RequestRouter.Text.Utf8
/-!
Codings of text: hexadecimal digits, percent-coding, and form-coded queries. Percent-coding keeps the unreserved
ASCII characters and writes every other octet as `%XX`; decoding reads the escapes it finds and keeps a `%` that begins
none. A form-coded query is made of pairs joined by `&`, key and value by the first `=`, spaces written `+`.
-/
namespace RequestRouter.Text.Hex

def value? (c : Char) : Option Nat :=
  if '0' ≤ c ∧ c ≤ '9' then some (c.toNat - 48)
  else if 'A' ≤ c ∧ c ≤ 'F' then some (c.toNat - 55)
  else if 'a' ≤ c ∧ c ≤ 'f' then some (c.toNat - 87)
  else none

def digit (n : Nat) : Char := if n < 10 then Char.ofNat (48 + n) else Char.ofNat (55 + n)

def number? : List Char → Option Nat
  | [] => none
  | ds => ds.foldl (fun n d => n.bind fun n => (value? d).map (16 * n + ·)) (some 0)

def take? (count : Nat) (s : List Char) : Option (Nat × List Char) :=
  if s.length < count then none else (number? (s.take count)).map (·, s.drop count)

end RequestRouter.Text.Hex

namespace RequestRouter.Text.Percent

def isUnreserved (c : Char) : Bool := c.isAlphanum || c == '-' || c == '_' || c == '.' || c == '~'

def escapeOctet (b : UInt8) : List Char := ['%', Hex.digit (b.toNat / 16), Hex.digit (b.toNat % 16)]

def encodeChar (c : Char) : List Char :=
  if isUnreserved c then [c] else (Utf8.encodeChar c).flatMap escapeOctet

def encode (s : List Char) : List Char := s.flatMap encodeChar

def pairValue? (a b : UInt8) : Option UInt8 :=
  match Hex.value? (Char.ofNat a.toNat), Hex.value? (Char.ofNat b.toNat) with
  | some x, some y => some (UInt8.ofNat (16 * x + y))
  | _, _ => none

/-- Replaces each escape by its octet; octet 37 is the percent sign. -/
def unescape : List UInt8 → List UInt8
  | [] => []
  | p :: a :: b :: rest =>
    if p = 37 then
      match pairValue? a b with
      | some x => x :: unescape rest
      | none => p :: unescape (a :: b :: rest)
    else p :: unescape (a :: b :: rest)
  | p :: rest => p :: unescape rest

/-- The text that an encoded text stands for, unless its octets are not UTF-8. -/
def decode? (s : List Char) : Option (List Char) := Utf8.decode? (unescape (Utf8.encode s))

end RequestRouter.Text.Percent

namespace RequestRouter.Text.Form

def decode (s : List Char) : List Char :=
  Utf8.decodeLenient (Percent.unescape ((Utf8.encode s).map fun b => if b = 43 then 32 else b))

def cut (c : Char) : List Char → List Char × Option (List Char)
  | [] => ([], none)
  | x :: xs => if x = c then ([], some xs) else ((x :: (cut c xs).1), (cut c xs).2)

def pair (s : List Char) : List Char × List Char :=
  (decode (cut '=' s).1, decode ((cut '=' s).2.getD []))

/-- The pairs of a query in order; an empty stretch between two `&` is none. -/
def parse (s : List Char) : List (List Char × List Char) :=
  ((s.splitOn '&').filter (!·.isEmpty)).map pair

end RequestRouter.Text.Form
