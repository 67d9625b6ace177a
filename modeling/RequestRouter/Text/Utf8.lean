/-!
UTF-8: the octets of a character, and reading octets back one character at a time. A reader that
meets octets no character begins with reports the longest ill-formed start as one piece, so that a
lenient decoder writes one replacement character for it.
-/
namespace RequestRouter.Text.Utf8

def encodeChar (c : Char) : List UInt8 :=
  let n := c.toNat
  if n < 0x80 then [UInt8.ofNat n]
  else if n < 0x800 then [UInt8.ofNat (0xC0 + n / 64), UInt8.ofNat (0x80 + n % 64)]
  else if n < 0x10000 then
    [UInt8.ofNat (0xE0 + n / 4096), UInt8.ofNat (0x80 + n / 64 % 64), UInt8.ofNat (0x80 + n % 64)]
  else
    [UInt8.ofNat (0xF0 + n / 262144), UInt8.ofNat (0x80 + n / 4096 % 64),
      UInt8.ofNat (0x80 + n / 64 % 64), UInt8.ofNat (0x80 + n % 64)]

def encode (s : List Char) : List UInt8 := s.flatMap encodeChar

/-- Reads `k` octets of the tail of a character whose leading bits are `acc`. The next octet must lie
between `lo` and `hi`, the ones after it anywhere in the range of tails. -/
def readTail : Nat → Nat → Nat → Nat → List UInt8 → Option Char × List UInt8
  | 0, _, _, acc, bs => (some (Char.ofNat acc), bs)
  | _ + 1, _, _, _, [] => (none, [])
  | k + 1, lo, hi, acc, b :: bs =>
    if lo ≤ b.toNat ∧ b.toNat ≤ hi then readTail k 0x80 0xBF (acc * 64 + (b.toNat - 0x80)) bs
    else (none, b :: bs)

def readChar (b : UInt8) (bs : List UInt8) : Option Char × List UInt8 :=
  let n := b.toNat
  if n < 0x80 then (some (Char.ofNat n), bs)
  else if n < 0xC2 then (none, bs)
  else if n < 0xE0 then readTail 1 0x80 0xBF (n - 0xC0) bs
  else if n = 0xE0 then readTail 2 0xA0 0xBF 0 bs
  else if n = 0xED then readTail 2 0x80 0x9F 0xD bs
  else if n < 0xF0 then readTail 2 0x80 0xBF (n - 0xE0) bs
  else if n = 0xF0 then readTail 3 0x90 0xBF 0 bs
  else if n < 0xF4 then readTail 3 0x80 0xBF (n - 0xF0) bs
  else if n = 0xF4 then readTail 3 0x80 0x8F 4 bs
  else (none, bs)

def piecesWithin : Nat → List UInt8 → List (Option Char)
  | 0, _ => []
  | _ + 1, [] => []
  | fuel + 1, b :: bs => (readChar b bs).1 :: piecesWithin fuel (readChar b bs).2

/-- The characters of an octet list in order, with `none` for each ill-formed piece. -/
def pieces (bs : List UInt8) : List (Option Char) := piecesWithin bs.length bs

def decode? (bs : List UInt8) : Option (List Char) :=
  if (pieces bs).all Option.isSome then some ((pieces bs).filterMap id) else none

def decodeLenient (bs : List UInt8) : List Char := (pieces bs).map (·.getD '\uFFFD')

end RequestRouter.Text.Utf8
