import RequestRouter.Regex.Expr
/-!
The memory that a compiled pattern takes. Counted repetitions are written out copy by copy, so a short
pattern can be too large.
-/
namespace RequestRouter.Regex

open RequestRouter.Text

def CharSet.stretches : CharSet → Nat
  | none => 1
  | range _ _ => 1
  | digit => digitRanges.length
  | space => spaceRanges.length
  | word => wordRanges.length
  | compl s => s.stretches + 1
  | union s t => s.stretches + t.stretches
  | inter s t => max s.stretches t.stretches
  | folded s => 2 * s.stretches

/-- About how many octets an expression takes: one state for each leaf and each branch, and more for sets of
many stretches. -/
def Expr.weight : Expr CharSet Assertion → Nat
  | .empty => 32
  | .one s => 32 + 60 * (s.stretches - 1)
  | .look _ => 32
  | .seq a b => a.weight + b.weight
  | .alt a b => 40 + a.weight + b.weight
  | .capture _ e => 64 + e.weight
  | .times e n => n * e.weight
  | .upTo e n _ => 32 + n * (e.weight + 40)
  | .plus e _ => e.weight + 40

def maxWeight : Nat := 10485760

end RequestRouter.Regex
