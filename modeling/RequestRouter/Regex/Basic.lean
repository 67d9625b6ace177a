import RequestRouter.Regex.Reader
import RequestRouter.Regex.Search
import RequestRouter.Regex.Weight
/-!
Compiled patterns: a pattern text together with the expression it spells.
-/
namespace RequestRouter

/-- A pattern text and its expression. -/
structure Regex where
  source : String
  expr : Regex.Pattern
  deriving DecidableEq, Repr

namespace Regex

/-- What compiles pattern texts; it gives nothing for a text that is no pattern to it. -/
abbrev Builder := String → Option Regex

/-- Compiles a pattern text; `none` if it is no pattern or a pattern that is too large. Of the syntax, properties of
characters (`\p`), boundaries of words named in braces, and the switches for white space and for octets are left out,
and a pattern with one of them is refused; the memory a pattern takes is estimated (`Expr.weight`). -/
def compile? (source : String) : Option Regex :=
  (read? source.toList).bind fun e => if e.weight ≤ maxWeight then some ⟨source, e⟩ else none

def isMatch (r : Regex) (text : String) : Bool := r.expr.beginnings text.toList != 0

def search (r : Regex) (text : String) : Option Found := r.expr.search text.toList

def find? (r : Regex) (text : String) : Option String :=
  (r.search text).map fun f => String.ofList (stretch text.toList f.start f.stop)

end Regex

end RequestRouter
