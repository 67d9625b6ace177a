import RequestRouter.Regex.Basic
import RequestRouter.Text.Shown
/-!
Checks of a single variable value: an anchored pattern and, for domain names, the length limits that the
pattern leaves out. The named constraints stand for patterns of their own.
-/
namespace RequestRouter

open RequestRouter.Text

/-- A rule on values beside the pattern. -/
inductive ExtraCheck where
  /-- At most 253 octets, in nonempty labels of at most 63 octets between dots. -/
  | domainLengths
  deriving DecidableEq, Repr

def ExtraCheck.accepts (value : String) : ExtraCheck → Bool
  | domainLengths =>
    value.utf8ByteSize ≤ 253 &&
      (value.toList.splitOn '.').all fun label =>
        !label.isEmpty && (String.ofList label).utf8ByteSize ≤ 63

structure Validator where
  regex : Regex
  extra : Option ExtraCheck
  deriving DecidableEq, Repr

namespace Validator

def acceptsExtra (v : Validator) (value : String) : Bool := v.extra.all (·.accepts value)

def isValid (v : Validator) (value : String) : Bool := v.regex.isMatch value && v.acceptsExtra value

def shown (v : Validator) : String :=
  shownRecord "Validator"
    [("regex", quoted v.regex.source), ("extra_check", shownBool v.extra.isSome)]

end Validator

/-- The pattern that accepts a text only as a whole. -/
def anchored (pattern : String) : String := "^(?:" ++ pattern ++ ")$"

/-- A constraint with a name. -/
structure Shorthand where
  name : String
  pattern : String
  extra : Option ExtraCheck
  deriving DecidableEq, Repr

namespace Shorthand

def all : List Shorthand := [
  ⟨"alpha", "[a-zA-Z]+", none⟩,
  ⟨"alphanum", "[a-zA-Z0-9]+", none⟩,
  ⟨"date", "[0-9]\x7b4\x7d-(?:0[1-9]|1[0-2])-(?:0[1-9]|[12][0-9]|3[01])", none⟩,
  ⟨"domain", "(?:[a-zA-Z0-9](?:[a-zA-Z0-9-]\x7b0,61\x7d[a-zA-Z0-9])?\\.)*" ++
    "[a-zA-Z0-9](?:[a-zA-Z0-9-]\x7b0,61\x7d[a-zA-Z0-9])?", some .domainLengths⟩,
  ⟨"float", "[0-9]*\\.?[0-9]+", none⟩,
  ⟨"hex", "[0-9a-fA-F]+", none⟩,
  ⟨"int", "[0-9]+", none⟩,
  ⟨"slug", "[a-z0-9]+(?:-[a-z0-9]+)*", none⟩,
  ⟨"uuid", "[0-9a-fA-F]\x7b8\x7d-[0-9a-fA-F]\x7b4\x7d-[0-9a-fA-F]\x7b4\x7d-[0-9a-fA-F]\x7b4\x7d-" ++
    "[0-9a-fA-F]\x7b12\x7d", none⟩]

def names : List String := all.map (·.name)

def lookup? (name : String) : Option Shorthand := all.find? (·.name == name)

/-- The check of a value on its own. The patterns of shorthands can be read, so the default is not used. -/
def validatorWith (build : Regex.Builder) (s : Shorthand) : Validator :=
  ⟨(build (anchored s.pattern)).getD ⟨anchored s.pattern, .empty⟩, s.extra⟩

def validator (s : Shorthand) : Validator := s.validatorWith Regex.compile?

end Shorthand

end RequestRouter
