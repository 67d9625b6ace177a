/-!
The brace spans of a template: literal text with `{...}` spans in it. Braces inside a span belong to it as
long as they are balanced.
-/
namespace RequestRouter

/-- A template cut at its spans: each span with the text before it, and the text after the last one. -/
structure Cut where
  spans : List (List Char × List Char)
  tail : List Char
  deriving DecidableEq, Repr

namespace Cut

/-- Reads a template with `depth` braces open; `before` is the text read since the last span and `inside`
the text read in the open one, both in reverse. -/
def scan : Nat → List Char → List Char → List Char → Option Cut
  | 0, before, _, [] => some ⟨[], before.reverse⟩
  | _ + 1, _, _, [] => none
  | 0, before, inside, c :: cs =>
    if c = '{' then scan 1 before [] cs
    else if c = '}' then none
    else scan 0 (c :: before) inside cs
  | depth + 1, before, inside, c :: cs =>
    if c = '{' then scan (depth + 2) before (c :: inside) cs
    else if c = '}' then
      match depth with
      | 0 => (scan 0 [] [] cs).map fun cut => ⟨(before.reverse, inside.reverse) :: cut.spans, cut.tail⟩
      | depth + 1 => scan (depth + 1) before (c :: inside) cs
    else scan (depth + 1) before (c :: inside) cs

/-- The spans of a template, unless its braces are unbalanced. -/
def ofChars? (s : List Char) : Option Cut := scan 0 [] [] s

def toChars (cut : Cut) : List Char :=
  cut.spans.flatMap (fun span => span.1 ++ '{' :: span.2 ++ ['}']) ++ cut.tail

end Cut

end RequestRouter
