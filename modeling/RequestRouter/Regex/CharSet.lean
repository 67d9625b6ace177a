import RequestRouter.Text.CaseFolding
import RequestRouter.Text.Classes
/-!
Sets of characters, and the conditions a pattern can put on a place between two characters.
-/
namespace RequestRouter.Regex

open RequestRouter.Text

inductive CharSet where
  | none
  | range (lo hi : Char)
  | digit
  | space
  | word
  | compl (s : CharSet)
  | union (s t : CharSet)
  | inter (s t : CharSet)
  /-- The characters that differ only in case from a member of `s`. -/
  | folded (s : CharSet)
  deriving DecidableEq, Repr

namespace CharSet

def mem : CharSet → Char → Bool
  | none, _ => false
  | range lo hi, c => lo.toNat ≤ c.toNat && c.toNat ≤ hi.toNat
  | digit, c => isDigit c
  | space, c => isSpace c
  | word, c => isWord c
  | compl s, c => !s.mem c
  | union s t, c => s.mem c || t.mem c
  | inter s t, c => s.mem c && t.mem c
  | folded s, c => (caseMates c).any s.mem

def single (c : Char) : CharSet := range c c

def diff (s t : CharSet) : CharSet := inter s (compl t)

def symDiff (s t : CharSet) : CharSet := union (diff s t) (diff t s)

def foldIf (fold : Bool) (s : CharSet) : CharSet := if fold then folded s else s

@[simp] theorem mem_single (c d : Char) : (single c).mem d = true ↔ d = c := by
  simp only [single, mem, Bool.and_eq_true, decide_eq_true_eq]
  exact ⟨fun h => Char.toNat_inj.1 (Nat.le_antisymm h.2 h.1), fun h => h ▸ ⟨Nat.le_refl _, Nat.le_refl _⟩⟩

end CharSet

/-- A condition on a place in a text. -/
inductive Assertion where
  | textStart
  | textEnd
  | lineStart
  | lineEnd
  /-- Line ends are line feeds, carriage returns, and pairs of them, which are not taken apart. -/
  | lineStartCrlf
  | lineEndCrlf
  | wordBoundary
  | notWordBoundary
  | wordStart
  | wordEnd
  deriving DecidableEq, Repr

/-- Whether the condition holds between the characters `before` and `after`, each of which is missing at
an end of the text. -/
def Assertion.holds (before after : Option Char) : Assertion → Bool
  | textStart => before.isNone
  | textEnd => after.isNone
  | lineStart => before.all (· == '\n')
  | lineEnd => after.all (· == '\n')
  | lineStartCrlf => before.all fun c => c == '\n' || (c == '\r' && after != some '\n')
  | lineEndCrlf => after.all fun c => c == '\r' || (c == '\n' && before != some '\r')
  | wordBoundary => before.any isWord != after.any isWord
  | notWordBoundary => before.any isWord == after.any isWord
  | wordStart => !before.any isWord && after.any isWord
  | wordEnd => before.any isWord && !after.any isWord

end RequestRouter.Regex
