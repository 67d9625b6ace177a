import RequestRouter.Regex.CharSet
/-!
Regular expressions and what they match. `Expr σ α` has leaves of two kinds: `one` reads a character,
`look` reads nothing and only puts a condition on the place. `Expr.Matches` says which stretches of text
an expression accepts, given the characters on both sides; which of several accepted stretches a search
prefers is the subject of `Regex.Search`.
-/
namespace RequestRouter.Regex

inductive Expr (σ α : Type) where
  | empty
  | one (s : σ)
  | look (a : α)
  | seq (a b : Expr σ α)
  | alt (a b : Expr σ α)
  | capture (name : String) (e : Expr σ α)
  /-- Exactly `n` copies. -/
  | times (e : Expr σ α) (n : Nat)
  /-- At most `n` copies, as many as possible if `greedy`, as few as possible otherwise. -/
  | upTo (e : Expr σ α) (n : Nat) (greedy : Bool)
  /-- One copy or more. -/
  | plus (e : Expr σ α) (greedy : Bool)
  deriving DecidableEq, Repr

namespace Expr

variable {σ α : Type}

/-- Between `min` and `max` copies; without `max`, any number from `min` on. -/
def copies (e : Expr σ α) (min : Nat) (max : Option Nat) (greedy : Bool) : Expr σ α :=
  match min, max with
  | 0, none => upTo (plus e greedy) 1 greedy
  | 1, none => plus e greedy
  | n + 1, none => seq (times e n) (plus e greedy)
  | n, some m => seq (times e n) (upTo e (m - n) greedy)

def concat : List (Expr σ α) → Expr σ α
  | [] => empty
  | [e] => e
  | e :: es => seq e (concat es)

def choice (e : Expr σ α) : List (Expr σ α) → Expr σ α
  | [] => e
  | f :: fs => alt e (choice f fs)

/-- What an expression accepts: `Matches e b w a` if `e` accepts the text `w` standing between the
characters `b` and `a`. -/
inductive Matches : Expr CharSet Assertion → Option Char → List Char → Option Char → Prop where
  | empty {b a} : Matches empty b [] a
  | one {s c b a} : s.mem c = true → Matches (one s) b [c] a
  | look {x : Assertion} {b a} : x.holds b a = true → Matches (look x) b [] a
  | seq {e f u v b a} : Matches e b u (v.head?.or a) → Matches f (u.getLast?.or b) v a →
      Matches (seq e f) b (u ++ v) a
  | left {e f w b a} : Matches e b w a → Matches (alt e f) b w a
  | right {e f w b a} : Matches f b w a → Matches (alt e f) b w a
  | capture {n e w b a} : Matches e b w a → Matches (capture n e) b w a
  | timesZero {e b a} : Matches (times e 0) b [] a
  | timesSucc {e n u v b a} : Matches e b u (v.head?.or a) → Matches (times e n) (u.getLast?.or b) v a →
      Matches (times e (n + 1)) b (u ++ v) a
  | upToStop {e n g b a} : Matches (upTo e n g) b [] a
  | upToMore {e n g u v b a} : Matches e b u (v.head?.or a) →
      Matches (upTo e n g) (u.getLast?.or b) v a → Matches (upTo e (n + 1) g) b (u ++ v) a
  | plusOnce {e g w b a} : Matches e b w a → Matches (plus e g) b w a
  | plusMore {e g u v b a} : Matches e b u (v.head?.or a) → Matches (plus e g) (u.getLast?.or b) v a →
      Matches (plus e g) b (u ++ v) a

end Expr

end RequestRouter.Regex
