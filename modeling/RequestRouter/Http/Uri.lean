import RequestRouter.Http.Field
import RequestRouter.Text.Coding
/-!
Request targets: a path with a query, an absolute URI, an authority alone, or `*`. A fragment is dropped.
-/
namespace RequestRouter.Http

open RequestRouter.Text (Form.cut)

structure Uri where
  scheme : Option String
  authority : Option String
  /-- The path as sent; an absolute URI without one has the path `/`. -/
  path : String
  query : Option String
  deriving DecidableEq, Repr

namespace Uri

def isAuthorityChar (c : Char) : Bool :=
  c.isAlphanum || "!$&'()*+,-.:;=@[]_~".toList.contains c

def endsAuthority (c : Char) : Bool := c == '/' || c == '?' || c == '#'

/-- What is known of an authority while it is read. An at sign and a closing bracket make the reader forget
the colons and the percent signs before them. -/
structure AuthorityScan where
  colons : Nat
  opened : Bool
  closed : Bool
  percent : Bool

def AuthorityScan.step (st : AuthorityScan) (c : Char) : Option AuthorityScan :=
  match c with
  | ':' => if 8 ≤ st.colons then none else some { st with colons := st.colons + 1 }
  | '[' => if st.percent ∨ st.opened then none else some { st with opened := true }
  | ']' =>
    if !st.opened ∨ st.closed then none
    else some { st with closed := true, colons := 0, percent := false }
  | '@' => some { st with colons := 0, percent := false }
  | '%' => some { st with percent := true }
  | c => if isAuthorityChar c then some st else none

/-- An authority has at most one colon and no percent sign in its host outside brackets, its brackets match,
and it does not end with an at sign. -/
def isAuthority (s : List Char) : Bool :=
  match s.foldlM AuthorityScan.step ⟨0, false, false, false⟩ with
  | none => false
  | some st => st.opened == st.closed && st.colons ≤ 1 && !st.percent && s.getLast? != some '@'

/-- A path may hold everything but ASCII control characters, among them the delete character 0x7F, the space, and a
few characters that are to be escaped. -/
def isPathChar (c : Char) : Bool :=
  0x80 ≤ c.toNat || (0x21 ≤ c.toNat && c.toNat < 0x7F && !"#<>?`".toList.contains c)

/-- A query may hold everything but ASCII control characters, among them the delete character 0x7F, the space, and a
few characters that are to be escaped. -/
def isQueryChar (c : Char) : Bool :=
  0x80 ≤ c.toNat || (0x21 ≤ c.toNat && c.toNat < 0x7F && !"\"#<>".toList.contains c)

/-- A path and, after a question mark, a query; what a number sign begins is dropped. -/
def readPath (s : List Char) : Option (List Char × Option (List Char)) :=
  let (path, query) := Form.cut '?' (s.takeWhile (· != '#'))
  if path.all isPathChar && query.all (·.all isQueryChar) then some (path, query) else none

def isSchemeChar (c : Char) : Bool := c.isAlphanum || c == '+' || c == '-' || c == '.' || c == '~'

/-- The scheme before `://` and what follows; the two web schemes do not depend on case. -/
def readScheme (s : List Char) : Option (List Char × List Char) :=
  match s.dropWhile isSchemeChar with
  | ':' :: '/' :: '/' :: rest =>
    let scheme := s.takeWhile isSchemeChar
    let lower := scheme.map Char.toLower
    if lower = "http".toList ∨ lower = "https".toList then some (lower, rest) else some (scheme, rest)
  | _ => none

def maxSchemeLength : Nat := 64

def maxLength : Nat := 65534

def ofPath? (s : List Char) : Option Uri :=
  (readPath s).map fun (path, query) => ⟨none, none, String.ofList path, query.map String.ofList⟩

def ofAbsolute? (scheme rest : List Char) : Option Uri :=
  let authority := rest.takeWhile (!endsAuthority ·)
  if authority.isEmpty ∨ !isAuthority authority ∨ maxSchemeLength < scheme.length then none
  else (readPath (rest.dropWhile (!endsAuthority ·))).map fun (path, query) =>
    ⟨some (String.ofList scheme), some (String.ofList authority),
      if path.isEmpty then "/" else String.ofList path, query.map String.ofList⟩

def ofChars? (s : List Char) : Option Uri :=
  match s with
  | [] => none
  | ['*'] => some ⟨none, none, "*", none⟩
  | '/' :: _ => ofPath? s
  | _ =>
    match readScheme s with
    | some (scheme, rest) => ofAbsolute? scheme rest
    | none => if isAuthority s then some ⟨none, some (String.ofList s), "", none⟩ else none

def ofString? (s : String) : Option Uri := if s.utf8ByteSize ≤ maxLength then ofChars? s.toList else none

/-- Control characters are refused in a path and in a query, the one above the visible characters like the others. -/
example : ofString? "/\x7f" = none ∧ ofString? "/?\x7f" = none ∧ ofString? "/\x1f" = none := by decide

def toText (u : Uri) : String :=
  u.scheme.elim "" (· ++ "://") ++ u.authority.getD "" ++ u.path ++ u.query.elim "" ("?" ++ ·)

end Uri

end RequestRouter.Http
