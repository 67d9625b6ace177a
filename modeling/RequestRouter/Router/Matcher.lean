import RequestRouter.Http.Message
import RequestRouter.Regex.Basic
import RequestRouter.Text.Shown
/-!
Conditions on a request beside its host, path and query.
-/
namespace RequestRouter

open RequestRouter.Http RequestRouter.Text

/-- What a condition says. A wrong method is not a plain miss: another method would do. -/
inductive Verdict where
  | accepts
  | rejects
  | methodMismatch
  deriving DecidableEq, Repr

def Verdict.ofBool (b : Bool) : Verdict := if b then accepts else rejects

inductive Matcher where
  /-- The method is one of these. -/
  | methods (ms : List Method)
  /-- Every header is there; one of its values is the given one, unless that is empty. -/
  | headers (hs : List (HeaderName × String))
  /-- Every header is there; one of its values matches the pattern, if one is given. -/
  | headerPatterns (hs : List (HeaderName × Option Regex))
  /-- The scheme is one of these. -/
  | schemes (ss : List String)
  | custom (judge : Request → Verdict)

namespace Matcher

/-- Whether a header is there with a readable value that passes the test, if there is a test. -/
def hasHeader (r : Request) (name : HeaderName) (test : Option (String → Bool)) : Bool :=
  let values := r.headers.getAll name
  !values.isEmpty && test.all fun t => values.any fun v => isReadable v && t v

def judge (r : Request) : Matcher → Verdict
  | methods ms => if ms.contains r.method then .accepts else .methodMismatch
  | headers hs => .ofBool <| hs.all fun (name, expected) =>
      hasHeader r name (if expected.isEmpty then none else some (· == expected))
  | headerPatterns hs => .ofBool <| hs.all fun (name, regex) => hasHeader r name (regex.map (·.isMatch))
  | schemes ss => .ofBool (ss.contains r.scheme)
  | custom f => f r

def methods? : Matcher → Option (List Method)
  | methods ms => some ms
  | _ => none

def shown : Matcher → String
  | methods ms => shownTuple "Methods" [shownList (ms.map (·.name))]
  | headers hs => shownTuple "Headers" [shownList (hs.map fun (n, v) =>
      shownTuple "" [quoted n.name, quoted v])]
  | headerPatterns hs => shownTuple "HeadersRegex" [shownList (hs.map fun (n, r) =>
      shownTuple "" [quoted n.name, shownOption (r.map (quoted ·.source))])]
  | schemes ss => shownTuple "Schemes" [shownList (ss.map quoted)]
  | custom _ => "Custom(..)"

end Matcher

inductive Test where
  | always
  | hasHeader (name : HeaderName)
  | methodIs (method : Method)
  | pathEndsWith (text : String)
  deriving DecidableEq, Repr

def Test.passes (r : Request) : Test → Bool
  | always => true
  | hasHeader name => !(r.headers.getAll name).isEmpty
  | methodIs m => r.method == m
  | pathEndsWith text => text.toList.isSuffixOf r.uri.path.toList

/-- One verdict if a test passes and another one if it does not. -/
def Test.judge (test : Test) (pass fail : Verdict) (r : Request) : Verdict :=
  if test.passes r then pass else fail

end RequestRouter
