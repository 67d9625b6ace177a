import RequestRouter.CommandLine.Command
import RequestRouter.Data.Json.Printer
import RequestRouter.Report
import RequestRouter.Router.Url
import RequestRouter.Router.Walk
import RequestRouter.Table.Install
import RequestRouter.Table.Reader
/-!
Running a command on the text of its table.
-/
namespace RequestRouter.CommandLine

open RequestRouter.Data

inductive Failure where
  | unreadable (path : String)
  | invalidTable (path : String)
  | install (e : InstallError)
  | configuration (e : RouteError)
  | dispatch (e : DispatchError)
  | unknownRoute (name : String)
  /-- No URL can be built, for this reason. -/
  | url (name : String) (cause : RouteError)
  deriving DecidableEq, Repr

namespace Failure

def message : Failure → String
  | unreadable path => "Failed to read route table " ++ path
  | invalidTable path => "Invalid route table " ++ path
  | install e => e.message
  | configuration e => "configuration error: " ++ e.message
  | dispatch e => e.message
  | unknownRoute name => "no route named `" ++ name ++ "`"
  | url name _ => "cannot build URL for `" ++ name ++ "`"

def cause? : Failure → Option RouteError
  | url _ e => some e
  | _ => none

end Failure

def fileName (path : List Char) : List Char :=
  let path := Call.trimSlashes path
  ((cutLast '/' path).map (·.2)).getD path

/-- The format of a file, which its extension tells: files are JSON unless they say they are YAML. -/
def formatOf (path : String) : TableFormat :=
  match cutLast '.' (fileName path.toList) with
  | some (_ :: _, extension) =>
    if extension = "yaml".toList ∨ extension = "yml".toList then .yaml else .json
  | _ => .json

def keyHandler (key : String) : Handler := .reply (.text key)

def loadTable (path : String) (content : Option String) : Except Failure RouteTable :=
  match content with
  | none => .error (.unreadable path)
  | some text => ((RouteTable.parse? (formatOf path) text).map .ok).getD (.error (.invalidTable path))

/-- The router of a table, which answers every request with the key of its handler. -/
def loadRouter (env : String → Option String) (t : RouteTable) : Except Failure (Router Handler × Setup) :=
  match t.router env (some ∘ keyHandler) with
  | (_, _, .error e) => .error (.install e)
  | (r, st, .ok _) => .ok (r, st)

def routeLine (v : Visit Handler) : String :=
  let r := v.route
  String.join (v.ancestors.map fun _ => "  ")
    ++ (r.methods?.elim "*" fun ms => ",".intercalate (ms.map (·.name))) ++ " "
    ++ r.host.elim "" (·.source) ++ r.path.elim "" (·.source)
    ++ String.join (r.queries.map fun q => " ?" ++ q.source)
    ++ r.name.elim "" (fun name => " [" ++ name ++ "]")
    ++ (if r.buildOnly then " (build-only)" else "")

def listing (r : Router Handler) : String :=
  let visit (out : String) (v : Visit Handler) : String × Walk Empty := (out ++ routeLine v ++ "\n", .continue)
  (r.walk visit "").1

/-- A report as JSON; a location and allowed methods stand there only if there are any. -/
def reportValue (p : Report) : Json.Value :=
  let orNull (s : Option String) : Json.Value := s.elim .null .text
  .record ([("status", .number p.status), ("handler", orNull p.handler), ("route", orNull p.route),
      ("vars", .record (p.vars.map fun v => (v.1, .text v.2)))]
    ++ (p.location.map fun s => ("location", .text s)).toList ++ (p.allow.map fun s => ("allow", .text s)).toList)

def Command.run (env : String → Option String) (content : Option String) (c : Command) : Except Failure String := do
  let t ← loadTable c.table content
  let (r, st) ← loadRouter env t
  match c with
  | check _ =>
    match r.firstError with
    | some e => throw (.configuration e)
    | none => return "ok: " ++ toString t.routes.size ++ " routes\n"
  | routes _ => return listing r
  | dispatch _ method headers tls target =>
    match Service.dispatch [] r method headers tls target .new with
    | .error e => throw (.dispatch e)
    | .ok (p, _) => return (reportValue p).pretty 0 ++ "\n"
  | url _ name vars =>
    match r.named? st name with
    | none => throw (.unknownRoute name)
    | some e =>
      match e.route.url vars with
      | .error cause => throw (.url name cause)
      | .ok u => return u.toText ++ "\n"

end RequestRouter.CommandLine
