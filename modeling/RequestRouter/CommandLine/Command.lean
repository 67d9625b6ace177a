import RequestRouter.CommandLine.Arguments
/-!
The commands that inspect a route table.
-/
namespace RequestRouter.CommandLine

open RequestRouter.Text

inductive Command where
  /-- Install the table and report the first fault. -/
  | check (table : String)
  /-- List the routes. -/
  | routes (table : String)
  /-- Dispatch one request and report what became of it. -/
  | dispatch (table method : String) (headers : List String) (tls : Bool) (target : String)
  /-- Build the URL of a named route. -/
  | url (table name : String) (vars : List (String × String))
  deriving DecidableEq, Repr

namespace Command

def table : Command → String
  | check t | routes t | dispatch t .. | url t .. => t

def names : List String := ["check", "routes", "match", "url"]

def checkPath (s : String) : Option UsageError := if s.isEmpty then some .missingValue else none

def splitVar? (s : String) : Option (String × String) :=
  let (name, value) := Form.cut '=' s.toList
  value.map fun value => (String.ofList name, String.ofList value)

def tableOpt : Opt := ⟨"table", some 't', .single, checkPath⟩

def opts : String → List Opt
  | "match" => [.help, tableOpt, ⟨"method", some 'X', .single, fun _ => none⟩,
      ⟨"header", some 'H', .many, fun _ => none⟩, ⟨"tls", none, .flag, fun _ => none⟩]
  | "url" => [.help, tableOpt,
      ⟨"var", none, .many, fun s => if (splitVar? s).isSome then none else some .malformedValue⟩]
  | _ => [.help, tableOpt]

def takesOperand (name : String) : Bool := name == "match" || name == "url"

def readTable (env : String → Option String) (a : Arguments) : Except UsageError (Option String) :=
  match a.given.lookup "table" with
  | some path => .ok (some path)
  | none =>
    match env "ROUTEMUX_TABLE" with
    | none => .ok none
    | some path => (checkPath path).elim (.ok (some path)) .error

def valuesOf (a : Arguments) (name : String) : List String :=
  a.given.filterMap fun g => if g.1 = name then some g.2 else none

def ofArguments (env : String → Option String) (name : String) (args : List String) :
    Except UsageError Command := do
  let a ← Arguments.readAll (opts name) (takesOperand name) args
  let some table ← readTable env a | throw .missingArgument
  match name, a.operand with
  | "check", _ => return check table
  | "routes", _ => return routes table
  | "match", some target =>
    return dispatch table ((a.given.lookup "method").getD "GET") (valuesOf a "header") (a.has "tls") target
  | "url", some route => return url table route ((valuesOf a "var").filterMap splitVar?)
  | _, _ => throw .missingArgument

/-- The words that ask for help, or the reason why the words behind `help` do not. -/
def readHelp : List String → UsageError
  | [] => .helpWanted
  | [name] => if names.contains name || name == "help" then .helpWanted else .unknownCommand
  | _ => .unknownCommand

def ofArgs (env : String → Option String) : List String → Except UsageError Command
  | [] | ["--"] => .error .nothingGiven
  | "--" :: s :: _ => .error (if names.contains s || s == "help" then .unknownArgument else .unknownCommand)
  | "help" :: rest => .error (readHelp rest)
  | s :: rest =>
    if names.contains s then ofArguments env s rest
    else
      match s.toList with
      | '-' :: '-' :: long => (Arguments.start.readLong [.help] long).bind fun _ => .error .nothingGiven
      | '-' :: c :: short => (Arguments.start.readShort [.help] (c :: short)).bind fun _ => .error .nothingGiven
      | _ => .error .unknownCommand

end Command

end RequestRouter.CommandLine
