import RequestRouter.CommandLine.Run
/-!
The program: it reads the table that its command names and prints what the command says.
-/
open RequestRouter.CommandLine

def environmentNames : List String :=
  ["ROUTEMUX_TABLE", "ROUTEMUX_STRICT_SLASH", "ROUTEMUX_SKIP_CLEAN", "ROUTEMUX_USE_ENCODED_PATH",
    "ROUTEMUX_PATTERN_CACHE"]

def readEnvironment : IO (List (String × String)) :=
  environmentNames.filterMapM fun name => do return (← IO.getEnv name).map (name, ·)

def readContent (path : String) : IO (Option String) := do
  try return some (← IO.FS.readFile path) catch _ => return none

def usageText : String := String.join [
  "usage: check|routes|match|url -t TABLE ...\n",
  "  check -t TABLE: install the table and report the first fault\n",
  "  routes -t TABLE: list the routes\n",
  "  match -t TABLE [-X METHOD] [-H NAME:VALUE]... [--tls] URL: dispatch a request\n",
  "  url -t TABLE NAME [--var KEY=VALUE]...: build the URL of a route\n"]

def main (args : List String) : IO UInt32 := do
  let found ← readEnvironment
  let env (name : String) : Option String := found.lookup name
  match Command.ofArgs env args with
  | .error .helpWanted => IO.print usageText; return 0
  | .error _ => IO.eprint usageText; return 2
  | .ok c =>
    match c.run env (← readContent c.table) with
    | .ok out => IO.print out; return 0
    | .error e =>
      IO.eprintln ("error: " ++ e.message ++ e.cause?.elim "" fun cause => ": " ++ cause.message)
      return 1
