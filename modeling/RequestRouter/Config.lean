import RequestRouter.Router.Tree
import RequestRouter.Text.Classes
/-!
The switches of a root router, as a table or the environment gives them.
-/
namespace RequestRouter

structure RouterConfig where
  /-- Redirect between a path and the path with a final slash, as the template of the route wants it. -/
  strictSlash : Bool
  /-- Match paths without cleaning them. -/
  skipClean : Bool
  /-- Match paths as they are sent. -/
  useEncodedPath : Bool
  /-- Compile each pattern once. -/
  patternCache : Bool
  deriving DecidableEq, Repr

namespace RouterConfig

def default : RouterConfig := ⟨false, false, false, true⟩

/-- Switches are written `on`, `true`, `yes` or `1`, and `off`, `false`, `no` or `0`, in either case. -/
def readFlag (s : String) : Option Bool :=
  match String.ofList ((Text.trim s.toList).map Char.toLower) with
  | "1" | "on" | "true" | "yes" => some true
  | "0" | "off" | "false" | "no" => some false
  | _ => none

/-- The switches that a look-up gives; one that is missing or not readable has its default. -/
def ofLookup (lookup : String → Option String) : RouterConfig :=
  let flag (key : String) (default : Bool) : Bool := ((lookup key).bind readFlag).getD default
  { strictSlash := flag "ROUTEMUX_STRICT_SLASH" default.strictSlash
    skipClean := flag "ROUTEMUX_SKIP_CLEAN" default.skipClean
    useEncodedPath := flag "ROUTEMUX_USE_ENCODED_PATH" default.useEncodedPath
    patternCache := flag "ROUTEMUX_PATTERN_CACHE" default.patternCache }

end RouterConfig

def Router.ofConfig {H : Type} (config : RouterConfig) : Router H × Setup :=
  Router.new { Scope.root with
      strictSlash := config.strictSlash
      skipClean := config.skipClean
      useEncodedPath := config.useEncodedPath }
    (.new (if config.patternCache then .new else .disabled))

end RequestRouter
