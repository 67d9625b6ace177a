import RequestRouter.Data.Json
import RequestRouter.Data.Yaml
import RequestRouter.Table.Basic
/-!
Reading route tables and configurations from texts. A text that does not say exactly what a table may say is
no table; configurations may have fields of other programs.
-/
namespace RequestRouter

open RequestRouter.Data

inductive TableFormat where
  | json
  | yaml
  deriving DecidableEq, Repr

namespace TableFormat

def rules : TableFormat → Rules
  | json => Json.rules
  | yaml => Yaml.rules

def read? (format : TableFormat) (text : String) : Option Node :=
  match format with
  | json => Json.read? text
  | yaml => Yaml.read? text

end TableFormat

def RouterConfig.fieldNames : List String := ["strict_slash", "skip_clean", "use_encoded_path", "pattern_cache"]

/-- A configuration; a missing switch has its default. -/
def RouterConfig.ofNode? (rules : Rules) (depth : Nat) : Node → Option RouterConfig :=
  Node.within depth .default fun _ n => do
    let fields ← n.fields? rules fieldNames false
    return {
      strictSlash := ← fields.read "strict_slash" default.strictSlash Node.bool?
      skipClean := ← fields.read "skip_clean" default.skipClean Node.bool?
      useEncodedPath := ← fields.read "use_encoded_path" default.useEncodedPath Node.bool?
      patternCache := ← fields.read "pattern_cache" default.patternCache Node.bool? }

namespace RouteSpec

def fieldNames : List String :=
  ["name", "host", "path", "prefix", "methods", "schemes", "headers", "queries", "build_only", "handler", "routes"]

def ofFields? (depth : Nat) (fields : Fields) : Option RouteSpec := do
  let text? := Node.optional? Node.text?
  return {
    name := ← fields.read "name" none text?
    host := ← fields.read "host" none text?
    path := ← fields.read "path" none text?
    leading := ← fields.read "prefix" none text?
    methods := ← fields.read "methods" [] (Node.texts? depth)
    schemes := ← fields.read "schemes" [] (Node.texts? depth)
    headers := ← fields.read "headers" [] (Node.textMap? depth)
    queries := ← fields.read "queries" [] (Node.textMap? depth)
    buildOnly := ← fields.read "build_only" false Node.bool?
    handler := ← fields.read "handler" none text? }

end RouteSpec

/-- Rules with the nested ones. A list and a record are opened for each level. -/
def Outline.ofNode? (rules : Rules) : Nat → Node → Option Outline
  | 0, n => if n.isBlank then some .nil else none
  | depth + 1, n => do
    let specs ← (← n.items?).mapM fun item =>
      match depth with
      | 0 => if item.isBlank then some (RouteSpec.empty, .nil) else none
      | depth + 1 => do
        let fields ← item.fields? rules RouteSpec.fieldNames true
        let spec ← RouteSpec.ofFields? depth fields
        return (spec, ← fields.read "routes" .nil (ofNode? rules depth))
    return .ofList specs

namespace RouteTable

def fieldNames : List String := ["config", "routes"]

def ofNode? (rules : Rules) : Node → Option RouteTable :=
  Node.within rules.maxDepth ⟨none, .nil⟩ fun depth n => do
    let fields ← n.fields? rules fieldNames true
    return {
      config := ← fields.read "config" none (Node.optional? (RouterConfig.ofNode? rules depth))
      routes := ← fields.read "routes" .nil (Outline.ofNode? rules depth) }

def parse? (format : TableFormat) (text : String) : Option RouteTable :=
  (format.read? text).bind (ofNode? format.rules)

end RouteTable

def RouterConfig.parse? (format : TableFormat) (text : String) : Option RouterConfig :=
  (format.read? text).bind (ofNode? format.rules format.rules.maxDepth)

end RequestRouter
