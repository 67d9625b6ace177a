import RequestRouter.Data.Node
import RequestRouter.Data.Yaml.Token
/-!
Reading a YAML text with one document into a tree.
-/
namespace RequestRouter.Data.Yaml

def rules : Rules := ⟨false, 128⟩

def coreTags : List Char := "tag:yaml.org,2002:".toList

def isNull (text : List Char) : Bool := ["null", "Null", "NULL", "~"].contains (String.ofList text)

def bool? (text : List Char) : Option Bool :=
  match String.ofList text with
  | "true" | "True" | "TRUE" => some true
  | "false" | "False" | "FALSE" => some false
  | _ => none

/-- What a scalar can be read as: any scalar is a text, and only plain ones stand for nothing. -/
def scalar (text : List Char) (style : Style) (tag : Option (List Char)) : Scalar where
  text := some (String.ofList text)
  bool :=
    if style = .plain || (style = .literal && tag = some (coreTags ++ "bool".toList)) then bool? text else none
  absent :=
    if style ≠ .plain then some false
    else if tag = some (coreTags ++ "null".toList) then if isNull text then some true else none
    else some (tag.isNone && (text.isEmpty || isNull text))
  blank := style = .plain && text.isEmpty

def nothing : Node := .scalar ⟨none, none, some true, true⟩

structure Reading where
  tokens : List Token
  /-- The nodes with anchors, the latest first. A node has none of its own before its end. -/
  anchors : List (List Char × Node)

abbrev Handles := List (List Char × List Char)

abbrev Read := StateT Reading Option

def peek : Read (Option Token) := return (← get).tokens.head?

def advance : Read Unit := modify fun r => { r with tokens := r.tokens.tail }

def nextIs (ts : List Token) : Read Bool := return (← peek).any ts.contains

def accept (t : Token) : Read Bool := do
  if ← nextIs [t] then advance; return true else return false

structure Properties where
  anchor : Option (List Char)
  tag : Option (List Char)

def Properties.alone (p : Properties) : Read Node :=
  if p.anchor.isSome || p.tag.isSome then return .scalar (scalar [] .plain p.tag) else failure

def readAnchor : Read (Option (List Char)) := do
  match ← peek with
  | some (.anchor name) => advance; return some name
  | _ => return none

def readTagName (handles : Handles) : Read (Option (List Char)) := do
  match ← peek with
  | some (.tag handle suffix) =>
    advance
    if handle.isEmpty then return some suffix
    else
      match handles.lookup handle with
      | some start => return some (start ++ suffix)
      | none => failure
  | _ => return none

def readProperties (handles : Handles) : Read Properties := do
  let anchor ← readAnchor
  let tag ← readTagName handles
  if anchor.isSome then return ⟨anchor, tag⟩ else return ⟨← readAnchor, tag⟩

def resolveAlias (name : List Char) : Read Node := do
  match (← get).anchors.lookup name with
  | some n => return n
  | none => failure

/-- Reads a node and keeps it under its anchor. Inside it the anchor refers to a whole that is not there yet. -/
def keep (anchor : Option (List Char)) (read : Read Node) : Read Node := do
  match anchor with
  | none => read
  | some name =>
    let before := (← get).anchors.length
    modify fun r => { r with anchors := (name, .cycle) :: r.anchors }
    let n ← read
    modify fun r => { r with anchors := r.anchors.set (r.anchors.length - 1 - before) (name, n) }
    return n

def emptyNode : Node := .scalar (scalar [] .plain none)

def orEmpty (ends : List Token) (read : Read Node) : Read Node := do
  if ← nextIs ends then return emptyNode else read

mutual

/-- A node. Block collections are read only if `block` says so, and a list without indentation of its own
only if `flat` says so. -/
def readNode (handles : Handles) : Nat → (block flat : Bool) → Read Node
  | 0, _, _ => failure
  | fuel + 1, block, flat => do
    if let some (.alias name) ← peek then
      advance
      resolveAlias name
    else
      let props ← readProperties handles
      keep props.anchor do
        let next ← peek
        if flat && next == some .entry then return .list (← readFlatItems handles fuel)
        else
          match next with
          | some (.scalar text style) => advance; return .scalar (scalar text style props.tag)
          | some .openList => advance; return .list (← readFlowItems handles fuel)
          | some .openRecord => advance; return .record (← readFlowEntries handles fuel)
          | some .blockList =>
            if block then advance; return .list (← readBlockItems handles fuel) else props.alone
          | some .blockRecord =>
            if block then advance; return .record (← readBlockEntries handles fuel) else props.alone
          | _ => props.alone

def readBlockItems (handles : Handles) : Nat → Read (List Node)
  | 0 => failure
  | fuel + 1 => do
    if ← accept .blockEnd then return []
    else if ← accept .entry then
      let item ← orEmpty [.entry, .blockEnd] (readNode handles fuel true false)
      return item :: (← readBlockItems handles fuel)
    else failure

def readFlatItems (handles : Handles) : Nat → Read (List Node)
  | 0 => failure
  | fuel + 1 => do
    if ← accept .entry then
      let item ← orEmpty [.entry, .key, .value, .blockEnd] (readNode handles fuel true false)
      return item :: (← readFlatItems handles fuel)
    else return []

def readBlockEntries (handles : Handles) : Nat → Read (List (Node × Node))
  | 0 => failure
  | fuel + 1 => do
    if ← accept .blockEnd then return []
    else if ← accept .key then
      let ends := [.key, .value, .blockEnd]
      let key ← orEmpty ends (readNode handles fuel true true)
      let value ← if ← accept .value then orEmpty ends (readNode handles fuel true true) else pure emptyNode
      return (key, value) :: (← readBlockEntries handles fuel)
    else failure

def readFlowItems (handles : Handles) : Nat → Read (List Node)
  | 0 => failure
  | fuel + 1 => do
    if ← accept .closeList then return []
    else
      let item ← if ← accept .key then pure (Node.record [← readPair handles fuel])
        else readNode handles fuel false false
      if ← accept .closeList then return [item]
      else if ← accept .comma then return item :: (← readFlowItems handles fuel)
      else failure

/-- A record of one entry among the items between brackets. A key that is left out takes the next token
with it. -/
def readPair (handles : Handles) : Nat → Read (Node × Node)
  | 0 => failure
  | fuel + 1 => do
    let ends := [.value, .comma, .closeList]
    let key ← if ← nextIs ends then do advance; pure emptyNode else readNode handles fuel false false
    let value ← if ← accept .value then orEmpty [.comma, .closeList] (readNode handles fuel false false)
      else pure emptyNode
    return (key, value)

def readFlowEntries (handles : Handles) : Nat → Read (List (Node × Node))
  | 0 => failure
  | fuel + 1 => do
    if ← accept .closeRecord then return []
    else
      let entry ← if ← accept .key then do
          let key ← orEmpty [.value, .comma, .closeRecord] (readNode handles fuel false false)
          let value ← if ← accept .value then orEmpty [.comma, .closeRecord] (readNode handles fuel false false)
            else pure emptyNode
          pure (key, value)
        else pure (← readNode handles fuel false false, emptyNode)
      if ← accept .closeRecord then return [entry]
      else if ← accept .comma then return entry :: (← readFlowEntries handles fuel)
      else failure

end

/-- The directives before a document: at most one version, which is 1.1 or 1.2, and handles, each once. -/
def readDirectives (version : Bool) (handles : Handles) : List Token → Option (Handles × List Token)
  | .version major minor :: rest =>
    if version || major ≠ 1 || (minor ≠ 1 && minor ≠ 2) then none else readDirectives true handles rest
  | .handle name start :: rest =>
    if (handles.lookup name).isSome then none else readDirectives version ((name, start) :: handles) rest
  | rest => some (handles, rest)

/-- The handles that need no declaration; a declaration comes first. -/
def coreHandles : Handles := [(['!'], ['!']), (['!', '!'], coreTags)]

def endsDocument : Token → Bool
  | .version .. | .handle .. | .documentStart | .documentEnd => true
  | _ => false

/-- The first document and the tokens behind it. Every two calls inside each other read a token. -/
def readDocument (tokens : List Token) : Option (Node × List Token) :=
  let content (handles : Handles) (tokens : List Token) : Option (Node × List Token) :=
    ((readNode (handles ++ coreHandles) (3 * tokens.length + 3) true false).run ⟨tokens, []⟩).map
      fun (n, r) => (n, r.tokens)
  match tokens with
  | [] => some (nothing, [])
  | t :: _ =>
    if !endsDocument t || t = .documentEnd then content [] tokens
    else
      match readDirectives false [] tokens with
      | some (handles, .documentStart :: rest) =>
        if rest.head?.all endsDocument then some (emptyNode, rest) else content handles rest
      | _ => none

def read? (s : String) : Option Node := do
  let (n, rest) ← readDocument (← tokens? s.toList)
  if (rest.dropWhile (· = .documentEnd)).isEmpty then return n else none

end RequestRouter.Data.Yaml
