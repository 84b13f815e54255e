import HclTidy.Yaml.Lexer
import HclTidy.Yaml.Scalar

/-!
# The nodes of a YAML document

Nodes are read from tokens by recursive descent. Every node has its full tag; an alias stands for
the node with its anchor, which may lie around it.
-/

set_option autoImplicit false

namespace HclTidy.Yaml

/-- What every node has: its tag, its anchor and its number in the document. -/
structure Head where
  tag : Text
  anchor : Option Text
  number : Nat
deriving Repr, DecidableEq

inductive Node where
  | scalar (head : Head) (text : Text)
  | sequence (head : Head) (items : List Node)
  | mapping (head : Head) (entries : List (Node × Node))
  | reference (name : Text)
deriving Inhabited

namespace Node

def head? : Node → Option Head
  | scalar head _ => some head
  | sequence head _ => some head
  | mapping head _ => some head
  | reference _ => none

def tag (node : Node) : Text := (node.head?.map Head.tag).getD []

end Node

/-- The tokens left, why there are no more, the anchors and the number of nodes so far, and the tag
handles. -/
structure NodeReader where
  tokens : List Token
  fault : Fault
  anchors : List Text
  count : Nat
  handles : List (Text × Text)

abbrev Read := StateT NodeReader (Except Fault)

namespace NodeReader

def malformed {α : Type} : Read α := throw .malformed

def peek : Read Token := do
  let s ← get
  match s.tokens with
  | token :: _ => pure token
  | [] => throw s.fault

def skip : Read Unit := modify fun s => { s with tokens := s.tokens.tail }

/-- Passes over a token when it comes next. -/
def accept (token : Token) : Read Bool := do
  if (← peek) = token then
    skip
    pure true
  else pure false

/-- The head of the next node. The anchors of a document are distinct. -/
def newHead (tag : Text) (anchor : Option Text) : Read Head := do
  let s ← get
  if anchor.any s.anchors.contains then malformed
  else
    set { s with anchors := anchor.toList ++ s.anchors, count := s.count + 1 }
    pure ⟨tag, anchor, s.count⟩

/-- A node that is left out. -/
def emptyNode : Read Node := do pure (.scalar (← newHead (coreTag "null") none) [])

def anchor? : Read (Option Text) := do
  match ← peek with
  | .anchor name =>
    skip
    pure (some name)
  | _ => pure none

/-- The full tag of a tag token. -/
def tag? : Read (Option Text) := do
  match ← peek with
  | .tag handle suffix =>
    skip
    match handle with
    | none => pure (some suffix)
    | some handle =>
      match (← get).handles.lookup handle with
      | some lead => pure (some (lead ++ suffix))
      | none => malformed
  | _ => pure none

/-- The tag written on a node, unless it is the non-specific one. -/
def specific? (tag : Option Text) : Option Text := if tag = some ['!'] then none else tag

mutual

/-- A node; in a block it may be a block collection, and in place of a mapping's key or value a
sequence without indentation of its own. -/
def node (block indentless : Bool) : Nat → Read Node
  | 0 => malformed
  | fuel + 1 => do
    match ← peek with
    | .reference name =>
      skip
      if (← get).anchors.contains name then pure (.reference name) else malformed
    | _ =>
      let first ← anchor?
      let tag ← tag?
      let anchor ← if first.isNone && tag.isSome then anchor? else pure first
      let collection (name : String) : Read Head :=
        newHead ((specific? tag).getD (coreTag name)) anchor
      match ← peek with
      | .scalar text plain =>
        skip
        let kind :=
          if (plain && tag.isNone) || tag = some ['!'] then Scalar.implicitTag text
          else tag.getD (coreTag "str")
        pure (.scalar (← newHead kind anchor) text)
      | .flowSequenceStart =>
        skip
        pure (.sequence (← collection "seq") (← flowItems true fuel))
      | .flowMappingStart =>
        skip
        pure (.mapping (← collection "map") (← flowEntries true fuel))
      | .blockEntry =>
        if indentless then pure (.sequence (← collection "seq") (← bareItems fuel))
        else leftOut tag anchor
      | .blockSequenceStart =>
        if block then
          skip
          pure (.sequence (← collection "seq") (← blockItems fuel))
        else leftOut tag anchor
      | .blockMappingStart =>
        if block then
          skip
          pure (.mapping (← collection "map") (← blockEntries fuel))
        else leftOut tag anchor
      | _ => leftOut tag anchor

/-- An empty scalar, which needs a tag or an anchor to stand for a node. -/
def leftOut (tag anchor : Option Text) : Read Node :=
  if tag.isNone && anchor.isNone then malformed
  else do
    pure (.scalar (← newHead ((specific? tag).getD (coreTag "null")) anchor) [])

/-- A node, or an empty one when one of the tokens that may follow comes next. -/
def nodeUnless (block indentless : Bool) (ends : List Token) : Nat → Read Node
  | 0 => malformed
  | fuel + 1 => do
    if ends.contains (← peek) then emptyNode else node block indentless fuel

def blockItems : Nat → Read (List Node)
  | 0 => malformed
  | fuel + 1 => do
    if ← accept .blockEntry then
      let item ← nodeUnless true false [.blockEntry, .blockEnd] fuel
      pure (item :: (← blockItems fuel))
    else if ← accept .blockEnd then pure []
    else malformed

def bareItems : Nat → Read (List Node)
  | 0 => malformed
  | fuel + 1 => do
    if ← accept .blockEntry then
      let item ← nodeUnless true false [.blockEntry, .key, .value, .blockEnd] fuel
      pure (item :: (← bareItems fuel))
    else pure []

def blockEntries : Nat → Read (List (Node × Node))
  | 0 => malformed
  | fuel + 1 => do
    let ends : List Token := [.key, .value, .blockEnd]
    match ← peek with
    | .key =>
      skip
      let key ← nodeUnless true true ends fuel
      let value ← if ← accept .value then nodeUnless true true ends fuel else emptyNode
      pure ((key, value) :: (← blockEntries fuel))
    | .blockEnd =>
      skip
      pure []
    | _ => malformed

def flowItems (first : Bool) : Nat → Read (List Node)
  | 0 => malformed
  | fuel + 1 => do
    if ← accept .flowSequenceEnd then pure []
    else
      if !first then
        if !(← accept .flowEntry) then malformed
      match ← peek with
      | .key =>
        skip
        let key ← nodeUnless false false [.value, .flowEntry, .flowSequenceEnd] fuel
        let value ←
          if ← accept .value then nodeUnless false false [.flowEntry, .flowSequenceEnd] fuel
          else emptyNode
        let pair : Node := .mapping (← newHead (coreTag "map") none) [(key, value)]
        pure (pair :: (← flowItems false fuel))
      | .flowSequenceEnd =>
        skip
        pure []
      | _ =>
        let item ← node false false fuel
        pure (item :: (← flowItems false fuel))

def flowEntries (first : Bool) : Nat → Read (List (Node × Node))
  | 0 => malformed
  | fuel + 1 => do
    if ← accept .flowMappingEnd then pure []
    else
      if !first then
        if !(← accept .flowEntry) then malformed
      match ← peek with
      | .key =>
        skip
        let key ← nodeUnless false false [.value, .flowEntry, .flowMappingEnd] fuel
        let value ←
          if ← accept .value then nodeUnless false false [.flowEntry, .flowMappingEnd] fuel
          else emptyNode
        pure ((key, value) :: (← flowEntries false fuel))
      | .flowMappingEnd =>
        skip
        pure []
      | _ =>
        let key ← node false false fuel
        let value ← emptyNode
        pure ((key, value) :: (← flowEntries false fuel))

end

def defaultHandles : List (Text × Text) := [(['!'], ['!']), (['!', '!'], coreTag "")]

/-- The directives in front of a document; `version` tells that a version has been given. -/
def directives (version : Bool) (handles : List (Text × Text)) : Nat → Read Unit
  | 0 => malformed
  | fuel + 1 => do
    match ← peek with
    | .directive name (left, right) =>
      skip
      if name = "YAML".toList then
        if version || Text.digits? 10 0 left ≠ some 1 then malformed
        else directives true handles fuel
      else if name = "TAG".toList then
        if (handles.lookup left).isSome then malformed
        else directives version ((left, right) :: handles) fuel
      else directives version handles fuel
    | _ => modify fun s => { s with handles := handles ++ defaultHandles }

/-- Document ends, and then the end of the text. -/
def textEnd : Nat → Read Unit
  | 0 => malformed
  | fuel + 1 => do
    if ← accept .documentEnd then textEnd fuel
    else if !(← accept .streamEnd) then malformed

/-- The only document of a text; `none` when there is none. -/
def document (fuel : Nat) : Read (Option Node) := do
  let read : Read Node := node true false fuel
  match ← peek with
  | .streamEnd => pure none
  | .directive _ _ | .documentStart =>
    directives false [] fuel
    if ← accept .documentStart then
      let root ←
        match ← peek with
        | .directive _ _ | .documentStart | .documentEnd | .streamEnd => emptyNode
        | _ => read
      textEnd fuel
      pure (some root)
    else malformed
  | _ =>
    let root ← read
    textEnd fuel
    pure (some root)

end NodeReader

/-- The root node of a text. Every call reads a token or ends, so their number bounds the depth. -/
def root (source : Source) : Except Fault (Option Node) :=
  let scanned := scan source
  let fuel := 2 * scanned.tokens.length + 8
  let start : NodeReader := ⟨scanned.tokens, scanned.fault, [], 0, NodeReader.defaultHandles⟩
  match (NodeReader.document fuel).run start with
  | .ok (node, _) => .ok node
  | .error fault => .error fault

end HclTidy.Yaml
