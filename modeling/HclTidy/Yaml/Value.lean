import HclTidy.Yaml.Node

/-!
# Documents from YAML text

The value of a document is built from its nodes. Collections are checked level by level, so that of
two faults the one nearer to the root is reported. The entries that a merge key `<<` brings in come
first and give way to the mapping's own. A mapping keeps the last value of a key at the first place
of that key. An alias has the value of its node, which may lie around it, so values are built to a
given depth only.
-/

set_option autoImplicit false

namespace HclTidy.Yaml

/-- The anchored nodes of a document. -/
abbrev Anchors := List (Text × Node)

abbrev Entries := List (Node × Node)

namespace Node

mutual

/-- The nodes with anchors, those that lie further out first. -/
def anchored : Node → Anchors
  | .scalar head text => own head (.scalar head text)
  | .sequence head items => own head (.sequence head items) ++ anchoredItems items
  | .mapping head entries => own head (.mapping head entries) ++ anchoredEntries entries
  | .reference _ => []

def own (head : Head) (node : Node) : Anchors := head.anchor.toList.map fun name => (name, node)

def anchoredItems : List Node → Anchors
  | [] => []
  | item :: rest => item.anchored ++ anchoredItems rest

def anchoredEntries : List (Node × Node) → Anchors
  | [] => []
  | (key, value) :: rest => key.anchored ++ value.anchored ++ anchoredEntries rest

end

mutual

/-- The number of nodes. -/
def count : Node → Nat
  | .scalar _ _ => 1
  | .sequence _ items => 1 + countItems items
  | .mapping _ entries => 1 + countEntries entries
  | .reference _ => 1

def countItems : List Node → Nat
  | [] => 0
  | item :: rest => item.count + countItems rest

def countEntries : List (Node × Node) → Nat
  | [] => 0
  | (key, value) :: rest => key.count + value.count + countEntries rest

end

/-- The node that an alias stands for. -/
def resolve (anchors : Anchors) : Node → Node
  | .reference name => (anchors.lookup name).getD (.reference name)
  | node => node

/-- The key asks for entries of another mapping. -/
def isMergeKey (anchors : Anchors) (key : Node) : Bool :=
  (key.resolve anchors).tag = coreTag "merge"

def isDefaultKey (anchors : Anchors) (key : Node) : Bool :=
  (key.resolve anchors).tag = coreTag "value"

/-- The default key `=` is text where it is a key. -/
def asKey (anchors : Anchors) (key : Node) : Node :=
  match key.resolve anchors with
  | .scalar head text =>
    if head.tag = coreTag "value" then .scalar { head with tag := coreTag "str" } text else key
  | _ => key

/-- The entries, by number, of the mappings that merging has changed. -/
abbrev Merged := List (Nat × Entries)

/-- The entries that a mapping has by now. -/
def entriesNow (merged : Merged) (head : Head) (entries : Entries) : Entries :=
  (merged.lookup head.number).getD entries

/-- Carries out the merge keys of a mapping, and first those of the mappings that they bring in;
`brought` holds what the merge keys before have brought. A merge key is taken away before it is
carried out, so that a mapping may be merged into itself. -/
def merge (anchors : Anchors) :
    Nat → Head → Entries → Entries → StateT Merged (Except Fault) Entries
  | 0, _, _, _ => throw .malformed
  | fuel + 1, head, entries, brought => do
    let now := entriesNow (← get) head entries
    match now.findIdx? fun e => isMergeKey anchors e.1 with
    | none =>
      let result := brought ++ now.map fun e => (e.1.asKey anchors, e.2)
      if !brought.isEmpty || now.any fun e => isDefaultKey anchors e.1 then
        modify ((head.number, result) :: ·)
      pure result
    | some i =>
      modify ((head.number, now.eraseIdx i) :: ·)
      let mergeOne (node : Node) : StateT Merged (Except Fault) Entries :=
        match node.resolve anchors with
        | .mapping head entries => merge anchors fuel head entries []
        | _ => throw .malformed
      let more ←
        match (now[i]?.map fun e => e.2.resolve anchors).getD (.reference []) with
        | .sequence _ items => do pure (← items.mapM mergeOne).reverse.flatten
        | source => mergeOne source
      merge anchors fuel head entries (brought ++ more)

/-- How a collection is read. -/
inductive Shape where
  | list | map | set | pairs
deriving Repr, DecidableEq

def shape? (tag : Text) : Option Shape :=
  if tag = coreTag "seq" then some .list
  else if tag = coreTag "map" then some .map
  else if tag = coreTag "set" then some .set
  else if tag = coreTag "omap" || tag = coreTag "pairs" then some .pairs
  else none

/-- The text of a node that is read as a scalar: a mapping stands for the value of its key `=`. -/
def scalarText? (anchors : Anchors) (merged : Merged) : Nat → Node → Option Text
  | 0, _ => none
  | fuel + 1, node =>
    match node.resolve anchors with
    | .scalar _ text => some text
    | .mapping head entries =>
      match (entriesNow merged head entries).find? fun e => isDefaultKey anchors e.1 with
      | some (_, value) => scalarText? anchors merged fuel value
      | none => none
    | _ => none

def isScalar : Node → Bool
  | .scalar _ _ => true
  | _ => false

/-- The value of a node that is no collection; `none` for a collection. -/
def scalarValue? (anchors : Anchors) (merged : Merged) (fuel : Nat) (node : Node) :
    Except Fault (Option Document) :=
  let target := node.resolve anchors
  match shape? target.tag with
  | some _ => .ok none
  | none =>
    match scalarText? anchors merged fuel target with
    | some text =>
      if target.tag = coreTag "timestamp" && !target.isScalar then .error (.scalar .notText)
      else (Scalar.value target.tag text).map some
    | none => .error .malformed

/-- Collections that are to be checked, latest first, which nodes have been met, and the mappings
that have been merged. -/
structure Pending where
  nodes : List Node
  met : Array Bool
  merged : Merged

/-- Checks a node as far as its own tag and value go, and puts a collection off. -/
def enter (anchors : Anchors) (fuel : Nat) (p : Pending) (node : Node) : Except Fault Pending := do
  let target := node.resolve anchors
  let number := (target.head?.map Head.number).getD p.met.size
  if p.met.getD number false then .ok p
  else
    let p := { p with met := p.met.setIfInBounds number true }
    match ← scalarValue? anchors p.merged fuel target with
    | some _ => .ok p
    | none => .ok { p with nodes := target :: p.nodes }

/-- A key must not be a list, a map or a set. -/
def isHashable (anchors : Anchors) (key : Node) : Bool :=
  (shape? (key.resolve anchors).tag).isNone

/-- Checks what a collection holds. -/
def expand (anchors : Anchors) (fuel : Nat) (p : Pending) (node : Node) : Except Fault Pending :=
  match shape? node.tag, node with
  | some .list, .sequence _ items => items.foldlM (enter anchors fuel) p
  | some .pairs, .sequence _ items =>
    items.foldlM (fun p item =>
      match item.resolve anchors with
      | .mapping head entries =>
        match entriesNow p.merged head entries with
        | [(key, value)] => do
          let p ← enter anchors fuel p key
          enter anchors fuel p value
        | _ => .error .malformed
      | _ => .error .malformed) p
  | some .map, .mapping head entries | some .set, .mapping head entries => do
    let (entries, merged) ← (merge anchors fuel head entries []).run p.merged
    entries.foldlM (fun p e => do
      let p ← enter anchors fuel p e.1
      if isHashable anchors e.1 then enter anchors fuel p e.2 else .error .malformed)
      { p with merged := merged }
  | _, _ => .error .malformed

/-- Checks collections level by level, and gives the mappings that have been merged. -/
def checkLevels (anchors : Anchors) (fuel : Nat) : Nat → Pending → Except Fault Merged
  | 0, p => .ok p.merged
  | levels + 1, p =>
    if p.nodes.isEmpty then .ok p.merged
    else do
      let next ← p.nodes.reverse.foldlM (expand anchors fuel) { p with nodes := [] }
      checkLevels anchors fuel levels next

/-- The value of a scalar that has been checked. -/
def scalarDocument (tag text : Text) : Document :=
  match Scalar.value tag text with
  | .ok value => value
  | .error _ => .text text

/-- What the values of nodes depend on. -/
structure Context where
  anchors : Anchors
  merged : Merged
  /-- More than the number of nodes. -/
  size : Nat

/-- The value of a node down to a certain depth: there is a table with the values of the anchored
nodes for each level, and nothing below the last one. -/
def documentOf (context : Context) : List (List (Text × Document)) → Node → Document
  | [], _ => .other false
  | table :: deeper, node =>
    match node with
    | .reference name => (table.lookup name).getD .null
    | .scalar head text => scalarDocument head.tag text
    | .sequence head items =>
      if shape? head.tag = some .list then .list (items.map (documentOf context deeper))
      else .list (items.map fun _ => .other false)
    | .mapping head entries =>
      match shape? head.tag with
      | some shape =>
        let entries := entriesNow context.merged head entries
        if shape = .set then .other entries.isEmpty
        else
          .map ((entries.map fun e =>
            (documentOf context deeper e.1, documentOf context deeper e.2)).foldl
              Document.putEntry [])
      | none =>
        let text := scalarText? context.anchors context.merged context.size node
        scalarDocument head.tag (text.getD [])

/-- The values of the anchored nodes at each of `depth` levels. -/
def anchoredDocuments (context : Context) : Nat → List (List (Text × Document))
  | 0 => []
  | depth + 1 =>
    let deeper := anchoredDocuments context depth
    (context.anchors.map fun (name, node) => (name, documentOf context ([] :: deeper) node)) ::
      deeper

end Node

/-- The document in a text, down to a given depth; no document is null. -/
def readDocument (depth : Nat) (source : Source) : Except Fault Document :=
  match root source with
  | .error fault => .error fault
  | .ok none => .ok .null
  | .ok (some node) => do
    let anchors := node.anchored
    let size := 2 * node.count + 2
    let first ← Node.enter anchors size ⟨[], .replicate size false, []⟩ node
    let merged ← Node.checkLevels anchors size size first
    let context : Node.Context := ⟨anchors, merged, size⟩
    .ok (node.documentOf context (Node.anchoredDocuments context depth))

end HclTidy.Yaml
