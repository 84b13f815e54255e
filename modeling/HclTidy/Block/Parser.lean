import HclTidy.Block.Basic
import HclTidy.Block.Source
import HclTidy.Expr.Parser

/-!
# Reading files

A file is a sequence of blocks, each ended by a line break. Top-level attributes are read and left
out. Labels are strings without interpolations or bare identifiers.
-/

set_option autoImplicit false

namespace HclTidy

namespace Body

def addAttribute (a : Attribute) (b : Body) : Body := { b with attributes := a :: b.attributes }

def addBlock (n : NestedBlock) (b : Body) : Body := { b with blocks := n :: b.blocks }

/-- The text of a quoted label. -/
def decodeLabel (c : Cursor) (token : Token) : Reading Text :=
  let parts := Template.partsOf true token.text
  if parts.all Template.Part.isLiteral then
    match Escape.decode (parts.flatMap Template.Part.literalText) with
    | .ok label => .ok label
    | .error error => .error ⟨.escape error, c.events⟩
  else c.fail .templateInLabel token

/-- The text of a label. -/
def labelText (c : Cursor) (token : Token) : Reading Text :=
  if token.kind = .ident then .ok token.text else decodeLabel c token

/-- The labels of a block up to its opening brace. -/
def readLabels (source : Source) (c : Cursor) : Reading (Tail (List Text) c) :=
  match c.takeIf? .significant fun t => t.kind = .string || t.kind = .ident with
  | none => .ok ⟨[], c, List.suffix_refl _⟩
  | some first => do
    have := first.shorter
    let label ← labelText first.next first.value
    let more ← readLabels source first.next
    .ok ⟨label :: more.value, more.next, more.suffix.trans first.suffix⟩
termination_by c.rest.length

/-- The attributes and nested blocks up to the closing brace. -/
def read (source : Source) (c : Cursor) : Reading (Tail Body c) := do
  let items := c.skipNewlines
  have := c.skipNewlines_length_le
  let next := items.peek source .significant
  if next.kind = .rbrace then .ok ⟨.empty, items, c.view_suffix .ignored⟩
  else if next.kind = .endOfText then items.fail .unclosedBody next
  else do
    let name ← c.skipNewlines.expect source .significant .ident
    have := name.shorter
    match name.next.accept? .significant .equal with
    | some equal => do
      have := equal.shorter
      let value ← Expr.read source .significant equal.next
      have := value.shorter
      value.next.endOfItem source
      let more ← read source value.next
      have := more.notLonger
      .ok ⟨more.value.addAttribute ⟨name.value.text, value.value⟩, more.next,
        more.suffix.trans (value.suffix.trans (equal.suffix.trans
          (name.suffix.trans (c.view_suffix .ignored))))⟩
    | none => do
      let labels ← readLabels source name.next
      have := labels.notLonger
      let opening ← labels.next.expect source .significant .lbrace
      have := opening.shorter
      let inner ← read source opening.next
      have := inner.notLonger
      let closing ← inner.next.expect source .significant .rbrace
      have := closing.shorter
      closing.next.endOfItem source
      let more ← read source closing.next
      have := more.notLonger
      .ok ⟨more.value.addBlock
          ⟨name.value.text, labels.value, inner.value.attributes, inner.value.blocks⟩,
        more.next,
        more.suffix.trans (closing.suffix.trans (inner.suffix.trans (opening.suffix.trans
          (labels.suffix.trans (name.suffix.trans (c.view_suffix .ignored))))))⟩
termination_by c.rest.length

end Body

namespace ParsedFile

/-- Known block types take a fixed number of labels; other types are noted. -/
def checkLabels (name : Token) (labels : List Text) (c : Cursor) : Reading (Tail Unit c) :=
  match Block.labelCounts.lookup name.text with
  | none => .ok ⟨(), c.record (.unrecognisedBlock name.text), List.suffix_refl _⟩
  | some count =>
    if labels.length = count then .ok ⟨(), c, List.suffix_refl _⟩
    else c.fail (.labelCount name.text count labels.length) name

/-- The blocks from a cursor to the end of the text. `previousEnd` is the offset just past the last
block. Without `keepSource` a block keeps neither its raw body nor its comments. -/
def readBlocks (source : Source) (file : Text) (keepSource : Bool) (previousEnd : Nat)
    (c : Cursor) : Reading (List Block × List ParseEvent) := do
  have := c.skipNewlines_length_le
  if (c.skipNewlines.peek source .significant).kind = .endOfText then .ok ([], c.events)
  else do
    let name ← c.skipNewlines.expect source .significant .ident
    have := name.shorter
    match name.next.accept? .significant .equal with
    | some equal => do
      have := equal.shorter
      let value ← Expr.read source .significant equal.next
      have := value.shorter
      value.next.endOfItem source
      readBlocks source file keepSource previousEnd
        (value.next.record (.skippedAttribute name.value.text name.value.start.line))
    | none => do
      let labels ← Body.readLabels source name.next
      have := labels.notLonger
      let header ← checkLabels name.value labels.value labels.next
      have := header.notLonger
      let opening ← header.next.expect source .significant .lbrace
      have := opening.shorter
      let body ← Body.read source opening.next
      have := body.notLonger
      let closing ← body.next.expect source .significant .rbrace
      have := closing.shorter
      closing.next.endOfItem source
      let (more, events) ← readBlocks source file keepSource closing.value.stop closing.next
      let block : Block := {
        type := name.value.text
        labels := labels.value
        body := body.value
        rawBody :=
          if keepSource then
            Block.rawBodyAt source.text opening.value.stop closing.value.start.offset
          else []
        leadingComments :=
          if keepSource then
            Block.leadingCommentsAt source.text name.value.start.offset previousEnd
          else []
        file := file }
      .ok (block :: more, events)
termination_by c.rest.length
decreasing_by
  · show value.next.rest.length < _
    omega
  · omega

/-- The blocks of a text, with what reading has passed. -/
def ofText (file : Text) (keepSource : Bool) (text : Text) :
    Reading (ParsedFile × List ParseEvent) :=
  match TokenStream.ofText text with
  | .error error => .error ⟨.lexical error, []⟩
  | .ok stream => do
    let source : Source := ⟨text, stream.endToken⟩
    let (blocks, events) ← readBlocks source file keepSource 0 (.ofTokens stream.tokens)
    .ok (⟨file, blocks⟩, events)

end ParsedFile

end HclTidy
