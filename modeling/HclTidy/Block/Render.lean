import HclTidy.Block.Basic
import HclTidy.Expr.Rebuild
import HclTidy.Layout.Format
import HclTidy.Notice

/-!
# Writing blocks

A block with a raw body is written verbatim below its leading comments. Otherwise its body is
rebuilt: attributes sorted by name, then nested blocks in source order. Indentation is left to the
layout.
-/

set_option autoImplicit false

namespace HclTidy

/-- A block's type and quoted labels. -/
def Block.header (type : Text) (labels : List Text) : Text :=
  Text.joinWith [' '] (type :: labels.map fun label => '"' :: Escape.encode label ++ ['"'])

/-- Attributes in the order in which they are written; those of one name keep their order. -/
def Body.sortedAttributes (attributes : List Attribute) : List Attribute :=
  attributes.mergeSort fun a b => a.name.le b.name

def Attribute.written (a : Attribute) : Text := a.name ++ " = ".toList ++ a.value.rebuild

mutual

/-- The lines of a nested block. -/
def NestedBlock.rows : NestedBlock → List Text
  | ⟨type, labels, attributes, blocks⟩ =>
    (Block.header type labels ++ [' ', '{']) ::
      ((Body.sortedAttributes attributes).map Attribute.written ++ NestedBlock.allRows blocks
        ++ [['}']])

def NestedBlock.allRows : List NestedBlock → List Text
  | [] => []
  | block :: rest => block.rows ++ NestedBlock.allRows rest

end

/-- The lines of a rebuilt body. -/
def Body.rows (b : Body) : List Text :=
  (Body.sortedAttributes b.attributes).map Attribute.written ++ NestedBlock.allRows b.blocks

mutual

/-- The values that are replaced by the empty string, in the order in which they are written. -/
def NestedBlock.unsupported : NestedBlock → List Expr
  | ⟨_, _, attributes, blocks⟩ =>
    ((Body.sortedAttributes attributes).map Attribute.value).filter Expr.isUnsupported
      ++ NestedBlock.allUnsupported blocks

def NestedBlock.allUnsupported : List NestedBlock → List Expr
  | [] => []
  | block :: rest => block.unsupported ++ NestedBlock.allUnsupported rest

end

def Body.unsupported (b : Body) : List Expr :=
  ((Body.sortedAttributes b.attributes).map Attribute.value).filter Expr.isUnsupported
    ++ NestedBlock.allUnsupported b.blocks

/-- The notice on a value that is replaced by the empty string. -/
def Expr.replacementNotice (expr : Expr) : Notice :=
  .debug ("Replacing unsupported expression with empty string: " ++ expr.source.str)

namespace Block

def render (b : Block) : Text :=
  let comments := if b.leadingComments.isEmpty then [] else Text.lines b.leadingComments
  let header := header b.type b.labels
  let raw := Text.trim b.rawBody
  let rows :=
    if raw.isEmpty then (header ++ [' ', '{']) :: b.body.rows ++ [['}']]
    else [header ++ [' ', '{', '\n'] ++ raw ++ ['\n', '}']]
  Text.unlines (comments ++ rows)

def renderNotices (b : Block) : List Notice :=
  if (Text.trim b.rawBody).isEmpty then b.body.unsupported.map Expr.replacementNotice else []

end Block

/-- The notice on a text that has no tokens and so no canonical layout. -/
def Layout.notices (text : Text) : List Notice :=
  match TokenStream.ofText text with
  | .ok _ => []
  | .error error => [.debug ("Skipping canonical formatting: " ++ error.message)]

/-- Blocks one below the other, before the layout is applied. -/
def Block.joined (blocks : List Block) : Text :=
  Text.joinWith ['\n', '\n'] (blocks.map Block.render)

/-- The text of an output file. -/
def Block.renderAll (blocks : List Block) : Text := Layout.format (Block.joined blocks)

def Block.renderAllNotices (blocks : List Block) : List Notice :=
  blocks.flatMap Block.renderNotices ++ Layout.notices (Block.joined blocks)

end HclTidy
