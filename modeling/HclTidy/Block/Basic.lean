import HclTidy.Expr.Basic

/-!
# Blocks

A file is a sequence of top-level blocks. A block has a type, labels, and a body of attributes and
nested blocks. A top-level block also keeps the exact text between its braces, the comments above
it and the name of its file.
-/

set_option autoImplicit false

namespace HclTidy

structure Attribute where
  name : Text
  value : Expr

/-- A block inside another block, such as `ingress { … }`. -/
structure NestedBlock where
  type : Text
  labels : List Text
  attributes : List Attribute
  blocks : List NestedBlock

structure Body where
  attributes : List Attribute
  blocks : List NestedBlock

namespace Body

def empty : Body := ⟨[], []⟩

def isEmpty (b : Body) : Bool := b.attributes.isEmpty && b.blocks.isEmpty

end Body

def NestedBlock.body (b : NestedBlock) : Body := ⟨b.attributes, b.blocks⟩

/-- A top-level declaration. A raw body that is not empty wins over `body` when the block is
written. -/
structure Block where
  type : Text
  labels : List Text
  body : Body
  rawBody : Text
  leadingComments : Text
  file : Text

/-- The known top-level block types and the number of labels each takes. -/
def Block.labelCounts : List (Text × Nat) :=
  [("terraform".toList, 0), ("provider".toList, 1), ("variable".toList, 1), ("locals".toList, 0),
   ("data".toList, 2), ("resource".toList, 2), ("module".toList, 1), ("output".toList, 1)]

/-- The address of a resource or data source. -/
def Block.address? (b : Block) : Option Text :=
  match b.labels with
  | first :: second :: _ =>
    if b.type = "resource".toList then some (first ++ '.' :: second)
    else if b.type = "data".toList then some ("data.".toList ++ first ++ '.' :: second)
    else none
  | _ => none

/-- The blocks of one file, in source order. -/
structure ParsedFile where
  name : Text
  blocks : List Block

end HclTidy
