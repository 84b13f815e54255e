import HclTidy.Text.Blank

/-!
# The source around a block

The raw body is the text between the braces of a block. The leading comments are the comment lines
directly above it.
-/

set_option autoImplicit false

namespace HclTidy.Block

/-- The text between two offsets; empty unless they describe a range of the text. -/
def rawBodyAt (text : Text) (start stop : Int) : Text :=
  if 0 ≤ start ∧ start ≤ stop ∧ stop ≤ text.length then
    text.slice start.toNat stop.toNat
  else []

/-- A line that may stand among leading comments, trimmed. -/
def isCommentOrBlank (row : Text) : Bool :=
  row.isEmpty || ['#'].isPrefixOf row || ['/', '/'].isPrefixOf row

/-- The lines without the empty ones at both ends. -/
def trimRows (rows : List Text) : List Text :=
  ((rows.dropWhile List.isEmpty).reverse.dropWhile List.isEmpty).reverse

/-- The comment lines directly above the block whose keyword is at `blockStart`. The walk goes up
to `previousEnd`, the end of the block before, and stops at the first line that is neither blank
nor a comment. Blank lines between comments are kept. -/
def leadingCommentsAt (text : Text) (blockStart previousEnd : Int) : Text :=
  if 0 ≤ previousEnd ∧ previousEnd ≤ blockStart ∧ blockStart ≤ text.length then
    let above := (Text.lines (text.slice previousEnd.toNat blockStart.toNat)).dropLast
    let rows := if previousEnd > 0 then above.tail else above
    let run := (rows.reverse.map Text.trim).takeWhile isCommentOrBlank
    Text.unlines (trimRows run.reverse)
  else []

end HclTidy.Block
