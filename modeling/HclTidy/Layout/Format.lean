import HclTidy.Layout.Align

/-!
# Canonical layout

`Layout.format` indents lines by their open brackets, aligns attributes and trailing comments,
removes white space at line ends and ends the text with one line feed. Heredoc bodies and the inner
lines of block comments are kept as they are. A text without tokens only loses the white space at
its line ends and the blank lines at both ends.
-/

set_option autoImplicit false

namespace HclTidy.Layout

/-- The lines of a text in canonical layout. -/
def linesOf (text : Text) (tokens : List Token) : List Line :=
  let lines := linesFrom [] (rowsOf text tokens)
  mapRuns commented? alignComments (mapRuns assignment? alignNames lines)

def format (text : Text) : Text :=
  match TokenStream.ofText text with
  | .ok stream => finish ((linesOf text stream.tokens).map Line.written)
  | .error _ => finish ((Text.lines text).map Text.trimRight)

end HclTidy.Layout
