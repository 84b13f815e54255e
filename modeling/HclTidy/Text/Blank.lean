import HclTidy.Text.Basic

/-!
# White space

The blank characters are those with the Unicode property `White_Space` and the four information
separators U+001C to U+001F. The byte order mark U+FEFF is not blank. Trimming removes blank
characters from the ends of a text.
-/

set_option autoImplicit false

namespace HclTidy.Text

def blankRanges : List (Nat × Nat) :=
  [(0x9, 0xD), (0x1C, 0x20), (0x85, 0x85), (0xA0, 0xA0), (0x1680, 0x1680), (0x2000, 0x200A),
   (0x2028, 0x2029), (0x202F, 0x202F), (0x205F, 0x205F), (0x3000, 0x3000)]

def isBlank (c : Char) : Bool := inRanges blankRanges c.toNat

def trimLeft (t : Text) : Text := t.dropWhile isBlank

def trimRight (t : Text) : Text := (t.reverse.dropWhile isBlank).reverse

def trim (t : Text) : Text := trimRight (trimLeft t)

/-- Nothing but white space. -/
def allBlank (t : Text) : Bool := t.all isBlank

end HclTidy.Text
