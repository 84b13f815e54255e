import HclTidy.Text.Printable

/-!
# Quoted text in messages

A value shown in a message stands between quotes: apostrophes, or double quotes when the value
holds an apostrophe and no double quote. Backslashes, the quote itself and every character that is
not printable are escaped.
-/

set_option autoImplicit false

namespace HclTidy.Text

/-- The low `width` hexadecimal digits of a number, in lower case. -/
def hexDigits (width n : Nat) : Text :=
  let digits := Nat.toDigits 16 n
  List.replicate (width - digits.length) '0' ++ digits

/-- One character between quotes of the given kind. -/
def escapedChar (quote c : Char) : Text :=
  if c = quote || c = '\\' then ['\\', c]
  else if c = '\n' then ['\\', 'n']
  else if c = '\r' then ['\\', 'r']
  else if c = '\t' then ['\\', 't']
  else if isPrintable c then [c]
  else if c.toNat < 0x100 then '\\' :: 'x' :: hexDigits 2 c.toNat
  else if c.toNat < 0x10000 then '\\' :: 'u' :: hexDigits 4 c.toNat
  else '\\' :: 'U' :: hexDigits 8 c.toNat

/-- The quote that surrounds a value in a message. -/
def quoteFor (t : Text) : Char :=
  if t.contains '\'' && !t.contains '"' then '"' else '\''

def quoted (t : Text) : String :=
  let quote := quoteFor t
  str (quote :: t.flatMap (escapedChar quote) ++ [quote])

end HclTidy.Text
