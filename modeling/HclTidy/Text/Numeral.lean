import HclTidy.Text.Blank
import HclTidy.Text.Digit

/-!
# Numerals

The lenient numeral of a base: white space around it, a sign, a marker such as `0x` that one
underscore may follow, and digits with single underscores between them. Letters are the digits from
ten on, and decimal digits of any script count. Among the characters below U+0080 only the space
and U+0009 to U+000D are white space here.
-/

set_option autoImplicit false

namespace HclTidy.Text

/-- White space around a numeral. -/
def isNumeralSpace (c : Char) : Bool :=
  if c.toNat < 128 then c = ' ' || (9 ≤ c.toNat && c.toNat ≤ 13) else isBlank c

/-- The text without the white space around it. -/
def trimNumeral (t : Text) : Text :=
  ((t.dropWhile isNumeralSpace).reverse.dropWhile isNumeralSpace).reverse

def digitValue? (c : Char) : Option Nat :=
  if 'a' ≤ c && c ≤ 'z' then some (c.toNat - 'a'.toNat + 10)
  else if 'A' ≤ c && c ≤ 'Z' then some (c.toNat - 'A'.toNat + 10)
  else decimalValue? c

/-- The value of a digit of a base. -/
def digitBelow? (base : Nat) (c : Char) : Option Nat := (digitValue? c).filter (· < base)

/-- Digits with single underscores between them, read onto the value of the digits before. -/
def digits? (base value : Nat) : Text → Option Nat
  | [] => none
  | [c] => (digitBelow? base c).map (base * value + ·)
  | c :: '_' :: rest => do digits? base (base * value + (← digitBelow? base c)) rest
  | c :: rest => do digits? base (base * value + (← digitBelow? base c)) rest

/-- The letter that marks a base behind a zero. -/
def baseMarker? (base : Nat) : Option Char :=
  if base = 2 then some 'b' else if base = 8 then some 'o' else if base = 16 then some 'x' else none

/-- The digits after an optional marker, which one underscore may follow. -/
def magnitude? (base : Nat) (t : Text) : Option Nat :=
  match t with
  | z :: x :: rest =>
    if decimalValue? z = some 0 && baseMarker? base = some x.toLower then
      digits? base 0 (match rest with
        | '_' :: digits => digits
        | digits => digits)
    else digits? base 0 t
  | _ => digits? base 0 t

/-- The text without the sign in front. -/
def unsigned (t : Text) : Text :=
  match t with
  | c :: rest => if c = '+' || c = '-' then rest else t
  | [] => []

def isNegative (t : Text) : Bool := t.head? = some '-'

/-- The integer that a numeral of a base stands for. -/
def integer? (base : Nat) (t : Text) : Option Int :=
  let t := trimNumeral t
  (magnitude? base (unsigned t)).map fun n => if isNegative t then -(n : Int) else n

end HclTidy.Text
