import HclTidy.Text.Utf8

/-!
# Binary scalars

Bytes written in base sixty-four. Characters outside the alphabet are passed over; padding that
completes a group of four ends the data.
-/

set_option autoImplicit false

namespace HclTidy.Yaml.Binary

/-- The value of a character of the alphabet. -/
def sextet? (c : Char) : Option Nat :=
  if 'A' ≤ c && c ≤ 'Z' then some (c.toNat - 'A'.toNat)
  else if 'a' ≤ c && c ≤ 'z' then some (c.toNat - 'a'.toNat + 26)
  else if '0' ≤ c && c ≤ '9' then some (c.toNat - '0'.toNat + 52)
  else if c = '+' then some 62
  else if c = '/' then some 63
  else none

/-- Decodes behind `position` characters of a group of four and `pads` signs of padding, where
`held` is the part of the last character that belongs to the next byte. Data that stop inside a
group are no bytes. -/
def decodeFrom (position held pads : Nat) : Text → Option Bytes
  | [] => if position = 0 then some [] else none
  | c :: rest =>
    if c = '=' then
      if position < 2 then decodeFrom position held pads rest
      else if 4 ≤ position + pads + 1 then some []
      else decodeFrom position held (pads + 1) rest
    else
      match sextet? c with
      | none => decodeFrom position held pads rest
      | some n =>
        match position with
        | 0 => decodeFrom 1 n 0 rest
        | 1 => (decodeFrom 2 (n % 16) 0 rest).map (.ofNat (4 * held + n / 16) :: ·)
        | 2 => (decodeFrom 3 (n % 4) 0 rest).map (.ofNat (16 * held + n / 4) :: ·)
        | _ => (decodeFrom 0 0 0 rest).map (.ofNat (64 * held + n) :: ·)

/-- The bytes of a scalar, which must be ASCII. -/
def decode? (text : Text) : Option Bytes :=
  if text.all fun c => c.toNat < 128 then decodeFrom 0 0 0 text else none

end HclTidy.Yaml.Binary
