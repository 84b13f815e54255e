import HclTidy.Text.Numeral
import HclTidy.Timestamp

/-!
# Timestamps in YAML text

A year of four digits, a month and a day, and perhaps a time behind the letter T or white space. The
time may have a fraction, of which six digits count, and an offset from universal time.
-/

set_option autoImplicit false

namespace HclTidy.Yaml

namespace Stamp

/-- Between `least` and `most` digits and nothing else, as a number. -/
def field? (least most : Nat) (t : Text) : Option Nat :=
  if least ≤ t.length && t.length ≤ most && t.all Char.isDigit then Text.digits? 10 0 t else none

def isSpace (c : Char) : Bool := c = ' ' || c = '\t'

/-- The offset of a time: none, `Z`, or a sign with hours and perhaps minutes. -/
def offset? (t : Text) : Option (Option Int) :=
  match t.dropWhile isSpace with
  | [] => if t.isEmpty then some none else none
  | ['Z'] => some (some 0)
  | sign :: rest =>
    if sign = '+' || sign = '-' then do
      let minutes ←
        match Text.splitOn ':' rest with
        | [hours] => do some (60 * (← field? 1 2 hours))
        | [hours, minutes] => do some (60 * (← field? 1 2 hours) + (← field? 2 2 minutes))
        | _ => none
      some (some (if sign = '-' then -(minutes : Int) else minutes))
    else none

/-- The six leading digits of a fraction of a second, as microseconds. -/
def microseconds (fraction : Text) : Nat :=
  (Text.digits? 10 0 (fraction.take 6 ++ List.replicate (6 - fraction.length) '0')).getD 0

def time? (t : Text) : Option TimeOfDay := do
  let hour ← field? 1 2 (t.takeWhile Char.isDigit)
  match t.dropWhile Char.isDigit with
  | ':' :: m1 :: m2 :: ':' :: s1 :: s2 :: rest =>
    let (fraction, rest) :=
      match rest with
      | '.' :: rest => (rest.takeWhile Char.isDigit, rest.dropWhile Char.isDigit)
      | rest => ([], rest)
    some ⟨hour, ← field? 2 2 [m1, m2], ← field? 2 2 [s1, s2], microseconds fraction, ← offset? rest⟩
  | _ => none

/-- The date in front of a text, with two digits for month and day if `strict` is set, and what
comes behind it. -/
def date? (strict : Bool) (t : Text) : Option (Timestamp × Text) := do
  let least := if strict then 2 else 1
  let year ← field? 4 4 (t.takeWhile Char.isDigit)
  match t.dropWhile Char.isDigit with
  | '-' :: rest =>
    let month ← field? least 2 (rest.takeWhile Char.isDigit)
    match rest.dropWhile Char.isDigit with
    | '-' :: rest =>
      let day ← field? least 2 (rest.takeWhile Char.isDigit)
      some (⟨year, month, day, none⟩, rest.dropWhile Char.isDigit)
    | _ => none
  | _ => none

end Stamp

open Stamp in
/-- The timestamp that a text spells, existing or not. -/
def timestamp? (t : Text) : Option Timestamp := do
  let (date, rest) ← date? false t
  match rest with
  | [] => some date
  | c :: behind =>
    let time ←
      if c = 'T' || c = 't' then time? behind
      else if isSpace c then time? (behind.dropWhile isSpace)
      else none
    some { date with time := some time }

/-- A plain scalar of this spelling is a timestamp. A date without a time needs all its digits. -/
def isTimestamp (t : Text) : Bool :=
  match timestamp? t with
  | none => false
  | some stamp => stamp.time.isSome || (Stamp.date? true t).isSome

end HclTidy.Yaml
