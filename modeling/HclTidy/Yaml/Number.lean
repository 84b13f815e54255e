import HclTidy.Config.Document
import HclTidy.Text.Lowercase
import HclTidy.Text.Numeral
import HclTidy.Yaml.Cursor

/-!
# Numbers in YAML text

Integers in four bases and in base sixty, and floats, are told from text by their spelling. A scalar
that is tagged as a number may be spelled more freely, and then it may turn out not to be one.
Underscores are left out everywhere.
-/

set_option autoImplicit false

namespace HclTidy.Yaml

namespace Number

def isDigits (t : Text) : Bool := !t.isEmpty && t.all Char.isDigit

/-- A digit, then digits and underscores. -/
def isGrouped (t : Text) : Bool :=
  match t with
  | c :: rest => c.isDigit && rest.all fun d => d.isDigit || d = '_'
  | [] => false

/-- A place of a number in base sixty after the first: one or two digits below sixty. -/
def isSixtieth (t : Text) : Bool :=
  match t with
  | [c] => c.isDigit
  | [c, d] => '0' ≤ c && c ≤ '5' && d.isDigit
  | _ => false

/-- A number with places in base sixty, separated by colons. -/
def isSexagesimal (t : Text) : Bool :=
  match Text.splitOn ':' t with
  | first :: rest => isGrouped first && !rest.isEmpty && rest.all isSixtieth
  | [] => false

end Number

open Number

/-- A plain scalar of this spelling is an integer. -/
def isInteger (text : Text) : Bool :=
  let t := Text.unsigned text
  match t with
  | '0' :: 'b' :: rest => !rest.isEmpty && rest.all fun c => c = '0' || c = '1' || c = '_'
  | '0' :: 'x' :: rest =>
    !rest.isEmpty && rest.all fun c =>
      c.isDigit || ('a' ≤ c && c ≤ 'f') || ('A' ≤ c && c ≤ 'F') || c = '_'
  | ['0'] => true
  | '0' :: rest => rest.all fun c => ('0' ≤ c && c ≤ '7') || c = '_'
  | _ => isGrouped t || isSexagesimal t

namespace Number

/-- An exponent with its sign, or nothing. -/
def isExponent (t : Text) : Bool :=
  match t with
  | [] => true
  | e :: s :: digits => (e = 'e' || e = 'E') && (s = '+' || s = '-') && isDigits digits
  | _ => false

def isInfinity (t : Text) : Bool := [".inf", ".Inf", ".INF"].any fun s => s.toList = t

def isNotANumber (t : Text) : Bool := [".nan", ".NaN", ".NAN"].any fun s => s.toList = t

def isGroupChar (c : Char) : Bool := c.isDigit || c = '_'

end Number

/-- A plain scalar of this spelling is a float. -/
def isFloat (text : Text) : Bool :=
  let t := Text.unsigned text
  isInfinity t || isNotANumber text ||
    match Text.cut? ['.'] t with
    | none => false
    | some (before, after) =>
      let behind := after.dropWhile isGroupChar
      if before.isEmpty then
        t = text && isGrouped (after.takeWhile isGroupChar) && isExponent behind
      else
        (isGrouped before && isExponent behind) || (isSexagesimal before && behind.isEmpty)

namespace Number

def ofBase (base : Nat) (t : Text) : Except ScalarFault Int :=
  match Text.integer? base t with
  | some n => .ok n
  | none => .error (.integer base t)

/-- The most digits that are read. -/
def maxDigits : Nat := 4300

def leadingDigits (t : Text) : Nat := (t.takeWhile fun c => (Text.decimalValue? c).isSome).length

/-- An integer in base ten. -/
def decimal (t : Text) : Except ScalarFault Int :=
  let count := leadingDigits (Text.unsigned (Text.trimNumeral t))
  if maxDigits < count then .error (.tooManyDigits count) else ofBase 10 t

/-- An integer with places in base sixty, separated by colons. -/
def sexagesimal (t : Text) : Except ScalarFault Int := do
  let places ← (Text.splitOn ':' t).mapM decimal
  .ok (places.foldl (fun n place => 60 * n + place) 0)

end Number

/-- The integer that a scalar stands for. A sign in front is taken off before the base is told. -/
def integer (text : Text) : Except ScalarFault Int :=
  let t := text.filter (· ≠ '_')
  let magnitude : Except ScalarFault Int :=
    match Text.unsigned t with
    | [] => .error .emptyNumber
    | ['0'] => .ok 0
    | '0' :: 'b' :: rest => ofBase 2 rest
    | '0' :: 'x' :: rest => ofBase 16 rest
    | '0' :: rest => ofBase 8 ('0' :: rest)
    | u => if u.contains ':' then sexagesimal u else decimal u
  magnitude.map fun n => if Text.isNegative t then -n else n

namespace Number

def infinity : Float := 1.0 / 0.0

/-- The nearest float to a decimal; the exponent is cut where it decides nothing. -/
def nearest (digits : Text) (exponent : Int) : Float :=
  let n := (Text.digits? 10 0 digits).getD 0
  if n = 0 || exponent + digits.length < -400 then 0
  else if 400 < exponent then infinity
  else Float.ofScientific n (exponent < 0) exponent.natAbs

/-- An exponent with or without a sign, or nothing. -/
def exponent? : Text → Option Int
  | [] => some 0
  | 'e' :: rest =>
    if isDigits (Text.unsigned rest) then Text.integer? 10 rest else none
  | _ => none

/-- A decimal number with an optional fraction and exponent. -/
def decimalFloat? (t : Text) : Option Float := do
  let whole := t.takeWhile Char.isDigit
  let (fraction, rest) :=
    match t.drop whole.length with
    | '.' :: rest => (rest.takeWhile Char.isDigit, rest.dropWhile Char.isDigit)
    | rest => ([], rest)
  let exponent ← exponent? rest
  if whole.isEmpty && fraction.isEmpty then none
  else some (nearest (whole ++ fraction) (exponent - fraction.length))

/-- A decimal digit of any script as an ASCII digit. -/
def asciiDigit (c : Char) : Char :=
  match Text.decimalValue? c with
  | some n => .ofNat ('0'.toNat + n)
  | none => c

/-- A float in lower case, with white space around it and a sign. -/
def ofFloatText (text : Text) : Except ScalarFault Float :=
  let t := (Text.trimNumeral text).map asciiDigit
  let u := Text.unsigned t
  let magnitude : Option Float :=
    if u = "inf".toList || u = "infinity".toList then some infinity
    else if u = "nan".toList then some (0.0 / 0.0)
    else decimalFloat? u
  match magnitude with
  | some x => .ok (if Text.isNegative t then -x else x)
  | none => .error (.float text)

/-- The most places of a float in base sixty; sixty to that power is out of range. -/
def maxPlaces : Nat := 174

/-- Adds up places in base sixty, the last one first, as each is worth `unit` times sixty to the
number of the places behind it. -/
def addPlaces (sum : Float) (unit : Nat) : List Float → Float
  | [] => sum
  | place :: rest => addPlaces (sum + place * Float.ofNat unit) (60 * unit) rest

def sexagesimalFloat (t : Text) : Except ScalarFault Float := do
  let places ← (Text.splitOn ':' t).mapM ofFloatText
  if maxPlaces < places.length then .error .placeTooLarge
  else .ok (addPlaces 0.0 1 places.reverse)

end Number

/-- The float that a scalar stands for. -/
def float (text : Text) : Except ScalarFault Document :=
  let t := Text.lower (text.filter (· ≠ '_'))
  let u := Text.unsigned t
  let signed (x : Float) : Document := .float (if Text.isNegative t then -x else x)
  if t.isEmpty then .error .emptyNumber
  else if u = ".inf".toList then .ok (signed infinity)
  else if u = ".nan".toList then .ok .notANumber
  else if u.contains ':' then (sexagesimalFloat u).map signed
  else (ofFloatText u).map signed

end HclTidy.Yaml
