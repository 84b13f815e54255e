import HclTidy.Decimal.Shortest
import HclTidy.Text.Quoted
import HclTidy.Text.Utf8
import HclTidy.Timestamp

/-!
# Documents

A decoded document: the untyped tree that a configuration is read from. Maps keep the order of their
entries and have distinct keys.
-/

set_option autoImplicit false

namespace HclTidy

inductive Document where
  | null
  | bool (value : Bool)
  | int (value : Int)
  | float (value : Float)
  /-- The value that is written as no number. -/
  | notANumber
  | text (value : Text)
  | timestamp (value : Timestamp)
  | binary (value : Bytes)
  | list (items : List Document)
  | map (entries : List (Document × Document))
  /-- A collection of another kind, empty or not. -/
  | other (isEmpty : Bool)
deriving Inhabited

namespace Document

def isNegativeFloat (x : Float) : Bool := x.toBits.toNat / 0x8000000000000000 = 1

/-- Floats in messages: positional from 10^-4 up to below 10^16, with at least one decimal place;
otherwise with an exponent of at least two digits and a sign. -/
def floatText (x : Float) : Text :=
  let sign : Text := if isNegativeFloat x then ['-'] else []
  if x.isNaN then "nan".toList
  else if x.isInf then sign ++ "inf".toList
  else
    let (digits, exponent) := (Decimal.shortest (.ofFloat x)).normal
    if x == 0 then sign ++ "0.0".toList
    else if -4 ≤ exponent && exponent < 16 then
      if exponent < 0 then
        sign ++ "0.".toList ++ List.replicate (-exponent - 1).toNat '0' ++ digits
      else
        let whole := exponent.toNat + 1
        let front := Text.padRight whole (digits.take whole)
        let front := front.map fun c => if c = ' ' then '0' else c
        let back := digits.drop whole
        sign ++ front ++ '.' :: (if back.isEmpty then ['0'] else back)
    else
      let back := digits.drop 1
      let mark : Text := if exponent < 0 then ['e', '-'] else ['e', '+']
      let power := Text.ofNat exponent.natAbs
      sign ++ digits.take 1 ++ (if back.isEmpty then [] else '.' :: back) ++ mark
        ++ (if power.length < 2 then '0' :: power else power)

/-- One byte between quotes. -/
def escapedByte (quote : Char) (b : UInt8) : Text :=
  if b.toNat < 128 then Text.escapedChar quote (.ofNat b.toNat)
  else '\\' :: 'x' :: Text.hexDigits 2 b.toNat

/-- Bytes as they are shown in messages. -/
def bytesText (bytes : Bytes) : Text :=
  let quote := Text.quoteFor (bytes.map fun b => .ofNat b.toNat)
  'b' :: quote :: bytes.flatMap (escapedByte quote) ++ [quote]

/-- A scalar as it is shown in messages. -/
def printed : Document → Text
  | null => "None".toList
  | bool true => "True".toList
  | bool false => "False".toList
  | int n => if n < 0 then '-' :: Text.ofNat n.natAbs else Text.ofNat n.natAbs
  | float x => floatText x
  | notANumber => "nan".toList
  | text t => t
  | timestamp t => t.printed
  | binary bytes => bytesText bytes
  | list _ => []
  | map _ => []
  | other _ => []

/-- The longest integer that can be shown. -/
def maxShownDigits : Nat := 4300

/-- An integer with too many digits to be shown. -/
def isOversized : Document → Bool
  | int n => Nat.pow 10 maxShownDigits ≤ n.natAbs
  | _ => false

/-- Empty and zero values count as absent where a field has a default. -/
def isFalsy : Document → Bool
  | null => true
  | bool value => !value
  | int n => n = 0
  | float x => x == 0
  | notANumber => false
  | text t => t.isEmpty
  | timestamp _ => false
  | binary bytes => bytes.isEmpty
  | list items => items.isEmpty
  | map entries => entries.isEmpty
  | other isEmpty => isEmpty

/-- The integer that a boolean or an integer counts as. -/
def int? : Document → Option Int
  | bool b => some (if b then 1 else 0)
  | int n => some n
  | _ => none

/-- A float has exactly the value of an integer. -/
def isFloatInt (x : Float) (n : Int) : Bool :=
  !x.isNaN && !x.isInf && (Decimal.Binary.ofFloat x).isInt (isNegativeFloat x) n

/-- Equal keys of a map. Booleans count as the numbers 0 and 1, and numbers are equal by value. -/
def isSameKey : Document → Document → Bool
  | null, null => true
  | notANumber, notANumber => true
  | text a, text b => a = b
  | timestamp a, timestamp b => a.isSame b
  | binary a, binary b => a = b
  | float x, float y => x == y
  | float x, b => b.int?.any (isFloatInt x)
  | a, float y => a.int?.any (isFloatInt y)
  | a, b => a.int?.isSome && a.int? = b.int?

/-- The entries of a map with one more; a key that is there keeps its place and its first
spelling. -/
def putEntry (entries : List (Document × Document)) (entry : Document × Document) :
    List (Document × Document) :=
  if entries.any fun e => isSameKey e.1 entry.1 then
    entries.map fun e => if isSameKey e.1 entry.1 then (e.1, entry.2) else e
  else entries ++ [entry]

/-- The key is a given text. -/
def isText (name : Text) : Document → Bool
  | text t => t = name
  | _ => false

/-- The value of a field of a map. -/
def field? (entries : List (Document × Document)) (name : Text) : Option Document :=
  (entries.find? fun e => e.1.isText name).map Prod.snd

/-- The texts of a list, when all its items are texts. -/
def texts? : List Document → Option (List Text)
  | [] => some []
  | text t :: rest => (texts? rest).map (t :: ·)
  | _ :: _ => none

end Document

end HclTidy
