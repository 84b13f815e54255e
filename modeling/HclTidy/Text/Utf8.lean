import HclTidy.Text.Basic

/-!
# UTF-8

Bytes and the characters they encode. Decoding reports the first ill-formed sequence with its
offset, its length and the way in which it is ill-formed: the shortest front of the sequence that no
well-formed one has. Reading a text file also turns every line end into a line feed.
-/

set_option autoImplicit false

namespace HclTidy

abbrev Bytes := List UInt8

namespace Utf8

inductive FaultKind where
  | invalidStart
  | invalidContinuation
  | unexpectedEnd
deriving Repr, DecidableEq

/-- An ill-formed sequence: where it begins, its first byte and its length. -/
structure Fault where
  kind : FaultKind
  offset : Nat
  first : UInt8
  length : Nat
deriving Repr, DecidableEq

def FaultKind.text : FaultKind → String
  | .invalidStart => "invalid start byte"
  | .invalidContinuation => "invalid continuation byte"
  | .unexpectedEnd => "unexpected end of data"

def hexByte (b : UInt8) : String := String.ofList (Nat.toDigits 16 b.toNat)

def Fault.message (f : Fault) : String :=
  "'utf-8' codec can't decode " ++
    (if f.length ≤ 1 then "byte 0x" ++ hexByte f.first ++ " in position " ++ toString f.offset
     else "bytes in position " ++ toString f.offset ++ "-" ++ toString (f.offset + f.length - 1)) ++
    ": " ++ f.kind.text

def encodeChar (c : Char) : Bytes :=
  let n := c.toNat
  if n < 0x80 then [.ofNat n]
  else if n < 0x800 then [.ofNat (0xC0 + n / 64), .ofNat (0x80 + n % 64)]
  else if n < 0x10000 then
    [.ofNat (0xE0 + n / 4096), .ofNat (0x80 + n / 64 % 64), .ofNat (0x80 + n % 64)]
  else
    [.ofNat (0xF0 + n / 262144), .ofNat (0x80 + n / 4096 % 64), .ofNat (0x80 + n / 64 % 64),
     .ofNat (0x80 + n % 64)]

def encode (t : Text) : Bytes := t.flatMap encodeChar

/-- The number of bytes of a text. -/
def size (t : Text) : Nat := (encode t).length

/-- A continuation byte. -/
def isContinuation (b : UInt8) : Bool := 0x80 ≤ b.toNat && b.toNat < 0xC0

/-- How many continuation bytes follow a first byte. -/
def continuations? (first : UInt8) : Option Nat :=
  let n := first.toNat
  if n < 0x80 then some 0
  else if n < 0xC2 then none
  else if n < 0xE0 then some 1
  else if n < 0xF0 then some 2
  else if n < 0xF5 then some 3
  else none

/-- The second byte may follow the first: no overlong form, no surrogate, nothing past U+10FFFF. -/
def allowsSecond (first second : UInt8) : Bool :=
  let n := first.toNat
  isContinuation second &&
    (if n = 0xE0 then 0xA0 ≤ second.toNat
     else if n = 0xED then second.toNat < 0xA0
     else if n = 0xF0 then 0x90 ≤ second.toNat
     else if n = 0xF4 then second.toNat < 0x90
     else true)

/-- The number of well-placed continuation bytes at the front, at most `count`. -/
def goodContinuations (first : UInt8) (count : Nat) (rest : Bytes) : Nat :=
  match count, rest with
  | _ + 1, second :: more =>
    if allowsSecond first second then 1 + ((more.take (count - 1)).takeWhile isContinuation).length
    else 0
  | _, _ => 0

/-- The value of a first byte and its continuation bytes. -/
def valueOf (first : UInt8) (count : Nat) (rest : Bytes) : Nat :=
  let lead := if count = 0 then first.toNat else first.toNat % Nat.pow 2 (6 - count)
  (rest.take count).foldl (fun n b => 64 * n + b.toNat % 64) lead

/-- Decodes from `offset` on, up to the first fault; `done` holds the characters before, latest
first, and `skip` the number of bytes that the last character still covers. -/
def decodeFrom (offset skip : Nat) (done : Text) : Bytes → Text × Option Fault
  | [] => (done.reverse, none)
  | b :: rest =>
    match skip with
    | left + 1 => decodeFrom (offset + 1) left done rest
    | 0 =>
      match continuations? b with
      | none => (done.reverse, some ⟨.invalidStart, offset, b, 1⟩)
      | some count =>
        let good := goodContinuations b count rest
        if good = count then
          decodeFrom (offset + 1) count (Char.ofNat (valueOf b count rest) :: done) rest
        else if rest.length = good then (done.reverse, some ⟨.unexpectedEnd, offset, b, good + 1⟩)
        else (done.reverse, some ⟨.invalidContinuation, offset, b, good + 1⟩)

/-- The characters in front of the first fault, and that fault. -/
def decodeFront (bytes : Bytes) : Text × Option Fault := decodeFrom 0 0 [] bytes

def decode (bytes : Bytes) : Except Fault Text :=
  match decodeFront bytes with
  | (text, none) => .ok text
  | (_, some fault) => .error fault

/-- Line ends of every kind turned into line feeds; `done` holds the text before, latest first. -/
def normaliseLinesFrom (done : Text) : Text → Text
  | [] => done.reverse
  | '\r' :: '\n' :: rest => normaliseLinesFrom ('\n' :: done) rest
  | c :: rest => normaliseLinesFrom ((if c = '\r' then '\n' else c) :: done) rest

def normaliseLines (t : Text) : Text := normaliseLinesFrom [] t

/-- The text of a file. -/
def readText (bytes : Bytes) : Except Fault Text := (decode bytes).map normaliseLines

end Utf8

end HclTidy
