import HclTidy.Text.Utf8

/-!
# Text streams

A stream of text is read in portions of characters. Bytes are decoded in pieces, as many as a
portion needs; a piece has at least a fixed size, and is longer when the characters before have
taken many bytes each. A fault makes the portion fail whose reading decodes it, and counts its
offset from the beginning of the piece or of the character that was left over from the piece before.
-/

set_option autoImplicit false

namespace HclTidy.Stream

open Utf8

/-- The number of characters in a portion. -/
def portionSize : Nat := 4096

/-- The least number of bytes in a piece. -/
def pieceSize : Nat := 8192

/-- The number of bytes at the end that only begin a character. -/
def unfinishedBytes (bytes : Bytes) : Nat :=
  let back := bytes.reverse
  let run := (back.takeWhile isContinuation).length
  match (back.drop run).head? with
  | none => 0
  | some first => if run < (continuations? first).getD 0 then run + 1 else 0

/-- The offset of the byte at which a fault shows. Two bytes that begin a surrogate are a fault, but
it shows only behind them. -/
def showsAt (bytes : Bytes) (f : Fault) : Nat :=
  match f.kind with
  | .invalidStart => f.offset
  | .invalidContinuation =>
    let isSurrogate :=
      f.first = 0xED && f.length = 1 && (bytes.drop (f.offset + 1)).head?.any isContinuation
    f.offset + f.length + if isSurrogate then 1 else 0
  | .unexpectedEnd => f.offset + f.length

/-- The number of line ends of two bytes. -/
def wideLineEnds (bytes : Bytes) : Nat :=
  (bytes.zip bytes.tail).countP fun (a, b) => a = 13 && b = 10

/-- The number of characters that bytes give, line ends counted as one. A carriage return at the end
is held back, as a line feed may follow. -/
def characterCount (bytes : Bytes) : Nat :=
  let whole := bytes.take (bytes.length - unfinishedBytes bytes)
  let held := if whole.getLast? = some 13 then 1 else 0
  whole.countP (fun b => !isContinuation b) - wideLineEnds whole - held

/-- How far a stream has been read: the bytes decoded, the characters left over, the bytes that each
character of the last piece took, and the number of portions. -/
structure Progress where
  offset : Nat
  available : Nat
  ratio : Float
  portions : Nat

/-- The number of bytes in the next piece, when some characters are missing from a portion. -/
def nextPiece (p : Progress) (missing : Nat) : Nat :=
  max pieceSize (p.ratio * missing.toFloat).floor.toUInt64.toNat

/-- The portions before the piece in which the byte at offset `shows` is decoded, and the offset of
that piece. -/
def locate (bytes : Bytes) (shows : Nat) : Nat → Progress → Nat × Nat
  | 0, p => (p.portions, p.offset)
  | fuel + 1, p =>
    if portionSize ≤ p.available then
      locate bytes shows fuel
        { p with available := p.available - portionSize, portions := p.portions + 1 }
    else
      let stop := min (p.offset + nextPiece p (portionSize - p.available)) bytes.length
      if shows < stop || stop ≤ p.offset then (p.portions, p.offset)
      else
        let count := characterCount (bytes.take stop) - characterCount (bytes.take p.offset)
        let ratio := if count = 0 then 0 else (stop - p.offset).toFloat / count.toFloat
        locate bytes shows fuel ⟨stop, p.available + count, ratio, p.portions⟩

/-- The number of whole portions before a fault, and the fault as it is reported. -/
def failure (bytes : Bytes) (f : Fault) : Nat × Fault :=
  let (portions, start) := locate bytes (showsAt bytes f) (2 * bytes.length + 2) ⟨0, 0, 0, 0⟩
  let base := if f.offset < start then f.offset else start - unfinishedBytes (bytes.take start)
  (portions, { f with offset := f.offset - base })

end HclTidy.Stream
