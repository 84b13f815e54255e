import HclTidy.Text.Utf8
import HclTidy.Timestamp

/-!
# Reading YAML text

What a text may hold, where reading stands in it, and why it has no document. The end of the text
counts as a line break wherever one may end something.
-/

set_option autoImplicit false

namespace HclTidy.Yaml

/-- Why a scalar has no value. -/
inductive ScalarFault where
  | characterRange
  | characterTooLarge
  | integer (base : Nat) (numeral : Text)
  | tooManyDigits (count : Nat)
  | emptyNumber
  | float (numeral : Text)
  | placeTooLarge
  | boolean (text : Text)
  | notTimestamp
  | notText
  | timestamp (fault : Timestamp.Fault)
deriving Repr, DecidableEq

/-- Why a text has no document. -/
inductive Fault where
  | malformed
  /-- The text ends where something in it goes on. -/
  | unfinished
  /-- A scalar has no value. -/
  | scalar (fault : ScalarFault)
  /-- The text ends at bytes that are no text. -/
  | encoding (fault : Utf8.Fault)
deriving Repr, DecidableEq

def isBreak (c : Char) : Bool :=
  c = '\n' || c = '\r' || c = '\u0085' || c = '\u2028' || c = '\u2029'

/-- Characters that a text may hold. -/
def isAllowed (c : Char) : Bool :=
  let n := c.toNat
  n = 9 || n = 10 || n = 13 || (32 ≤ n && n ≤ 126) || n = 0x85 || (0xA0 ≤ n && n ≤ 0xD7FF)
    || (0xE000 ≤ n && n ≤ 0xFFFD) || 0x10000 ≤ n

/-- Characters of anchors, directives and tag handles. -/
def isWordChar (c : Char) : Bool := c.isAlphanum || c = '-' || c = '_'

def isUriChar (c : Char) : Bool := isWordChar c || ";/?:@&=+$,.!~*'()[]%".toList.contains c

/-- The text left with its length, and how far reading has come. -/
structure Cursor where
  rest : Text
  left : Nat
  index : Nat
  line : Nat
  column : Nat
  left_eq : left = rest.length := by simp
deriving Repr

namespace Cursor

def start (text : Text) : Cursor := ⟨text, text.length, 0, 0, 0, rfl⟩

def peekAt (c : Cursor) (n : Nat) : Option Char := c.rest[n]?

def peek (c : Cursor) : Option Char := c.rest.head?

/-- The end of the text or a line break comes `n` characters on. -/
def breakAt (c : Cursor) (n : Nat) : Bool :=
  match c.peekAt n with
  | none => true
  | some d => isBreak d

/-- The end of the text, a line break, a space or, if `tabs` is set, a tab comes `n` characters
on. -/
def spaceAt (c : Cursor) (tabs : Bool) (n : Nat) : Bool :=
  c.breakAt n || c.peekAt n = some ' ' || (tabs && c.peekAt n = some '\t')

/-- The next character is passed over. The two characters of a line break count as one line. -/
def stepOne (c : Cursor) : Cursor :=
  match c with
  | ⟨[], left, index, line, column, h⟩ => ⟨[], left, index, line, column, h⟩
  | ⟨d :: rest, left, index, line, column, h⟩ =>
    have behind : left - 1 = rest.length := by simp [h]
    if d = '\n' || d = '\u0085' || d = '\u2028' || d = '\u2029'
        || (d = '\r' && rest.head? ≠ some '\n') then
      ⟨rest, left - 1, index + 1, line + 1, 0, behind⟩
    else ⟨rest, left - 1, index + 1, line, if d = '\uFEFF' then column else column + 1, behind⟩

def advance : Nat → Cursor → Cursor
  | 0, c => c
  | n + 1, c => advance n c.stepOne

/-- The next characters that satisfy a predicate, and the cursor behind them. -/
def takeWhile (c : Cursor) (p : Char → Bool) : Text × Cursor :=
  let run := c.rest.takeWhile p
  (run, c.advance run.length)

def skipWhile (c : Cursor) (p : Char → Bool) : Cursor := (c.takeWhile p).2

def skipSpaces (c : Cursor) : Cursor := c.skipWhile (· = ' ')

/-- The rest of the line, up to the line break. -/
def skipLine (c : Cursor) : Cursor := c.skipWhile fun d => !isBreak d

/-- The line break that comes next, in normal form; empty when there is none. -/
def lineBreak (c : Cursor) : Text × Cursor :=
  match c.rest with
  | '\r' :: '\n' :: _ => (['\n'], c.advance 2)
  | d :: _ =>
    if d = '\u2028' || d = '\u2029' then ([d], c.advance 1)
    else if isBreak d then (['\n'], c.advance 1)
    else ([], c)
  | [] => ([], c)

/-- Three equal characters and then white space, as at the borders of documents. -/
def atMark (c : Cursor) (mark : Char) : Bool :=
  [mark, mark, mark].isPrefixOf c.rest && c.spaceAt true 3

def atDocumentBorder (c : Cursor) : Bool := c.atMark '-' || c.atMark '.'

/-- The rest of a line that may hold spaces and a comment only. -/
def lineEnd (c : Cursor) : Except Fault (Unit × Cursor) :=
  let c := c.skipSpaces
  let c := if c.peek = some '#' then c.skipLine else c
  if c.breakAt 0 then .ok ((), c.lineBreak.2) else .error .malformed

end Cursor

end HclTidy.Yaml
