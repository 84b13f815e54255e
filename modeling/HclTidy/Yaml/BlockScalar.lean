import HclTidy.Yaml.Cursor

/-!
# Literal and folded scalars

Scalars whose lines are marked by their indentation. The header may give the indentation and what
becomes of the line breaks at the end.
-/

set_option autoImplicit false

namespace HclTidy.Yaml

inductive Chomping where
  | clip | strip | keep
deriving Repr, DecidableEq

def chomping? : Option Char → Option Chomping
  | some '+' => some .keep
  | some '-' => some .strip
  | _ => none

/-- The chomping and indentation indicators, in either order. -/
def blockHeader (c : Cursor) : Except Fault ((Chomping × Option Nat) × Cursor) :=
  let digit? (c : Cursor) : Option Nat :=
    match c.peek with
    | some d => if d.isDigit then some (d.toNat - '0'.toNat) else none
    | none => none
  let (chomping, c) :=
    match chomping? c.peek with
    | some chomping => (some chomping, c.advance 1)
    | none => (none, c)
  let (width, c) :=
    match digit? c with
    | some n => (some n, c.advance 1)
    | none => (none, c)
  let (chomping, c) :=
    match chomping, width, chomping? c.peek with
    | none, some _, some chomping => (some chomping, c.advance 1)
    | chomping, _, _ => (chomping, c)
  if width = some 0 || !c.spaceAt false 0 then .error .malformed
  else .ok ((chomping.getD .clip, width), c)

/-- The empty lines at the front of a block scalar, and the widest indentation among them and the
first line. -/
def blockIndentation (widest : Nat) : Nat → Cursor → (Text × Nat) × Cursor
  | 0, c => (([], widest), c)
  | fuel + 1, c =>
    let c := c.skipSpaces
    let widest := max widest c.column
    match c.lineBreak with
    | ([], c) => (([], widest), c)
    | (mark, c) =>
      let ((more, widest), c) := blockIndentation widest fuel c
      ((mark ++ more, widest), c)

/-- The empty lines between two lines of a block scalar with a given indentation. -/
def blockBreaks (indent : Nat) : Nat → Cursor → Text × Cursor
  | 0, c => ([], c)
  | fuel + 1, c =>
    let blanks := (c.rest.take (indent - c.column)).takeWhile (· = ' ')
    let c := c.advance blanks.length
    match c.lineBreak with
    | ([], c) => ([], c)
    | (mark, c) =>
      let (more, c) := blockBreaks indent fuel c
      (mark ++ more, c)

/-- The lines of a block scalar after the empty lines `breaks`. -/
def blockLines (folded : Bool) (chomping : Chomping) (indent : Nat) (breaks : Text) :
    Nat → Cursor → Text × Cursor
  | 0, c => ([], c)
  | fuel + 1, c =>
    let isBlank (c : Cursor) := c.peek = some ' ' || c.peek = some '\t'
    let leading := !isBlank c
    let (line, c) := c.takeWhile fun d => !isBreak d
    let (mark, c) := c.lineBreak
    let (after, c) := blockBreaks indent (c.left + 1) c
    if c.column = indent && !c.rest.isEmpty then
      let joint :=
        if folded && mark = ['\n'] && leading && !isBlank c then
          if after.isEmpty then [' '] else []
        else mark
      let (more, c) := blockLines folded chomping indent after fuel c
      (breaks ++ line ++ joint ++ more, c)
    else
      (breaks ++ line ++ (if chomping = .strip then [] else mark)
        ++ (if chomping = .keep then after else []), c)

/-- A block scalar whose surrounding block has the indentation `outer`, behind its indicator. -/
def blockText (folded : Bool) (outer : Int) (c : Cursor) : Except Fault (Text × Cursor) := do
  let ((chomping, width), c) ← blockHeader c
  let ((), c) ← c.lineEnd
  let least := (max (outer + 1) 1).toNat
  let ((breaks, indent), c) :=
    match width with
    | none =>
      let ((breaks, widest), c) := blockIndentation 0 (c.left + 1) c
      ((breaks, max least widest), c)
    | some n =>
      let indent := least + n - 1
      let (breaks, c) := blockBreaks indent (c.left + 1) c
      ((breaks, indent), c)
  if c.column = indent && !c.rest.isEmpty then
    .ok (blockLines folded chomping indent breaks (c.left + 1) c)
  else .ok (if chomping = .keep then breaks else [], c)

end HclTidy.Yaml
