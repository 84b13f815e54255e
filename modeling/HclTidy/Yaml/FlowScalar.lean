import HclTidy.Text.Numeral
import HclTidy.Yaml.Cursor

/-!
# Quoted and plain scalars

Scalars that may go on over several lines. A single line break between two words is folded into a
space; further line breaks are kept.
-/

set_option autoImplicit false

namespace HclTidy.Yaml

/-- Line breaks and the white space before each, inside a quoted scalar. -/
def flowBreaks : Nat → Cursor → Except Fault (Text × Cursor)
  | 0, c => .ok ([], c)
  | fuel + 1, c =>
    if c.atDocumentBorder then .error .malformed
    else
      let c := c.skipWhile fun d => d = ' ' || d = '\t'
      match c.lineBreak with
      | ([], c) => .ok ([], c)
      | (mark, c) => do
        let (more, c) ← flowBreaks fuel c
        .ok (mark ++ more, c)

/-- What a line break and the breaks after it amount to in a folded scalar. -/
def foldBreaks (mark breaks : Text) : Text :=
  (if mark ≠ ['\n'] then mark else if breaks.isEmpty then [' '] else []) ++ breaks

def escapes : List (Char × Char) :=
  [('0', '\x00'), ('a', '\x07'), ('b', '\x08'), ('t', '\t'), ('\t', '\t'), ('n', '\n'),
   ('v', '\x0b'), ('f', '\x0c'), ('r', '\r'), ('e', '\x1b'), (' ', ' '), ('"', '"'), ('\\', '\\'),
   ('/', '/'), ('N', '\u0085'), ('_', '\u00A0'), ('L', '\u2028'), ('P', '\u2029')]

def isHexDigit (c : Char) : Bool :=
  c.isDigit || ('a' ≤ c && c ≤ 'f') || ('A' ≤ c && c ≤ 'F')

def hexValue (digits : Text) : Nat :=
  digits.foldl (fun n c => 16 * n + (Text.digitValue? c).getD 0) 0

/-- The character of a numeric escape with `width` digits. -/
def numericEscape (width : Nat) (c : Cursor) : Except Fault (Char × Cursor) :=
  let digits := c.rest.take width
  if !digits.all isHexDigit then .error .malformed
  else if digits.length < width then .error .unfinished
  else
    let code := hexValue digits
    if 0x7FFFFFFF < code then .error (.scalar .characterTooLarge)
    else if 0x10FFFF < code then .error (.scalar .characterRange)
    else
      -- A surrogate is no character: the replacement character stands for it.
      .ok (if code.isValidChar then Char.ofNat code else '\uFFFD', c.advance width)

/-- The inside of a quoted scalar up to its closing quote, without which it is not finished. -/
def quotedText (double : Bool) : Nat → Cursor → Except Fault (Text × Cursor)
  | 0, _ => .error .malformed
  | fuel + 1, c =>
    match c.rest with
    | [] => .error .unfinished
    | d :: rest =>
      let plain (text : Text) (c : Cursor) : Except Fault (Text × Cursor) := do
        let (more, c) ← quotedText double fuel c
        .ok (text ++ more, c)
      if !double && d = '\'' then
        if rest.head? = some '\'' then plain ['\''] (c.advance 2) else .ok ([], c.advance 1)
      else if double && d = '"' then .ok ([], c.advance 1)
      else if d = ' ' || d = '\t' || isBreak d then do
        let (blanks, c) := c.takeWhile fun d => d = ' ' || d = '\t'
        if c.rest.isEmpty then .error .unfinished
        else
          match c.lineBreak with
          | ([], c) => plain blanks c
          | (mark, c) => do
            let (breaks, c) ← flowBreaks (c.left + 1) c
            plain (foldBreaks mark breaks) c
      else if double && d = '\\' then
        match rest with
        | [] => .error .unfinished
        | e :: _ =>
          let c := c.advance 1
          match escapes.lookup e with
          | some f => plain [f] (c.advance 1)
          | none =>
            let width := if e = 'x' then 2 else if e = 'u' then 4 else if e = 'U' then 8 else 0
            if 0 < width then do
              let (f, c) ← numericEscape width (c.advance 1)
              plain [f] c
            else
              match c.lineBreak with
              | ([], _) => .error .malformed
              | (_, c) => do
                let (breaks, c) ← flowBreaks (c.left + 1) c
                plain breaks c
      else plain [d] (c.advance 1)

/-- How many characters of a plain scalar follow without white space. -/
def plainLength (flow : Bool) : Text → Nat
  | [] => 0
  | c :: rest =>
    let behind :=
      match rest.head? with
      | none => true
      | some d => isBreak d || d = ' ' || d = '\t' || (flow && ",[]\x7b\x7d".toList.contains d)
    if isBreak c || c = ' ' || c = '\t' || (c = ':' && behind)
        || (flow && ",?[]\x7b\x7d".toList.contains c) then 0
    else 1 + plainLength flow rest

/-- The line breaks after a first one, with spaces between them; `none` at the border of a
document. -/
def plainBreaks : Nat → Cursor → Option Text × Cursor
  | 0, c => (some [], c)
  | fuel + 1, c =>
    let c := c.skipSpaces
    match c.lineBreak with
    | ([], c) => (some [], c)
    | (mark, c) =>
      if c.atDocumentBorder then (none, c)
      else
        let (more, c) := plainBreaks fuel c
        (more.map (mark ++ ·), c)

/-- The white space inside a plain scalar, and whether it holds a line break; `none` when the
scalar ends here. -/
def plainSpaces (c : Cursor) : Option Text × Bool × Cursor :=
  let (blanks, c) := c.takeWhile (· = ' ')
  match c.lineBreak with
  | ([], c) => (if blanks.isEmpty then none else some blanks, false, c)
  | (mark, c) =>
    if c.atDocumentBorder then (none, true, c)
    else
      let (breaks, c) := plainBreaks (c.left + 1) c
      (breaks.map (foldBreaks mark), true, c)

/-- A plain scalar after the white space `before`, and whether it ends at the start of a line.
`least` is the column below which a line no longer belongs to it. -/
def plainText (flow : Bool) (least : Nat) (before : Text) :
    Nat → Cursor → Bool → Text × Bool × Cursor
  | 0, c, fresh => ([], fresh, c)
  | fuel + 1, c, fresh =>
    if c.peek = some '#' then ([], fresh, c)
    else
      let n := plainLength flow c.rest
      if n = 0 then ([], fresh, c)
      else
        let piece := c.rest.take n
        let c := c.advance n
        match plainSpaces c with
        | (none, broken, c) => (before ++ piece, broken, c)
        | (some spaces, broken, c) =>
          if c.peek = some '#' || (!flow && c.column < least) then (before ++ piece, broken, c)
          else
            let (more, fresh, c) := plainText flow least spaces fuel c broken
            (before ++ piece ++ more, fresh, c)

end HclTidy.Yaml
