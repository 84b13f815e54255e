import HclTidy.Text.Blank
import HclTidy.Token.Lexer

/-!
# Lines and indentation

The layout works line by line. A line that continues a token from an earlier line is verbatim; every
other line is free and is indented by one step for each line above it that left brackets open.
-/

set_option autoImplicit false

namespace HclTidy.Layout

/-- A line of the source with the tokens that begin on it. -/
structure Row where
  text : Text
  tokens : List Token
  /-- The line begins inside a token. -/
  continued : Bool

/-- The last line that the tokens reach. -/
def reachOf (reach : Nat) (tokens : List Token) : Nat :=
  tokens.foldl (fun r t => max r (t.start.line + t.lineFeeds)) reach

/-- The rows from line `number` on, where the tokens of the lines above reach line `reach`. -/
def rowsFrom (number reach : Nat) (tokens : List Token) : List Text → List Row
  | [] => []
  | line :: rest =>
    let here := tokens.takeWhile fun t => t.start.line = number
    ⟨line, here, number ≤ reach⟩ ::
      rowsFrom (number + 1) (reachOf reach here) (tokens.drop here.length) rest

def rowsOf (text : Text) (tokens : List Token) : List Row :=
  rowsFrom 1 0 (tokens.filter fun t => t.kind ≠ .newline) (Text.lines text)

/-- The open brackets: one entry for each line that left brackets open, innermost first, with their
number. -/
abbrev Openings := List Nat

def closeOne : Openings → Openings
  | [] => []
  | n :: rest => if n ≤ 1 then rest else (n - 1) :: rest

/-- Closes the brackets that the leading closers of a line match. -/
def closeLeading (openings : Openings) : List Token → Openings × List Token
  | [] => (openings, [])
  | t :: rest =>
    if t.closes && !openings.isEmpty then closeLeading (closeOne openings) rest
    else (openings, t :: rest)

/-- Nets the brackets of a line: a closer matches an opener of its line before an earlier one. -/
def netBrackets (pending : Nat) (openings : Openings) : List Token → Nat × Openings
  | [] => (pending, openings)
  | t :: rest =>
    if t.opens then netBrackets (pending + 1) openings rest
    else if t.closes then
      match pending with
      | n + 1 => netBrackets n openings rest
      | 0 => netBrackets 0 (closeOne openings) rest
    else netBrackets pending openings rest

/-- A line of code with its indentation and, for an attribute on a single line, name and value. -/
structure FreeLine where
  indent : Nat
  tokens : List Token
  text : Text
  assignment : Option (Text × Text)

inductive Line where
  | verbatim (text : Text)
  | free (line : FreeLine)

/-- The name and value of a line whose first two tokens are a name and `=`. -/
def assignmentOf? (row : Row) : Option (Text × Text) :=
  match row.tokens with
  | name :: equal :: _ =>
    if (name.kind = .ident || name.kind = .string) && equal.kind = .equal then
      let column := equal.start.column - 1
      some (Text.trim (row.text.take column), Text.trim (row.text.drop (column + 1)))
    else none
  | _ => none

/-- A row as a line, and the openings after it. -/
def lineOf (openings : Openings) (row : Row) : Line × Openings :=
  let (inner, tokens) := closeLeading openings row.tokens
  let (pending, outer) := netBrackets 0 inner tokens
  let line :=
    if row.continued then .verbatim row.text
    else if row.tokens.isEmpty then .free ⟨0, [], [], none⟩
    else
      .free {
        indent := inner.length
        tokens := row.tokens
        text := Text.trim row.text
        assignment := if pending = 0 then assignmentOf? row else none }
  (line, if pending = 0 then outer else pending :: outer)

def linesFrom (openings : Openings) : List Row → List Line
  | [] => []
  | row :: rest =>
    let (line, openings) := lineOf openings row
    line :: linesFrom openings rest

/-- The spaces of an indentation. -/
def indentation (steps : Nat) : Text := List.replicate (2 * steps) ' '

def Line.written : Line → Text
  | .verbatim text => text
  | .free line => Text.trimRight (indentation line.indent ++ line.text)

/-- The lines without blank ones at both ends, each ended by a line feed. -/
def finish (lines : List Text) : Text :=
  let kept := ((lines.dropWhile Text.allBlank).reverse.dropWhile Text.allBlank).reverse
  if kept.isEmpty then [] else Text.unlines kept ++ ['\n']

end HclTidy.Layout
