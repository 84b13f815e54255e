import HclTidy.Text.Blank

/-!
# Templates

A template is the inside of a quoted string or of a heredoc: literal text in which `${ … }` embeds
an expression and `%{ … }` a directive. Scanning splits a template into its parts and keeps every
character, so that the parts can be written back as they were. An interpolation ends at the brace
that matches its opening one; quoted templates inside it are skipped as a whole, to any depth.
-/

set_option autoImplicit false

namespace HclTidy.Template

/-- One part of a template; `inner` is the exact text between the braces. -/
inductive Part where
  | literal (text : Text)
  | interpolation (directive : Bool) (inner : Text)
deriving Repr, DecidableEq

inductive ScanError where
  | expectedQuote (offset : Int)
  | unterminatedString
  | newlineInString
  | unterminatedEscape
  | unclosedInterpolation (offset : Nat)
deriving Repr, DecidableEq

def ScanError.message : ScanError → String
  | .expectedQuote offset => "Expected '\"' at pos " ++ toString offset
  | .unterminatedString => "Unterminated string"
  | .newlineInString => "Newline inside quoted string"
  | .unterminatedEscape => "Unterminated escape sequence"
  | .unclosedInterpolation offset => "Unclosed interpolation starting at pos " ++ toString offset

/-- The character that opens an interpolation, before its brace. -/
def marker (directive : Bool) : Char := if directive then '%' else '$'

namespace Part

/-- The part as it stands in the template. -/
def written : Part → Text
  | .literal text => text
  | .interpolation directive inner => marker directive :: '{' :: inner ++ ['}']

def isLiteral : Part → Bool
  | .literal _ => true
  | .interpolation _ _ => false

/-- The literal text of a part; empty for an interpolation. -/
def literalText : Part → Text
  | .literal text => text
  | .interpolation _ _ => []

end Part

/-- The inside of an interpolation without white space and strip markers at its ends. -/
def stripMarkers (inner : Text) : Text :=
  let body := Text.trim inner
  let body := if body.head? = some '~' then body.tail else body
  let body := if body.getLast? = some '~' then body.dropLast else body
  Text.trim body

/-- What encloses the scanner inside an interpolation, innermost first: a quoted template, or an
interpolation with the offset of its marker and the number of braces open inside it. -/
inductive Frame where
  | quote
  | braces (directive : Bool) (start depth : Nat)
deriving Repr, DecidableEq

/-- The characters collected since the last part, latest first, as a part. -/
def pending (piece : Text) : List Part :=
  if piece.isEmpty then [] else [.literal piece.reverse]

/-- The parts of a template up to its end, and the text after it. A quoted template ends at the
first unescaped quote outside interpolations; an unquoted one at the end of the text. `piece` holds
the characters of the unfinished part, latest first. -/
def scan (quoted : Bool) (frames : List Frame) (offset : Nat) (piece : Text) :
    Text → Except ScanError (List Part × Text)
  | [] =>
    match frames with
    | [] => if quoted then .error .unterminatedString else .ok (pending piece, [])
    | .quote :: _ => .error .unterminatedString
    | .braces _ start _ :: _ => .error (.unclosedInterpolation start)
  | c :: rest =>
    match frames with
    | .braces directive start depth :: outer =>
      if c = '"' then scan quoted (.quote :: frames) (offset + 1) (c :: piece) rest
      else if c = '{' then
        scan quoted (.braces directive start (depth + 1) :: outer) (offset + 1) (c :: piece) rest
      else if c = '}' then
        match depth, outer with
        | inside + 1, _ =>
          scan quoted (.braces directive start inside :: outer) (offset + 1) (c :: piece) rest
        | 0, [] =>
          match scan quoted [] (offset + 1) [] rest with
          | .error e => .error e
          | .ok (parts, after) => .ok (.interpolation directive piece.reverse :: parts, after)
        | 0, _ => scan quoted outer (offset + 1) (c :: piece) rest
      else scan quoted frames (offset + 1) (c :: piece) rest
    | string =>
      let inString := quoted || !string.isEmpty
      if inString && c = '\n' then .error .newlineInString
      else if inString && c = '"' then
        match string with
        | [] => .ok (pending piece, rest)
        | _ :: outer => scan quoted outer (offset + 1) (c :: piece) rest
      else if inString && c = '\\' then
        match rest with
        | [] => .error .unterminatedEscape
        | e :: rest => scan quoted string (offset + 2) (e :: c :: piece) rest
      else if c = '$' || c = '%' then
        match rest with
        | '{' :: rest =>
          match string with
          | [] =>
            match scan quoted [.braces (c = '%') offset 0] (offset + 2) [] rest with
            | .error e => .error e
            | .ok (parts, after) => .ok (pending piece ++ parts, after)
          | _ => scan quoted (.braces (c = '%') offset 0 :: string) (offset + 2) ('{' :: c :: piece) rest
        | d :: '{' :: after =>
          if d = c then scan quoted string (offset + 3) ('{' :: d :: c :: piece) after
          else scan quoted string (offset + 1) (c :: piece) (d :: '{' :: after)
        | rest => scan quoted string (offset + 1) (c :: piece) rest
      else scan quoted string (offset + 1) (c :: piece) rest

/-- The parts of the quoted template that begins at `offset`, where `text` is the text from there
on, and the text after its closing quote. -/
def scanQuoted (offset : Nat) : Text → Except ScanError (List Part × Text)
  | '"' :: rest => scan true [] (offset + 1) [] rest
  | [] => .error (.expectedQuote (offset - 1 : Int))
  | _ :: _ => .error (.expectedQuote offset)

/-- The parts of an unquoted template that runs to the end of the text. -/
def scanBody (offset : Nat) (text : Text) : Except ScanError (List Part × Text) :=
  scan false [] offset [] text

/-- The parts of a text, or the whole text as one literal part when it is no template. -/
def partsOf (quoted : Bool) (text : Text) : List Part :=
  match if quoted then scanQuoted 0 text else scanBody 0 text with
  | .ok (parts, _) => parts
  | .error _ => [.literal text]

end HclTidy.Template
