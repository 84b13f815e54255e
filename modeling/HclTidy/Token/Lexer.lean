import HclTidy.Text.Alphanumeric
import HclTidy.Text.Digit
import HclTidy.Text.Quoted
import HclTidy.Template.Basic
import HclTidy.Token.Basic

/-!
# Reading tokens

`TokenStream.ofText` reads a text from left to right. Spaces, tabs, carriage returns and byte order
marks only separate tokens; line feeds and comments are tokens of their own. The kind and length of
a token are decided by `lexeme`, from its first character and the text behind it.
-/

set_option autoImplicit false

namespace HclTidy

/-- Why a text has no tokens, apart from the place. -/
inductive LexFault where
  | heredocMarker (marker : Text)
  | unterminatedHeredoc (marker : Text)
  | unterminatedComment
  | template (error : Template.ScanError)
  | unexpectedCharacter (c : Char)
deriving Repr, DecidableEq

structure LexError where
  fault : LexFault
  position : Position
deriving Repr, DecidableEq

/-- The place as messages name it. -/
def Position.text (p : Position) : String :=
  "line " ++ toString p.line ++ ", col " ++ toString p.column

def LexError.message (e : LexError) : String :=
  match e.fault with
  | .heredocMarker marker =>
    "Heredoc marker <<" ++ marker.str ++ " must be followed by a newline at line "
      ++ toString e.position.line
  | .unterminatedHeredoc marker =>
    "Unterminated heredoc <<" ++ marker.str ++ " starting at line " ++ toString e.position.line
  | .unterminatedComment => "Unterminated block comment at " ++ e.position.text
  | .template error => error.message ++ " at " ++ e.position.text
  | .unexpectedCharacter c =>
    "Unexpected character " ++ Text.quoted [c] ++ " at " ++ e.position.text

namespace Token

def isIdentChar (c : Char) : Bool := Text.isAlphanumeric c || c = '_' || c = '-'

def isIdentStart (c : Char) : Bool := Text.isLetter c || c = '_'

/-- Characters that only separate tokens. -/
def isLayout (c : Char) : Bool := c = ' ' || c = '\t' || c = '\r' || c = '\uFEFF'

/-- The length of the fraction at the front of a text: a point and at least one digit. -/
def fractionLength : Text → Nat
  | '.' :: c :: rest =>
    if Text.isDigit c then 2 + (rest.takeWhile Text.isDigit).length else 0
  | _ => 0

/-- The length of the exponent at the front of a text; its sign is optional, its digits are not. -/
def exponentLength : Text → Nat
  | e :: rest =>
    if e = 'e' || e = 'E' then
      match rest with
      | s :: digits =>
        if s = '+' || s = '-' then
          let n := (digits.takeWhile Text.isDigit).length
          if n = 0 then 0 else 2 + n
        else
          let n := (rest.takeWhile Text.isDigit).length
          if n = 0 then 0 else 1 + n
      | [] => 0
    else 0
  | [] => 0

/-- The length of the number that goes on with `text` after its first digit. -/
def numberLength (text : Text) : Nat :=
  let whole := (text.takeWhile Text.isDigit).length
  let fraction := fractionLength (text.drop whole)
  whole + fraction + exponentLength (text.drop (whole + fraction))

/-- The length of the lines before and with the one that closes a heredoc, which holds the marker
and white space only. -/
def heredocLength? (marker : Text) : List Text → Option Nat
  | [] => none
  | line :: rest =>
    if Text.trim line = marker then some line.length
    else (heredocLength? marker rest).map (line.length + 1 + ·)

/-- The text after `<<` and an optional `-`, when a heredoc begins there. -/
def heredocStart? (rest : Text) : Option (Nat × Text) :=
  match rest with
  | '<' :: '-' :: c :: after => if isIdentStart c then some (2, c :: after) else none
  | '<' :: c :: after => if isIdentStart c then some (1, c :: after) else none
  | _ => none

/-- The length of a heredoc from its marker on. -/
def heredocBodyLength (text : Text) : Except LexFault Nat :=
  let marker := text.takeWhile isIdentChar
  let behind := text.drop marker.length
  let header := behind.takeWhile (· ≠ '\n')
  match behind.drop header.length with
  | [] => .error (.heredocMarker marker)
  | _ :: body =>
    if Text.allBlank header then
      match heredocLength? marker (Text.lines body) with
      | some n => .ok (marker.length + header.length + 1 + n)
      | none => .error (.unterminatedHeredoc marker)
    else .error (.heredocMarker marker)

/-- The kind of a punctuation mark of one character. -/
def markKind? : Char → Option Kind
  | '{' => some .lbrace
  | '}' => some .rbrace
  | '[' => some .lbrack
  | ']' => some .rbrack
  | '(' => some .lparen
  | ')' => some .rparen
  | ',' => some .comma
  | '?' => some .question
  | '.' => some .dot
  | ':' => some .colon
  | '=' => some .equal
  | _ => none

/-- The kind of a punctuation mark or operator and the number of characters after the first. -/
def symbol? (c : Char) (rest : Text) : Option (Kind × Nat) :=
  match c, rest with
  | '.', '.' :: '.' :: _ => some (.ellipsis, 2)
  | '=', '>' :: _ => some (.fatArrow, 1)
  | ':', ':' :: _ => some (.doubleColon, 1)
  | '=', '=' :: _ => some (.operator, 1)
  | '!', '=' :: _ => some (.operator, 1)
  | '<', '=' :: _ => some (.operator, 1)
  | '>', '=' :: _ => some (.operator, 1)
  | '&', '&' :: _ => some (.operator, 1)
  | '|', '|' :: _ => some (.operator, 1)
  | _, _ =>
    match markKind? c with
    | some kind => some (kind, 0)
    | none =>
      if ['+', '-', '*', '/', '%', '<', '>', '!'].contains c then some (.operator, 0) else none

/-- The length of a comment that runs to the end of the line. -/
def lineCommentLength (rest : Text) : Nat := (rest.takeWhile (· ≠ '\n')).length

/-- The kind of the token that begins with `c`, and how many characters after `c` belong to it. -/
def lexeme (offset : Nat) (c : Char) (rest : Text) : Except LexFault (Kind × Nat) :=
  if c = '\n' then .ok (.newline, 0)
  else if c = '#' || (c = '/' && rest.head? = some '/') then .ok (.comment, lineCommentLength rest)
  else if c = '/' && rest.head? = some '*' then
    match Text.cut? ['*', '/'] rest.tail with
    | some (inside, _) => .ok (.comment, inside.length + 3)
    | none => .error .unterminatedComment
  else if c = '"' then
    match Template.scanQuoted offset (c :: rest) with
    | .ok (parts, _) => .ok (.string, (parts.flatMap Template.Part.written).length + 1)
    | .error e => .error (.template e)
  else if Text.isDigit c then .ok (.number, numberLength rest)
  else if isIdentStart c then .ok (.ident, (rest.takeWhile isIdentChar).length)
  else
    match if c = '<' then heredocStart? rest else none with
    | some (introLength, text) => (heredocBodyLength text).map fun n => (.heredoc, introLength + n)
    | none =>
      match symbol? c rest with
      | some found => .ok found
      | none => .error (.unexpectedCharacter c)

/-- The tokens of a text that begins at `position`, and the position of its end. -/
def readAll (position : Position) (text : Text) : Except LexError TokenStream :=
  match text with
  | [] => .ok ⟨[], position⟩
  | c :: rest =>
    if isLayout c then readAll (position.step c) rest
    else
      match lexeme position.offset c rest with
      | .error fault => .error ⟨fault, position⟩
      | .ok (kind, n) =>
        let token : Token := ⟨kind, c :: rest.take n, position⟩
        match readAll (position.after token.text) (rest.drop n) with
        | .error e => .error e
        | .ok stream => .ok { stream with tokens := token :: stream.tokens }
termination_by text.length
decreasing_by all_goals simp; try omega

end Token

def TokenStream.ofText (text : Text) : Except LexError TokenStream :=
  Token.readAll Position.start text

end HclTidy
