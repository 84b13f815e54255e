import HclTidy.Template.Escape
import HclTidy.Token.Lexer

/-!
# Reading a token list

A cursor is what is left of a token list, comments removed. Inside brackets line breaks are layout
and are passed over; elsewhere they end an item. Every reading step returns a cursor together with
the proof that it has moved on, which is what bounds the grammar's recursion. The end of the text is
not in the list and is never read.
-/

set_option autoImplicit false

namespace HclTidy

/-- What a place in the grammar asks for. -/
inductive Wanted where
  | ofKind (kind : Token.Kind)
  | ofWord (text : Text)
deriving Repr, DecidableEq

/-- Why a token does not fit the grammar. -/
inductive GrammarFault where
  | expected (wanted : Wanted)
  | expectedNewline
  | expectedEnd
  | expectedExpression
  | expectedAttributeName
  | expectedKeySeparator
  | unclosedObject
  | unclosedBody
  | templateInLabel
  | labelCount (type : Text) (count actual : Nat)
deriving Repr, DecidableEq

inductive ParseError where
  | lexical (error : LexError)
  | grammar (fault : GrammarFault) (token : Token)
  /-- A label whose escape names no character and is beyond the range of code numbers. -/
  | escape (error : Escape.DecodeError)
deriving Repr, DecidableEq

/-- The kind and text of a token in messages. -/
def Token.description (t : Token) : String := t.kind.name ++ " (" ++ Text.quoted t.text ++ ")"

def Wanted.description : Wanted → String
  | .ofKind kind => kind.name
  | .ofWord text => Text.quoted text

def GrammarFault.message (token : Token) : GrammarFault → String
  | .expected what => "Expected " ++ what.description ++ ", got " ++ token.description
  | .expectedNewline => "Unexpected " ++ token.description ++ ", expected newline"
  | .expectedEnd => "Unexpected " ++ token.description ++ " after expression"
  | .expectedExpression => "Expected expression, got " ++ token.description
  | .expectedAttributeName => "Expected attribute name after '.'"
  | .expectedKeySeparator => "Expected '=' or ':' after object key, got " ++ token.kind.name
  | .unclosedObject => "Unexpected end of file inside object"
  | .unclosedBody => "Unexpected end of file inside block body"
  | .templateInLabel => "Block labels cannot contain template sequences"
  | .labelCount type count actual =>
    "Block '" ++ type.str ++ "' expects " ++ toString count ++ " label(s), got "
      ++ toString actual

def ParseError.message : ParseError → String
  | .lexical error => error.message
  | .grammar fault token => fault.message token ++ " at " ++ token.start.text
  | .escape .codeTooLarge => "escape sequence beyond the range of code numbers"

/-- What reading has passed that a reader may be told about. -/
inductive ParseEvent where
  /-- A quoted string or heredoc in an expression. -/
  | template (token : Token)
  | skippedAttribute (name : Text) (line : Nat)
  | unrecognisedBlock (type : Text)
deriving Repr, DecidableEq

/-- Why reading stopped, and what it had passed until then, latest first. -/
structure ParseFailure where
  error : ParseError
  events : List ParseEvent
deriving Repr, DecidableEq

/-- Whether line breaks end an item or are layout. -/
inductive LineMode where
  | significant | ignored
deriving Repr, DecidableEq

/-- The tokens left, the offset just past the last token read, and the events so far, latest
first. -/
structure Cursor where
  rest : List Token
  stop : Nat
  events : List ParseEvent
deriving Repr, DecidableEq

/-- The text that is read and the token that stands for its end. -/
structure Source where
  text : Text
  endToken : Token
deriving Repr, DecidableEq

/-- A value and a cursor that has moved on. -/
structure Step (α : Type) (c : Cursor) where
  value : α
  next : Cursor
  shorter : next.rest.length < c.rest.length
  suffix : next.rest <:+ c.rest

/-- A value and a cursor that may have moved on. -/
structure Tail (α : Type) (c : Cursor) where
  value : α
  next : Cursor
  suffix : next.rest <:+ c.rest

theorem Tail.notLonger {α : Type} {c : Cursor} (t : Tail α c) :
    t.next.rest.length ≤ c.rest.length := t.suffix.length_le

abbrev Reading (α : Type) := Except ParseFailure α

namespace Cursor

/-- The tokens as seen in a line mode. -/
def view (mode : LineMode) (c : Cursor) : List Token :=
  match mode with
  | .significant => c.rest
  | .ignored => c.rest.dropWhile (Token.isKind .newline)

theorem view_suffix (mode : LineMode) (c : Cursor) : c.view mode <:+ c.rest := by
  cases mode
  · exact List.suffix_refl _
  · exact List.dropWhile_suffix _

theorem view_length_le (mode : LineMode) (c : Cursor) : (c.view mode).length ≤ c.rest.length :=
  (c.view_suffix mode).length_le

/-- The next token, or the end of the text. -/
def peek (source : Source) (mode : LineMode) (c : Cursor) : Token :=
  (c.view mode).headD source.endToken

def fail {α : Type} (c : Cursor) (fault : GrammarFault) (token : Token) : Reading α :=
  .error ⟨.grammar fault token, c.events⟩

/-- The next token, when there is one. -/
def take? (mode : LineMode) (c : Cursor) : Option (Step Token c) :=
  match h : c.view mode with
  | [] => none
  | token :: rest => some {
      value := token
      next := { c with rest := rest, stop := token.stop }
      shorter := by have := c.view_length_le mode; rw [h] at this; exact this
      suffix := (List.suffix_cons token rest).trans (h ▸ c.view_suffix mode) }

/-- The next token, when it is one that is asked for. -/
def takeIf? (mode : LineMode) (wanted : Token → Bool) (c : Cursor) : Option (Step Token c) :=
  match c.take? mode with
  | some step => if wanted step.value then some step else none
  | none => none

def accept? (mode : LineMode) (kind : Token.Kind) (c : Cursor) : Option (Step Token c) :=
  c.takeIf? mode (Token.isKind kind)

def acceptWord? (mode : LineMode) (word : Text) (c : Cursor) : Option (Step Token c) :=
  c.takeIf? mode (Token.isWord .ident word)

def expect (source : Source) (mode : LineMode) (kind : Token.Kind) (c : Cursor) :
    Reading (Step Token c) :=
  match c.accept? mode kind with
  | some step => .ok step
  | none => c.fail (.expected (.ofKind kind)) (c.peek source mode)

def expectWord (source : Source) (mode : LineMode) (word : Text) (c : Cursor) :
    Reading (Step Token c) :=
  match c.acceptWord? mode word with
  | some step => .ok step
  | none => c.fail (.expected (.ofWord word)) (c.peek source mode)

/-- Passes over one token of a kind, when it comes next. -/
def skip (mode : LineMode) (kind : Token.Kind) (c : Cursor) : Tail Unit c :=
  match c.accept? mode kind with
  | some step => ⟨(), step.next, step.suffix⟩
  | none => ⟨(), c, List.suffix_refl _⟩

/-- Passes over line breaks. -/
def skipNewlines (c : Cursor) : Cursor := { c with rest := c.view .ignored }

theorem skipNewlines_length_le (c : Cursor) : c.skipNewlines.rest.length ≤ c.rest.length :=
  c.view_length_le .ignored

/-- Attributes and blocks end at a line break, at the end of the text or at a closing brace. -/
def endOfItem (source : Source) (c : Cursor) : Reading Unit :=
  let token := c.peek source .significant
  if token.kind = .newline || token.kind = .endOfText || token.kind = .rbrace then .ok ()
  else c.fail .expectedNewline token

/-- The cursor with one more event. -/
def record (event : ParseEvent) (c : Cursor) : Cursor := { c with events := event :: c.events }

/-- The source from an offset up to the last token read. -/
def sourceFrom (source : Source) (start : Nat) (c : Cursor) : Text :=
  source.text.slice start c.stop

end Cursor

/-- Where reading begins: all tokens of a text but its comments. -/
def Cursor.ofTokens (tokens : List Token) : Cursor :=
  ⟨tokens.filter fun t => t.kind ≠ .comment, 0, []⟩

end HclTidy
