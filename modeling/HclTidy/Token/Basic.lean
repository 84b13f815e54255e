import HclTidy.Text.Basic

/-!
# Tokens

A token is a piece of the source with its kind and the position of its first character. Quoted
strings and heredocs are single tokens that cover their whole source, quotes and markers included.
-/

set_option autoImplicit false

namespace HclTidy

/-- Where a character stands: its offset from 0, its line and column from 1. -/
structure Position where
  offset : Nat
  line : Nat
  column : Nat
deriving Repr, DecidableEq

namespace Position

def start : Position := ⟨0, 1, 1⟩

/-- The position after one character. -/
def step (p : Position) (c : Char) : Position :=
  if c = '\n' then ⟨p.offset + 1, p.line + 1, 1⟩ else ⟨p.offset + 1, p.line, p.column + 1⟩

/-- The position after a text. -/
def after (p : Position) (t : Text) : Position := t.foldl step p

@[simp] theorem after_nil (p : Position) : p.after [] = p := rfl

@[simp] theorem after_cons (p : Position) (c : Char) (t : Text) :
    p.after (c :: t) = (p.step c).after t := rfl

theorem after_append (p : Position) (s t : Text) : p.after (s ++ t) = (p.after s).after t := by
  simp [after]

theorem step_offset (p : Position) (c : Char) : (p.step c).offset = p.offset + 1 := by
  unfold step; split <;> rfl

theorem after_offset (p : Position) (t : Text) : (p.after t).offset = p.offset + t.length := by
  induction t generalizing p with
  | nil => rfl
  | cons c rest ih => simp [ih, step_offset]; omega

end Position

inductive Token.Kind where
  | ident | number | string | heredoc
  | lbrace | rbrace | lbrack | rbrack | lparen | rparen
  | equal | comma | dot | colon | doubleColon | question | ellipsis | fatArrow
  | operator | comment | newline | endOfText
deriving Repr, DecidableEq

/-- The name of a kind in messages. -/
def Token.Kind.name : Token.Kind → String
  | .ident => "IDENT"
  | .number => "NUMBER"
  | .string => "STRING"
  | .heredoc => "HEREDOC"
  | .lbrace => "LBRACE"
  | .rbrace => "RBRACE"
  | .lbrack => "LBRACK"
  | .rbrack => "RBRACK"
  | .lparen => "LPAREN"
  | .rparen => "RPAREN"
  | .equal => "EQUAL"
  | .comma => "COMMA"
  | .dot => "DOT"
  | .colon => "COLON"
  | .doubleColon => "DCOLON"
  | .question => "QUESTION"
  | .ellipsis => "ELLIPSIS"
  | .fatArrow => "FATARROW"
  | .operator => "OP"
  | .comment => "COMMENT"
  | .newline => "NEWLINE"
  | .endOfText => "EOF"

structure Token where
  kind : Token.Kind
  text : Text
  start : Position
deriving Repr, DecidableEq

namespace Token

/-- The offset just past the token. -/
def stop (t : Token) : Nat := t.start.offset + t.text.length

def isKind (kind : Kind) (t : Token) : Bool := t.kind = kind

/-- A token with a given kind and text, such as a keyword or an operator. -/
def isWord (kind : Kind) (word : Text) (t : Token) : Bool := t.kind = kind && t.text = word

def opens (t : Token) : Bool :=
  t.kind = .lbrace || t.kind = .lbrack || t.kind = .lparen

def closes (t : Token) : Bool :=
  t.kind = .rbrace || t.kind = .rbrack || t.kind = .rparen

/-- The number of line feeds inside the token. -/
def lineFeeds (t : Token) : Nat := t.text.count '\n'

end Token

/-- The tokens of a text and the position of its end. -/
structure TokenStream where
  tokens : List Token
  ending : Position
deriving Repr, DecidableEq

namespace TokenStream

/-- The token that stands for the end of the text. -/
def endToken (s : TokenStream) : Token := ⟨.endOfText, [], s.ending⟩

/-- All tokens, the end of the text included. -/
def toList (s : TokenStream) : List Token := s.tokens ++ [s.endToken]

end TokenStream

end HclTidy
