import HclTidy.Block.Parser

/-!
# Reading by index

The grammar as it is read off a list of tokens that ends in the token for the end of the text: the
reader keeps an index, looks ahead from it and passes over line breaks as it looks, and keeps a stack
that tells how line breaks are to be taken. An index outside the list, the end of the text eaten, a mode
taken off an empty stack, and a round of a loop or an expression that has eaten nothing each halt it in
a way of their own. Its calls and loops have no measure: a run is given the depth to which they may be
nested, and one that needs more has not come to its end.
-/

set_option autoImplicit false

namespace HclTidy.Indexed

/-- The next index, the offset just past the last token eaten, how line breaks are taken, innermost
first, the number of tokens eaten, and the events so far, latest first. -/
structure State where
  position : Nat
  stop : Nat
  modes : List LineMode
  eaten : Nat
  events : List ParseEvent
deriving Repr, DecidableEq

namespace State

def start : State := ⟨0, 0, [], 0, []⟩

/-- Line breaks count where nothing has been said about them. -/
def mode (s : State) : LineMode := s.modes.head?.getD .significant

end State

/-- What stops a reader before it is done. -/
inductive Halt where
  /-- The tokens do not fit the grammar. -/
  | refused (failure : ParseFailure)
  /-- An index outside the list. -/
  | outside
  | endEaten
  | noMode
  /-- A round of a loop, or an expression, without a token eaten. -/
  | stalled
deriving Repr, DecidableEq

/-- A run of a reader; `none` is a run that has not come to its end. -/
abbrev Run := StateT State (ExceptT Halt Option)

def unfinished {α : Type} : Run α := fun _ => (none : Option (Except Halt (α × State)))

/-- The text that is read, and its tokens without the comments. -/
structure Input where
  text : Text
  tokens : List Token

def Input.ofStream (text : Text) (stream : TokenStream) : Input :=
  ⟨text, stream.toList.filter fun t => t.kind ≠ .comment⟩

/-- The token is what is wanted. -/
def fits : Wanted → Token → Bool
  | .ofKind kind => Token.isKind kind
  | .ofWord word => Token.isWord .ident word

/-! ## Single tokens -/

section Tokens

variable (input : Input)

def tokenAt (i : Nat) : Run Token :=
  match input.tokens[i]? with
  | some token => pure token
  | none => throw .outside

/-- The first index from `i` on that is no line break. The list bounds the search. -/
def skipFrom (i : Nat) : Run Nat :=
  match h : input.tokens[i]? with
  | none => throw .outside
  | some token => if token.kind = .newline then skipFrom (i + 1) else pure i
termination_by input.tokens.length - i
decreasing_by have := (List.getElem?_eq_some_iff.mp h).1; omega

/-- The index itself where line breaks count. -/
def settle (mode : LineMode) (i : Nat) : Run Nat :=
  match mode with
  | .significant => pure i
  | .ignored => skipFrom input i

/-- The token `offset` tokens behind index `i`, or the end of the text. -/
def lookAhead (mode : LineMode) (i : Nat) : Nat → Run Token
  | 0 => tokenAt input i
  | offset + 1 => do
    let token ← tokenAt input i
    if token.kind = .endOfText then pure token
    else do
      let next ← settle input mode (i + 1)
      lookAhead mode next offset

/-- Looks ahead. Line breaks in front of the next token are passed over where they are layout. -/
def peek (offset : Nat) : Run Token := do
  let s ← get
  let position ← settle input s.mode s.position
  set { s with position := position }
  lookAhead input s.mode position offset

def refuse {α : Type} (fault : GrammarFault) (token : Token) : Run α := do
  let s ← get
  throw (.refused ⟨.grammar fault token, s.events⟩)

def advance (token : Token) : Run Unit :=
  modify fun s => { s with position := s.position + 1, stop := token.stop, eaten := s.eaten + 1 }

/-- Eats a token that must be there. -/
def eat (wanted : Wanted) : Run Token := do
  let token ← peek input 0
  if fits wanted token then
    if token.kind = .endOfText then throw .endEaten
    else do
      advance token
      pure token
  else refuse (.expected wanted) token

/-- Eats a token if it is there. -/
def maybeEat (wanted : Wanted) : Run (Option Token) := do
  let token ← peek input 0
  if fits wanted token then do
    let eaten ← eat input wanted
    pure (some eaten)
  else pure none

def skipNewlines : Nat → Run Unit
  | 0 => unfinished
  | depth + 1 => do
    let token ← peek input 0
    if token.kind = .newline then do
      modify fun s => { s with position := s.position + 1 }
      skipNewlines depth
    else pure ()

def endOfItem : Run Unit := do
  let token ← peek input 0
  if token.kind = .newline || token.kind = .endOfText || token.kind = .rbrace then pure ()
  else refuse .expectedNewline token

def sourceFrom (start : Nat) : Run Text := do
  let s ← get
  pure (input.text.slice start s.stop)

end Tokens

def push (mode : LineMode) : Run Unit := modify fun s => { s with modes := mode :: s.modes }

def pop : Run Unit := do
  let s ← get
  match s.modes with
  | [] => throw .noMode
  | _ :: outer => set { s with modes := outer }

def record (event : ParseEvent) : Run Unit :=
  modify fun s => { s with events := event :: s.events }

/-- The number of tokens eaten so far. -/
def eaten : Run Nat := do
  let s ← get
  pure s.eaten

/-- More tokens have been eaten than `before`. -/
def moved (before : Nat) : Run Unit := do
  let s ← get
  if s.eaten ≤ before then throw .stalled else pure ()

/-- Runs a reader from a start of its own. A refusal is passed over. -/
def aside {α : Type} (x : Run α) : Run Unit := fun s =>
  match (x .start : Option (Except Halt (α × State))) with
  | some (.ok _) | some (.error (.refused _)) => some (.ok ((), s))
  | some (.error halt) => some (.error halt)
  | none => none

/-! ## Expressions -/

/-- The rest of a function name after its first part. -/
def nameParts (input : Input) : Nat → Run (List Text)
  | 0 => unfinished
  | depth + 1 => do
    let before ← eaten
    match ← maybeEat input (.ofKind .doubleColon) with
    | none => pure []
    | some _ => do
      let part ← eat input (.ofKind .ident)
      moved before
      let more ← nameParts input depth
      pure (part.text :: more)
termination_by structural depth => depth

/-- A `for` with a variable behind it. -/
def atFor (input : Input) : Run Bool := do
  let token ← peek input 0
  if token.isWord .ident "for".toList then do
    let next ← peek input 1
    pure (next.kind = .ident)
  else pure false

def secondName (input : Input) : Run Unit := do
  match ← maybeEat input (.ofKind .comma) with
  | none => pure ()
  | some _ => do
    let _ ← eat input (.ofKind .ident)
    pure ()

/-- The `=` or `:` behind the key of an object. -/
def separator (input : Input) : Run Unit := do
  match ← maybeEat input (.ofKind .equal) with
  | some _ => pure ()
  | none => do
    match ← maybeEat input (.ofKind .colon) with
    | some _ => pure ()
    | none => do
      let token ← peek input 0
      refuse .expectedKeySeparator token

/-- The binding strength of a token as a binary operator. -/
def strength? (token : Token) : Option Nat :=
  if token.kind = .operator then Expr.precedence? token.text else none

mutual

def expression (input : Input) : Nat → Run Expr
  | 0 => unfinished
  | depth + 1 => do
    let before ← eaten
    let first ← peek input 0
    let condition ← binary input 1 depth
    match ← maybeEat input (.ofKind .question) with
    | none => do
      moved before
      pure condition
    | some _ => do
      let _ ← expression input depth
      let _ ← eat input (.ofKind .colon)
      let _ ← expression input depth
      moved before
      let text ← sourceFrom input first.start.offset
      pure (.unknown text)
termination_by structural depth => depth

def binary (input : Input) (least : Nat) : Nat → Run Expr
  | 0 => unfinished
  | depth + 1 => do
    let first ← peek input 0
    let left ← unary input depth
    operations input least first.start.offset left depth
termination_by structural depth => depth

def operations (input : Input) (least start : Nat) (left : Expr) : Nat → Run Expr
  | 0 => unfinished
  | depth + 1 => do
    let before ← eaten
    let token ← peek input 0
    match strength? token with
    | none => pure left
    | some strength =>
      if strength < least then pure left
      else do
        let _ ← eat input (.ofKind .operator)
        let _ ← binary input (strength + 1) depth
        moved before
        let text ← sourceFrom input start
        operations input least start (.unknown text) depth
termination_by structural depth => depth

def unary (input : Input) : Nat → Run Expr
  | 0 => unfinished
  | depth + 1 => do
    let token ← peek input 0
    if token.isWord .operator ['-'] || token.isWord .operator ['!'] then do
      let _ ← eat input (.ofKind .operator)
      let operand ← unary input depth
      let text ← sourceFrom input token.start.offset
      pure (if token.text = ['-'] && operand.isNumber then .literal text else .unknown text)
    else primaryWithSteps input depth
termination_by structural depth => depth

def primaryWithSteps (input : Input) : Nat → Run Expr
  | 0 => unfinished
  | depth + 1 => do
    let first ← peek input 0
    let value ← primary input depth
    steps input first.start.offset value depth
termination_by structural depth => depth

def steps (input : Input) (start : Nat) (value : Expr) : Nat → Run Expr
  | 0 => unfinished
  | depth + 1 => do
    let before ← eaten
    let token ← peek input 0
    match ← step input token depth with
    | none => pure value
    | some static => do
      moved before
      let text ← sourceFrom input start
      steps input start (value.withStep static text) depth
termination_by structural depth => depth

/-- The attribute or index step that `token` begins, if it begins one. -/
def step (input : Input) (token : Token) : Nat → Run (Option Bool)
  | 0 => unfinished
  | depth + 1 =>
    if token.kind = .dot then do
      let _ ← eat input (.ofKind .dot)
      let name ← peek input 0
      if name.kind = .ident || name.kind = .number then do
        let _ ← eat input (.ofKind name.kind)
        pure (some true)
      else if name.isWord .operator ['*'] then do
        let _ ← eat input (.ofKind .operator)
        pure (some false)
      else refuse .expectedAttributeName name
    else if token.kind = .lbrack then do
      let _ ← eat input (.ofKind .lbrack)
      push .ignored
      let static ← index input depth
      pop
      let _ ← eat input (.ofKind .rbrack)
      pure (some static)
    else pure none
termination_by structural depth => depth

/-- The inside of an index step. -/
def index (input : Input) : Nat → Run Bool
  | 0 => unfinished
  | depth + 1 => do
    let token ← peek input 0
    if token.isWord .operator ['*'] then do
      let _ ← eat input (.ofKind .operator)
      pure false
    else do
      let key ← expression input depth
      pure key.isStaticIndex
termination_by structural depth => depth

def primary (input : Input) : Nat → Run Expr
  | 0 => unfinished
  | depth + 1 => do
    let token ← peek input 0
    match token.kind with
    | .number => do
      let _ ← eat input (.ofKind .number)
      pure (.literal token.text)
    | .string => do
      let _ ← eat input (.ofKind .string)
      template token false (Template.partsOf true token.text) depth
    | .heredoc => do
      let _ ← eat input (.ofKind .heredoc)
      template token true (Template.partsOf false (heredocBody token.text)) depth
    | .ident => word input token depth
    | .lbrack => tuple input depth
    | .lbrace => object input depth
    | .lparen => do
      let _ ← eat input (.ofKind .lparen)
      push .ignored
      let inner ← expression input depth
      pop
      let _ ← eat input (.ofKind .rparen)
      match inner with
      | .traversal _ root => do
        let text ← sourceFrom input token.start.offset
        pure (.traversal text root)
      | inner => pure inner
    | _ => refuse .expectedExpression token
termination_by structural depth => depth

/-- A name: a keyword, the name of a function that is called, or a traversal. -/
def word (input : Input) (token : Token) : Nat → Run Expr
  | 0 => unfinished
  | depth + 1 =>
    if Expr.isKeyword token then do
      let _ ← eat input (.ofKind .ident)
      pure (.literal token.text)
    else do
      let next ← peek input 1
      if (next.kind = .lparen || next.kind = .doubleColon) && next.start.line = token.start.line then
        call input depth
      else do
        let _ ← eat input (.ofKind .ident)
        pure (.traversal token.text token.text)
termination_by structural depth => depth

/-- A template, whose interpolations are read as well. -/
def template (token : Token) (heredoc : Bool) (parts : List Template.Part) : Nat → Run Expr
  | 0 => unfinished
  | depth + 1 => do
    record (.template token)
    interpolations parts depth
    pure (.template token.text heredoc parts)
termination_by structural depth => depth

/-- Reads the interpolations among parts, each as a text of its own. One that is no expression is
passed over. -/
def interpolations (parts : List Template.Part) : Nat → Run Unit
  | 0 => unfinished
  | depth + 1 =>
    match parts with
    | [] => pure ()
    | .literal _ :: rest | .interpolation true _ :: rest => interpolations rest depth
    | .interpolation false inner :: rest =>
      match TokenStream.ofText (Template.stripMarkers inner) with
      | .error _ => interpolations rest depth
      | .ok stream => do
        aside (standalone (.ofStream (Template.stripMarkers inner) stream) depth)
        interpolations rest depth
termination_by structural depth => depth

/-- All tokens as one expression. -/
def standalone (input : Input) : Nat → Run Expr
  | 0 => unfinished
  | depth + 1 => do
    push .ignored
    let value ← expression input depth
    let token ← peek input 0
    if token.kind = .endOfText then do
      pop
      pure value
    else refuse .expectedEnd token
termination_by structural depth => depth

def call (input : Input) : Nat → Run Expr
  | 0 => unfinished
  | depth + 1 => do
    let first ← peek input 0
    let name ← eat input (.ofKind .ident)
    let more ← nameParts input depth
    let _ ← eat input (.ofKind .lparen)
    push .ignored
    let args ← arguments input depth
    pop
    let _ ← eat input (.ofKind .rparen)
    let text ← sourceFrom input first.start.offset
    pure (.call text (Text.joinWith [':', ':'] (name.text :: more)) args)
termination_by structural depth => depth

def arguments (input : Input) : Nat → Run (List Expr)
  | 0 => unfinished
  | depth + 1 => do
    let before ← eaten
    let token ← peek input 0
    if token.kind = .rparen then pure []
    else do
      let first ← expression input depth
      let _ ← maybeEat input (.ofKind .ellipsis)
      moved before
      match ← maybeEat input (.ofKind .comma) with
      | none => pure [first]
      | some _ => do
        let more ← arguments input depth
        pure (first :: more)
termination_by structural depth => depth

def tuple (input : Input) : Nat → Run Expr
  | 0 => unfinished
  | depth + 1 => do
    let first ← eat input (.ofKind .lbrack)
    push .ignored
    if ← atFor input then forExpression input first.start.offset .rbrack depth
    else do
      let values ← items input depth
      pop
      let _ ← eat input (.ofKind .rbrack)
      let text ← sourceFrom input first.start.offset
      pure (.tuple text values)
termination_by structural depth => depth

def items (input : Input) : Nat → Run (List Expr)
  | 0 => unfinished
  | depth + 1 => do
    let before ← eaten
    let token ← peek input 0
    if token.kind = .rbrack then pure []
    else do
      let first ← expression input depth
      moved before
      match ← maybeEat input (.ofKind .comma) with
      | none => pure [first]
      | some _ => do
        let more ← items input depth
        pure (first :: more)
termination_by structural depth => depth

def object (input : Input) : Nat → Run Expr
  | 0 => unfinished
  | depth + 1 => do
    let first ← eat input (.ofKind .lbrace)
    push .ignored
    if ← atFor input then forExpression input first.start.offset .rbrace depth
    else do
      let entries ← pairs input depth
      pop
      let _ ← eat input (.ofKind .rbrace)
      let text ← sourceFrom input first.start.offset
      pure (.object text entries)
termination_by structural depth => depth

def pairs (input : Input) : Nat → Run (List (Expr × Expr))
  | 0 => unfinished
  | depth + 1 => do
    let before ← eaten
    let token ← peek input 0
    if token.kind = .rbrace then pure []
    else if token.kind = .endOfText then refuse .unclosedObject token
    else do
      let key ← expression input depth
      separator input
      let value ← expression input depth
      let _ ← maybeEat input (.ofKind .comma)
      moved before
      let more ← pairs input depth
      pure ((key, value) :: more)
termination_by structural depth => depth

/-- A `for` expression from its keyword on. The mode that is taken off in front of the closing
bracket is the one that the caller has put on. -/
def forExpression (input : Input) (start : Nat) (closing : Token.Kind) : Nat → Run Expr
  | 0 => unfinished
  | depth + 1 => do
    let _ ← eat input (.ofWord "for".toList)
    let _ ← eat input (.ofKind .ident)
    secondName input
    let _ ← eat input (.ofWord "in".toList)
    let _ ← expression input depth
    let _ ← eat input (.ofKind .colon)
    let _ ← expression input depth
    forValue input closing depth
    forFilter input depth
    pop
    let _ ← eat input (.ofKind closing)
    let text ← sourceFrom input start
    pure (.unknown text)
termination_by structural depth => depth

def forValue (input : Input) (closing : Token.Kind) : Nat → Run Unit
  | 0 => unfinished
  | depth + 1 =>
    if closing = .rbrace then do
      let _ ← eat input (.ofKind .fatArrow)
      let _ ← expression input depth
      let _ ← maybeEat input (.ofKind .ellipsis)
      pure ()
    else pure ()
termination_by structural depth => depth

def forFilter (input : Input) : Nat → Run Unit
  | 0 => unfinished
  | depth + 1 => do
    match ← maybeEat input (.ofWord "if".toList) with
    | none => pure ()
    | some _ => do
      let _ ← expression input depth
      pure ()
termination_by structural depth => depth

end

/-! ## Bodies -/

/-- The text of a label. -/
def label (input : Input) (token : Token) : Run Text := do
  let _ ← eat input (.ofKind token.kind)
  let s ← get
  match Body.labelText ⟨[], s.stop, s.events⟩ token with
  | .ok text => pure text
  | .error failure => throw (.refused failure)

def labels (input : Input) : Nat → Run (List Text)
  | 0 => unfinished
  | depth + 1 => do
    let before ← eaten
    let token ← peek input 0
    if token.kind = .string || token.kind = .ident then do
      let first ← label input token
      moved before
      let more ← labels input depth
      pure (first :: more)
    else pure []
termination_by structural depth => depth

mutual

def body (input : Input) : Nat → Run Body
  | 0 => unfinished
  | depth + 1 => do
    push .significant
    skipNewlines input depth
    let value ← bodyItems input depth
    pop
    pure value
termination_by structural depth => depth

def bodyItems (input : Input) : Nat → Run Body
  | 0 => unfinished
  | depth + 1 => do
    let before ← eaten
    let next ← peek input 0
    if next.kind = .rbrace then pure .empty
    else if next.kind = .endOfText then refuse .unclosedBody next
    else do
      let name ← eat input (.ofKind .ident)
      match ← maybeEat input (.ofKind .equal) with
      | some _ => do
        let value ← expression input depth
        endOfItem input
        skipNewlines input depth
        moved before
        let more ← bodyItems input depth
        pure (more.addAttribute ⟨name.text, value⟩)
      | none => do
        let names ← labels input depth
        let _ ← eat input (.ofKind .lbrace)
        let inner ← body input depth
        let _ ← eat input (.ofKind .rbrace)
        endOfItem input
        skipNewlines input depth
        moved before
        let more ← bodyItems input depth
        pure (more.addBlock ⟨name.text, names, inner.attributes, inner.blocks⟩)
termination_by structural depth => depth

end

/-! ## Files -/

def checkLabels (name : Token) (labels : List Text) : Run Unit :=
  match Block.labelCounts.lookup name.text with
  | none => record (.unrecognisedBlock name.text)
  | some count =>
    if labels.length = count then pure ()
    else refuse (.labelCount name.text count labels.length) name

def blocks (input : Input) (file : Text) (keepSource : Bool) (previousEnd : Nat) : Nat → Run (List Block)
  | 0 => unfinished
  | depth + 1 => do
    let before ← eaten
    let next ← peek input 0
    if next.kind = .endOfText then pure []
    else do
      let name ← eat input (.ofKind .ident)
      match ← maybeEat input (.ofKind .equal) with
      | some _ => do
        let _ ← expression input depth
        endOfItem input
        record (.skippedAttribute name.text name.start.line)
        skipNewlines input depth
        moved before
        blocks input file keepSource previousEnd depth
      | none => do
        let names ← labels input depth
        checkLabels name names
        let opening ← eat input (.ofKind .lbrace)
        let value ← body input depth
        let closing ← eat input (.ofKind .rbrace)
        endOfItem input
        skipNewlines input depth
        moved before
        let more ← blocks input file keepSource closing.stop depth
        pure ({ type := name.text
                labels := names
                body := value
                rawBody :=
                  if keepSource then
                    Block.rawBodyAt input.text opening.stop closing.start.offset
                  else []
                leadingComments :=
                  if keepSource then
                    Block.leadingCommentsAt input.text name.start.offset previousEnd
                  else []
                file := file } :: more)
termination_by structural depth => depth

/-- The blocks of a file. -/
def file (input : Input) (name : Text) (keepSource : Bool) (depth : Nat) : Run (List Block) := do
  skipNewlines input depth
  blocks input name keepSource 0 depth

end HclTidy.Indexed
