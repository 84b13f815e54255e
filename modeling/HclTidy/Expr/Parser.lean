import HclTidy.Expr.Basic
import HclTidy.Token.Cursor

/-!
# Reading expressions

Recursive descent over a cursor. Binary operators climb by precedence; brackets of every kind make
line breaks insignificant up to the matching bracket. Each function that reads an expression moves
the cursor on, so the number of tokens left bounds the recursion.
-/

set_option autoImplicit false

namespace HclTidy.Expr

/-- The binding strength of a binary operator. -/
def precedence? (operator : Text) : Option Nat :=
  if operator = ['|', '|'] then some 1
  else if operator = ['&', '&'] then some 2
  else if operator = ['=', '='] || operator = ['!', '='] then some 3
  else if operator = ['<'] || operator = ['>'] || operator = ['<', '='] || operator = ['>', '='] then
    some 4
  else if operator = ['+'] || operator = ['-'] then some 5
  else if operator = ['*'] || operator = ['/'] || operator = ['%'] then some 6
  else none

/-- The next token, when it is a binary operator that binds at least as strongly as `least`. -/
def operator? (mode : LineMode) (least : Nat) (c : Cursor) : Option (Nat × Step Token c) :=
  match c.accept? mode .operator with
  | none => none
  | some step =>
    match precedence? step.value.text with
    | none => none
    | some strength => if strength < least then none else some (strength, step)

/-- The next token, when it is a sign. -/
def sign? (mode : LineMode) (c : Cursor) : Option (Step Token c) :=
  c.takeIf? mode fun t => t.isWord .operator ['-'] || t.isWord .operator ['!']

def isKeyword (t : Token) : Bool :=
  t.text = "true".toList || t.text = "false".toList || t.text = "null".toList

/-- The rest of a function name after its first part. -/
def nameTail (source : Source) (mode : LineMode) (c : Cursor) : Reading (Tail (List Text) c) :=
  match c.accept? mode .doubleColon with
  | none => .ok ⟨[], c, List.suffix_refl _⟩
  | some colons => do
    let part ← colons.next.expect source mode .ident
    let more ← nameTail source mode part.next
    .ok ⟨part.value.text :: more.value, more.next, more.suffix.trans (part.suffix.trans colons.suffix)⟩
termination_by c.rest.length
decreasing_by have := colons.shorter; have := part.shorter; omega

/-- A parenthesis or `::` right behind an identifier, on its line, makes it a function name. -/
def callFollows (source : Source) (mode : LineMode) (name : Token) (c : Cursor) : Bool :=
  let next := c.peek source mode
  (next.kind = .lparen || next.kind = .doubleColon) && next.start.line = name.start.line

/-- A `for` with a variable behind it, at the front of a tuple or object. -/
def atFor (source : Source) (c : Cursor) : Bool :=
  match c.acceptWord? .ignored "for".toList with
  | some step => (step.next.peek source .ignored).kind = .ident
  | none => false

/-- An expression with one more step behind it. -/
def withStep (before : Expr) (static : Bool) (text : Text) : Expr :=
  match before with
  | .traversal _ root => if static then .traversal text root else .unknown text
  | _ => .unknown text

/-- The second variable of a `for` expression. -/
def secondName (source : Source) (c : Cursor) : Reading (Tail Unit c) :=
  match c.accept? .ignored .comma with
  | none => .ok ⟨(), c, List.suffix_refl _⟩
  | some comma => do
    have := comma.shorter
    let name ← comma.next.expect source .ignored .ident
    have := name.shorter
    .ok ⟨(), name.next, name.suffix.trans comma.suffix⟩

mutual

def read (source : Source) (mode : LineMode) (c : Cursor) : Reading (Step Expr c) := do
  let start := (c.peek source mode).start.offset
  let condition ← readBinary source mode 1 c
  have := condition.shorter
  match condition.next.accept? mode .question with
  | none => .ok condition
  | some question => do
    have := question.shorter
    let yes ← read source mode question.next
    have := yes.shorter
    let colon ← yes.next.expect source mode .colon
    have := colon.shorter
    let no ← read source mode colon.next
    have := no.shorter
    .ok ⟨.unknown (no.next.sourceFrom source start), no.next, by omega,
      no.suffix.trans (colon.suffix.trans (yes.suffix.trans (question.suffix.trans condition.suffix)))⟩
termination_by 16 * c.rest.length + 5

def readBinary (source : Source) (mode : LineMode) (least : Nat) (c : Cursor) :
    Reading (Step Expr c) := do
  let start := (c.peek source mode).start.offset
  let left ← readUnary source mode c
  have := left.shorter
  let all ← readOperations source mode least start left.value left.next
  have := all.notLonger
  .ok ⟨all.value, all.next, by omega, all.suffix.trans left.suffix⟩
termination_by 16 * c.rest.length + 4

/-- The operations that follow a first operand, from left to right. -/
def readOperations (source : Source) (mode : LineMode) (least start : Nat) (left : Expr)
    (c : Cursor) : Reading (Tail Expr c) :=
  match operator? mode least c with
  | none => .ok ⟨left, c, List.suffix_refl _⟩
  | some (strength, operator) => do
    have := operator.shorter
    let right ← readBinary source mode (strength + 1) operator.next
    have := right.shorter
    let all ← readOperations source mode least start
      (.unknown (right.next.sourceFrom source start)) right.next
    .ok ⟨all.value, all.next, all.suffix.trans (right.suffix.trans operator.suffix)⟩
termination_by 16 * c.rest.length

def readUnary (source : Source) (mode : LineMode) (c : Cursor) : Reading (Step Expr c) :=
  match sign? mode c with
  | none => readPostfix source mode c
  | some sign => do
    have := sign.shorter
    let operand ← readUnary source mode sign.next
    have := operand.shorter
    let text := operand.next.sourceFrom source sign.value.start.offset
    let value :=
      if sign.value.text = ['-'] && operand.value.isNumber then .literal text else .unknown text
    .ok ⟨value, operand.next, by omega, operand.suffix.trans sign.suffix⟩
termination_by 16 * c.rest.length + 3

def readPostfix (source : Source) (mode : LineMode) (c : Cursor) : Reading (Step Expr c) := do
  let start := (c.peek source mode).start.offset
  let first ← readPrimary source mode c
  have := first.shorter
  let all ← readSteps source mode start first.value first.next
  have := all.notLonger
  .ok ⟨all.value, all.next, by omega, all.suffix.trans first.suffix⟩
termination_by 16 * c.rest.length + 2

/-- The attribute and index steps that follow a primary expression. -/
def readSteps (source : Source) (mode : LineMode) (start : Nat) (before : Expr) (c : Cursor) :
    Reading (Tail Expr c) :=
  match c.take? mode with
  | none => .ok ⟨before, c, List.suffix_refl _⟩
  | some first => do
    have := first.shorter
    let step ← readStep source mode first.value first.next
    match step with
    | none => .ok ⟨before, c, List.suffix_refl _⟩
    | some step => do
      have := step.shorter
      let text := step.next.sourceFrom source start
      let all ← readSteps source mode start (before.withStep step.value text) step.next
      .ok ⟨all.value, all.next, all.suffix.trans (step.suffix.trans first.suffix)⟩
termination_by 16 * c.rest.length

/-- The attribute or index step that `first` begins, if it begins one, and whether it leaves a
traversal a traversal. -/
def readStep (source : Source) (mode : LineMode) (first : Token) (c : Cursor) :
    Reading (Option (Step Bool c)) :=
  if first.kind = .dot then
    match c.take? mode with
    | none => c.fail .expectedAttributeName source.endToken
    | some name =>
      if name.value.kind = .ident || name.value.kind = .number then
        .ok (some ⟨true, name.next, name.shorter, name.suffix⟩)
      else if name.value.isWord .operator ['*'] then
        .ok (some ⟨false, name.next, name.shorter, name.suffix⟩)
      else c.fail .expectedAttributeName name.value
  else if first.kind = .lbrack then
    match c.takeIf? .ignored (Token.isWord .operator ['*']) with
    | some splat => do
      have := splat.shorter
      let close ← splat.next.expect source mode .rbrack
      have := close.shorter
      .ok (some ⟨false, close.next, by omega, close.suffix.trans splat.suffix⟩)
    | none => do
      let key ← read source .ignored c
      have := key.shorter
      let close ← key.next.expect source .ignored .rbrack
      have := close.shorter
      .ok (some ⟨key.value.isStaticIndex, close.next, by omega, close.suffix.trans key.suffix⟩)
  else .ok none
termination_by 16 * c.rest.length + 6

def readPrimary (source : Source) (mode : LineMode) (c : Cursor) : Reading (Step Expr c) :=
  match c.take? mode with
  | none => c.fail .expectedExpression source.endToken
  | some first => do
    have := first.shorter
    let token := first.value
    match token.kind with
    | .number => .ok ⟨.literal token.text, first.next, first.shorter, first.suffix⟩
    | .string =>
      .ok ⟨.template token.text false (Template.partsOf true token.text),
        first.next.record (.template token), first.shorter, first.suffix⟩
    | .heredoc =>
      .ok ⟨.template token.text true (Template.partsOf false (heredocBody token.text)),
        first.next.record (.template token), first.shorter, first.suffix⟩
    | .ident =>
      if isKeyword token then .ok ⟨.literal token.text, first.next, first.shorter, first.suffix⟩
      else if callFollows source mode token first.next then do
        let names ← nameTail source mode first.next
        have := names.notLonger
        let paren ← names.next.expect source mode .lparen
        have := paren.shorter
        let args ← readArguments source paren.next
        have := args.notLonger
        let close ← args.next.expect source .ignored .rparen
        have := close.shorter
        .ok ⟨.call (close.next.sourceFrom source token.start.offset)
            (Text.joinWith [':', ':'] (token.text :: names.value)) args.value,
          close.next, by omega,
          close.suffix.trans (args.suffix.trans (paren.suffix.trans (names.suffix.trans first.suffix)))⟩
      else .ok ⟨.traversal token.text token.text, first.next, first.shorter, first.suffix⟩
    | .lbrack => do
      if atFor source first.next then
        let all ← readFor source token.start.offset .rbrack first.next
        have := all.shorter
        .ok ⟨all.value, all.next, by omega, all.suffix.trans first.suffix⟩
      else
        let items ← readItems source first.next
        have := items.notLonger
        let close ← items.next.expect source .ignored .rbrack
        have := close.shorter
        .ok ⟨.tuple (close.next.sourceFrom source token.start.offset) items.value, close.next,
          by omega, close.suffix.trans (items.suffix.trans first.suffix)⟩
    | .lbrace => do
      if atFor source first.next then
        let all ← readFor source token.start.offset .rbrace first.next
        have := all.shorter
        .ok ⟨all.value, all.next, by omega, all.suffix.trans first.suffix⟩
      else
        let pairs ← readPairs source first.next
        have := pairs.notLonger
        let close ← pairs.next.expect source .ignored .rbrace
        have := close.shorter
        .ok ⟨.object (close.next.sourceFrom source token.start.offset) pairs.value, close.next,
          by omega, close.suffix.trans (pairs.suffix.trans first.suffix)⟩
    | .lparen => do
      let inner ← read source .ignored first.next
      have := inner.shorter
      let close ← inner.next.expect source .ignored .rparen
      have := close.shorter
      let value :=
        match inner.value with
        | .traversal _ root => .traversal (close.next.sourceFrom source token.start.offset) root
        | value => value
      .ok ⟨value, close.next, by omega, close.suffix.trans (inner.suffix.trans first.suffix)⟩
    | _ => c.fail .expectedExpression token
termination_by 16 * c.rest.length + 1

/-- The arguments of a call up to its closing parenthesis. -/
def readArguments (source : Source) (c : Cursor) : Reading (Tail (List Expr) c) :=
  if (c.peek source .ignored).kind = .rparen then .ok ⟨[], c, List.suffix_refl _⟩
  else do
    let first ← read source .ignored c
    have := first.shorter
    let dots := first.next.skip .ignored .ellipsis
    have := dots.notLonger
    match dots.next.accept? .ignored .comma with
    | none => .ok ⟨[first.value], dots.next, dots.suffix.trans first.suffix⟩
    | some comma => do
      have := comma.shorter
      let more ← readArguments source comma.next
      .ok ⟨first.value :: more.value, more.next, more.suffix.trans (comma.suffix.trans (dots.suffix.trans first.suffix))⟩
termination_by 16 * c.rest.length + 6

/-- The items of a tuple up to its closing bracket. -/
def readItems (source : Source) (c : Cursor) : Reading (Tail (List Expr) c) :=
  if (c.peek source .ignored).kind = .rbrack then .ok ⟨[], c, List.suffix_refl _⟩
  else do
    let first ← read source .ignored c
    have := first.shorter
    match first.next.accept? .ignored .comma with
    | none => .ok ⟨[first.value], first.next, first.suffix⟩
    | some comma => do
      have := comma.shorter
      let more ← readItems source comma.next
      .ok ⟨first.value :: more.value, more.next, more.suffix.trans (comma.suffix.trans first.suffix)⟩
termination_by 16 * c.rest.length + 6

/-- The pairs of an object up to its closing brace; commas between them are optional. -/
def readPairs (source : Source) (c : Cursor) : Reading (Tail (List (Expr × Expr)) c) :=
  if (c.peek source .ignored).kind = .rbrace then .ok ⟨[], c, List.suffix_refl _⟩
  else if (c.peek source .ignored).kind = .endOfText then
    c.fail .unclosedObject (c.peek source .ignored)
  else do
    let key ← read source .ignored c
    have := key.shorter
    match key.next.takeIf? .ignored fun t => t.kind = .equal || t.kind = .colon with
    | none => key.next.fail .expectedKeySeparator (key.next.peek source .ignored)
    | some separator => do
      have := separator.shorter
      let value ← read source .ignored separator.next
      have := value.shorter
      have := (value.next.skip .ignored .comma).notLonger
      let more ← readPairs source (value.next.skip .ignored .comma).next
      .ok ⟨(key.value, value.value) :: more.value, more.next,
        more.suffix.trans ((value.next.skip .ignored .comma).suffix.trans
          (value.suffix.trans (separator.suffix.trans key.suffix)))⟩
termination_by 16 * c.rest.length + 6

/-- A `for` expression from its keyword to the bracket that closes it. -/
def readFor (source : Source) (start : Nat) (closing : Token.Kind) (c : Cursor) :
    Reading (Step Expr c) := do
  let keyword ← c.expectWord source .ignored "for".toList
  have := keyword.shorter
  let first ← keyword.next.expect source .ignored .ident
  have := first.shorter
  let second ← secondName source first.next
  have := second.notLonger
  let within ← second.next.expectWord source .ignored "in".toList
  have := within.shorter
  let collection ← read source .ignored within.next
  have := collection.shorter
  let colon ← collection.next.expect source .ignored .colon
  have := colon.shorter
  let item ← read source .ignored colon.next
  have := item.shorter
  let value ← readForValue source closing item.next
  have := value.notLonger
  let filter ← readForFilter source value.next
  have := filter.notLonger
  let close ← filter.next.expect source .ignored closing
  have := close.shorter
  .ok ⟨.unknown (close.next.sourceFrom source start), close.next, by omega,
    close.suffix.trans (filter.suffix.trans (value.suffix.trans (item.suffix.trans (colon.suffix.trans
      (collection.suffix.trans (within.suffix.trans (second.suffix.trans (first.suffix.trans keyword.suffix))))))))⟩
termination_by 16 * c.rest.length + 6

/-- The value behind the arrow of a `for` expression in braces. -/
def readForValue (source : Source) (closing : Token.Kind) (c : Cursor) : Reading (Tail Unit c) :=
  if closing = .rbrace then do
    let arrow ← c.expect source .ignored .fatArrow
    have := arrow.shorter
    let value ← read source .ignored arrow.next
    have := value.shorter
    let dots := value.next.skip .ignored .ellipsis
    have := dots.notLonger
    .ok ⟨(), dots.next, dots.suffix.trans (value.suffix.trans arrow.suffix)⟩
  else .ok ⟨(), c, List.suffix_refl _⟩
termination_by 16 * c.rest.length + 6

/-- The condition of a `for` expression. -/
def readForFilter (source : Source) (c : Cursor) : Reading (Tail Unit c) :=
  match c.acceptWord? .ignored "if".toList with
  | none => .ok ⟨(), c, List.suffix_refl _⟩
  | some keyword => do
    have := keyword.shorter
    let test ← read source .ignored keyword.next
    have := test.shorter
    .ok ⟨(), test.next, test.suffix.trans keyword.suffix⟩
termination_by 16 * c.rest.length + 6

end

/-- The whole text as one expression. Line breaks are layout throughout. -/
def ofText (text : Text) : Reading (Expr × List ParseEvent) :=
  match TokenStream.ofText text with
  | .error error => .error ⟨.lexical error, []⟩
  | .ok stream => do
    let source : Source := ⟨text, stream.endToken⟩
    let all ← read source .ignored (.ofTokens stream.tokens)
    let token := all.next.peek source .ignored
    if token.kind = .endOfText then .ok (all.value, all.next.events)
    else all.next.fail .expectedEnd token

end HclTidy.Expr
