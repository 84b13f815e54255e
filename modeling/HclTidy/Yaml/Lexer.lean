import HclTidy.Yaml.BlockScalar
import HclTidy.Yaml.Source
import HclTidy.Yaml.Token

/-!
# Reading YAML tokens

Block collections begin and end where the indentation changes. A simple key is recognised only at
its colon, on the same line and within 1024 characters; its tokens are then put in front of the
tokens that it has been read as.
-/

set_option autoImplicit false

namespace HclTidy.Yaml

/-- A place where a simple key may have begun: the number of its first token and its position. -/
structure SimpleKey where
  number : Nat
  /-- The line can be nothing else than a key. -/
  required : Bool
  index : Nat
  line : Nat
  column : Nat
deriving Repr, DecidableEq

structure Lexer where
  cursor : Cursor
  flowLevel : Nat
  /-- The column of the innermost block collection, and those around it. -/
  indent : Int
  outer : List Int
  keyAllowed : Bool
  /-- The possible simple keys, at most one for each flow level. -/
  keys : List (Nat × SimpleKey)
  /-- The tokens so far, latest first, and their number. -/
  tokens : List Token
  count : Nat

namespace Lexer

def start (text : Text) : Lexer := ⟨.start text, 0, -1, [], true, [], [], 0⟩

def push (s : Lexer) (token : Token) : Lexer :=
  { s with tokens := token :: s.tokens, count := s.count + 1 }

/-- Puts a token before the one with a given number. -/
def insert (s : Lexer) (number : Nat) (token : Token) : Lexer :=
  let later := s.count - number
  { s with tokens := s.tokens.take later ++ token :: s.tokens.drop later, count := s.count + 1 }

def inBlock (s : Lexer) : Bool := s.flowLevel = 0

/-- Gives up the possible keys that are on another line or too far back. -/
def dropStale (s : Lexer) : Except Fault Lexer :=
  let isStale (k : Nat × SimpleKey) : Bool :=
    k.2.line ≠ s.cursor.line || 1024 < s.cursor.index - k.2.index
  if s.keys.any fun k => isStale k && k.2.required then .error .malformed
  else .ok { s with keys := s.keys.filter fun k => !isStale k }

/-- Gives up the possible key of this flow level. -/
def removeKey (s : Lexer) : Except Fault Lexer :=
  match s.keys.lookup s.flowLevel with
  | none => .ok s
  | some key =>
    if key.required then .error .malformed
    else .ok { s with keys := s.keys.filter fun k => k.1 ≠ s.flowLevel }

/-- Notes that the next token may begin a simple key. -/
def saveKey (s : Lexer) : Except Fault Lexer :=
  if s.keyAllowed then do
    let s ← s.removeKey
    let key : SimpleKey := {
      number := s.count
      required := s.inBlock && s.indent = s.cursor.column
      index := s.cursor.index
      line := s.cursor.line
      column := s.cursor.column }
    .ok { s with keys := (s.flowLevel, key) :: s.keys }
  else .ok s

/-- Ends the block collections that are indented further than a column. -/
def unwindTo (column : Int) : List Int → Lexer → Lexer
  | [], s => s
  | next :: outer, s =>
    if column < s.indent then
      unwindTo column outer ({ s with indent := next, outer := outer }.push .blockEnd)
    else s

def unwind (s : Lexer) (column : Int) : Lexer :=
  if s.inBlock then unwindTo column s.outer s else s

/-- Begins a block collection if a column is indented further than the one around it. -/
def deepen (s : Lexer) (column : Nat) : Bool × Lexer :=
  if s.indent < column then (true, { s with indent := column, outer := s.indent :: s.outer })
  else (false, s)

def allowKey (s : Lexer) (allowed : Bool) : Lexer := { s with keyAllowed := allowed }

def advance (s : Lexer) (n : Nat) : Lexer := { s with cursor := s.cursor.advance n }

/-- White space, comments and line breaks before a token. -/
def skipToToken : Nat → Lexer → Lexer
  | 0, s => s
  | fuel + 1, s =>
    let c := s.cursor.skipSpaces
    let c := if c.peek = some '#' then c.skipLine else c
    match c.lineBreak with
    | ([], c) => { s with cursor := c }
    | (_, c) =>
      skipToToken fuel { s with cursor := c, keyAllowed := s.inBlock || s.keyAllowed }

/-- A token for a border of the whole text or of a document. -/
def border (s : Lexer) (token : Token) (length : Nat) : Except Fault Lexer := do
  let s ← (s.unwind (-1)).removeKey
  .ok ((s.allowKey false).push token |>.advance length)

def flowStart (s : Lexer) (token : Token) : Except Fault Lexer := do
  let s ← s.saveKey
  .ok ({ s with flowLevel := s.flowLevel + 1, keyAllowed := true }.push token |>.advance 1)

def flowEnd (s : Lexer) (token : Token) : Except Fault Lexer := do
  let s ← s.removeKey
  .ok ({ s with flowLevel := s.flowLevel - 1, keyAllowed := false }.push token |>.advance 1)

/-- A dash or question mark, which may begin a block collection. -/
def blockIndicator (s : Lexer) (opening token : Token) (allowed : Bool) : Except Fault Lexer := do
  let s ←
    if s.inBlock then
      if s.keyAllowed then
        let (deeper, s) := s.deepen s.cursor.column
        .ok (if deeper then s.push opening else s)
      else .error .malformed
    else .ok s
  let s ← (s.allowKey allowed).removeKey
  .ok (s.push token |>.advance 1)

/-- A colon. It ends the simple key of this flow level or stands for an empty one. -/
def valueIndicator (s : Lexer) : Except Fault Lexer :=
  match s.keys.lookup s.flowLevel with
  | some key =>
    let s := { s with keys := s.keys.filter fun k => k.1 ≠ s.flowLevel }
    let s := s.insert key.number .key
    let s :=
      if s.inBlock then
        let (deeper, s) := s.deepen key.column
        if deeper then s.insert key.number .blockMappingStart else s
      else s
    .ok ((s.allowKey false).push .value |>.advance 1)
  | none => do
    let s ←
      if s.inBlock then
        if s.keyAllowed then
          let (deeper, s) := s.deepen s.cursor.column
          .ok (if deeper then s.push .blockMappingStart else s)
        else .error .malformed
      else .ok s
    let s ← (s.allowKey s.inBlock).removeKey
    .ok (s.push .value |>.advance 1)

/-- A token that may be or begin a simple key. -/
def keyLike (s : Lexer) (read : Cursor → Except Fault (Token × Cursor)) : Except Fault Lexer := do
  let s ← s.saveKey
  let (token, c) ← read s.cursor
  .ok ({ s with cursor := c, keyAllowed := false }.push token)

def named (make : Text → Token) (c : Cursor) : Except Fault (Token × Cursor) := do
  let (name, c) ← anchorName (c.advance 1)
  .ok (make name, c)

def quotedScalar (double : Bool) (c : Cursor) : Except Fault (Token × Cursor) := do
  let (text, c) ← quotedText double (c.left + 1) (c.advance 1)
  .ok (.scalar text false, c)

def blockScalar (s : Lexer) (folded : Bool) : Except Fault Lexer := do
  let s ← (s.allowKey true).removeKey
  let (text, c) ← blockText folded s.indent (s.cursor.advance 1)
  .ok ({ s with cursor := c }.push (.scalar text false))

def plainScalar (s : Lexer) : Except Fault Lexer := do
  let s ← s.saveKey
  let (text, fresh, c) :=
    plainText (!s.inBlock) (s.indent + 1).toNat [] (s.cursor.left + 1) s.cursor false
  .ok ({ s with cursor := c, keyAllowed := fresh }.push (.scalar text true))

/-- A plain scalar may begin here. -/
def atPlain (s : Lexer) (c : Char) : Bool :=
  !(isBreak c || " \t-?:,[]\x7b\x7d#&*!|>'\"%@`".toList.contains c)
    || (!s.cursor.spaceAt true 1 && (c = '-' || (s.inBlock && (c = '?' || c = ':'))))

/-- Up to the next token; a mark of the byte order in front of the text is passed over. -/
def toToken (s : Lexer) : Lexer :=
  let s := if s.cursor.index = 0 && s.cursor.peek = some '\uFEFF' then s.advance 1 else s
  skipToToken (s.cursor.left + 1) s

/-- Reads one more token. -/
def next (s : Lexer) : Except Fault Lexer := do
  let s ← s.toToken.dropStale
  let s := s.unwind s.cursor.column
  match s.cursor.peek with
  | none => s.border .streamEnd 0
  | some c =>
    let followed := s.cursor.spaceAt true 1
    if c = '%' && s.cursor.column = 0 then do
      let s ← (s.unwind (-1)).removeKey
      let (token, cursor) ← directive (s.cursor.advance 1)
      .ok ({ s with cursor := cursor, keyAllowed := false }.push token)
    else if s.cursor.column = 0 && s.cursor.atMark '-' then s.border .documentStart 3
    else if s.cursor.column = 0 && s.cursor.atMark '.' then s.border .documentEnd 3
    else if c = '[' then s.flowStart .flowSequenceStart
    else if c = '{' then s.flowStart .flowMappingStart
    else if c = ']' then s.flowEnd .flowSequenceEnd
    else if c = '}' then s.flowEnd .flowMappingEnd
    else if c = ',' then do
      let s ← (s.allowKey true).removeKey
      .ok (s.push .flowEntry |>.advance 1)
    else if c = '-' && followed then s.blockIndicator .blockSequenceStart .blockEntry true
    else if c = '?' && (!s.inBlock || followed) then
      s.blockIndicator .blockMappingStart .key s.inBlock
    else if c = ':' && (!s.inBlock || followed) then s.valueIndicator
    else if c = '*' then s.keyLike (named .reference)
    else if c = '&' then s.keyLike (named .anchor)
    else if c = '!' then s.keyLike tag
    else if c = '|' && s.inBlock then s.blockScalar false
    else if c = '>' && s.inBlock then s.blockScalar true
    else if c = '\'' then s.keyLike (quotedScalar false)
    else if c = '"' then s.keyLike (quotedScalar true)
    else if s.atPlain c then s.plainScalar
    else .error .malformed

end Lexer

/-- The tokens of a text up to its end, or up to where it is at fault. -/
structure Scanned where
  tokens : List Token
  fault : Fault

namespace Lexer

def atEnd (s : Lexer) : Bool := s.cursor.rest.isEmpty

/-- What has been read when the next token is at fault. Only the tokens in front of the first
possible simple key are certain. -/
def stopAt (s : Lexer) (fault : Fault) : Scanned :=
  let certain := (s.keys.map fun k => k.2.number).min?.getD s.count
  ⟨s.tokens.reverse.take certain, fault⟩

/-- Reads tokens until the end of the text. A fault behind the text shows as soon as reading gets
there. -/
def run (behind : Option Fault) : Nat → Lexer → Scanned
  | 0, s => s.stopAt .malformed
  | fuel + 1, s =>
    match s.dropStale with
    | .error fault => s.stopAt fault
    | .ok s =>
      match behind, s.next with
      | none, .error .unfinished => s.stopAt .malformed
      | none, .error fault => s.stopAt fault
      | none, .ok after =>
        if after.tokens.head? = some .streamEnd then ⟨after.tokens.reverse, .malformed⟩
        else run behind fuel after
      | some fault, .error .unfinished => s.stopAt fault
      | some fault, .error other => s.stopAt (if s.toToken.atEnd then fault else other)
      | some fault, .ok after => if after.atEnd then s.stopAt fault else run behind fuel after

end Lexer

def scan (source : Source) : Scanned :=
  Lexer.run source.fault? (source.text.length + 2) (.start source.text)

end HclTidy.Yaml
