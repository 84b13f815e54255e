import HclTidy.Text.Utf8
import HclTidy.Yaml.FlowScalar

/-!
# Tokens of YAML text

The tokens of YAML 1.1, and the reading of directives, anchors and tags.
-/

set_option autoImplicit false

namespace HclTidy.Yaml

inductive Token where
  | streamEnd
  | directive (name : Text) (value : Text × Text)
  | documentStart
  | documentEnd
  | blockSequenceStart
  | blockMappingStart
  | blockEnd
  | flowSequenceStart
  | flowSequenceEnd
  | flowMappingStart
  | flowMappingEnd
  | flowEntry
  | blockEntry
  | key
  | value
  | reference (name : Text)
  | anchor (name : Text)
  /-- A tag with its handle; a verbatim or non-specific tag has none. -/
  | tag (handle : Option Text) (suffix : Text)
  | scalar (text : Text) (plain : Bool)
deriving Repr, DecidableEq

/-- The most digits of a version number. -/
def maxVersionDigits : Nat := 4300

def number (c : Cursor) : Except Fault (Text × Cursor) :=
  match c.takeWhile Char.isDigit with
  | ([], _) => .error .malformed
  | (digits, c) =>
    if maxVersionDigits < digits.length then .error (.scalar (.tooManyDigits digits.length))
    else .ok (digits, c)

/-- A tag handle: `!`, or a word between exclamation marks. -/
def tagHandle (c : Cursor) : Except Fault (Text × Cursor) :=
  if c.peek ≠ some '!' then .error .malformed
  else if c.peekAt 1 = some ' ' then .ok (['!'], c.advance 1)
  else
    let word := c.rest.tail.takeWhile isWordChar
    if c.peekAt (word.length + 1) = some '!' then
      .ok ('!' :: word ++ ['!'], c.advance (word.length + 2))
    else .error .malformed

/-- The bytes written as consecutive percent escapes. -/
def percentBytes : Nat → Text → Bytes
  | 0, _ => []
  | fuel + 1, '%' :: a :: b :: rest =>
    if isHexDigit a && isHexDigit b then .ofNat (hexValue [a, b]) :: percentBytes fuel rest else []
  | _, _ => []

/-- A tag or part of one, percent escapes decoded. -/
def uri : Nat → Cursor → Except Fault (Text × Cursor)
  | 0, c => .ok ([], c)
  | fuel + 1, c =>
    match c.peek with
    | some '%' =>
      let bytes := percentBytes (c.left + 1) c.rest
      let behind := c.advance (3 * bytes.length)
      if bytes.isEmpty || behind.peek = some '%' then .error .malformed
      else
        match Utf8.decode bytes with
        | .ok text => do
          let (more, c) ← uri fuel behind
          .ok (text ++ more, c)
        | .error _ => .error .malformed
    | some d =>
      if isUriChar d then do
        let (more, c) ← uri fuel (c.advance 1)
        .ok (d :: more, c)
      else .ok ([], c)
    | none => .ok ([], c)

def nonEmptyUri (c : Cursor) : Except Fault (Text × Cursor) := do
  let (text, c) ← uri (c.left + 1) c
  if text.isEmpty then .error .malformed else .ok (text, c)

/-- A directive behind its percent sign, up to the end of its line. -/
def directive (c : Cursor) : Except Fault (Token × Cursor) := do
  let (name, c) := c.takeWhile isWordChar
  if name.isEmpty || !c.spaceAt false 0 then .error .malformed
  else
    let (value, c) ←
      if name = "YAML".toList then do
        let (major, c) ← number c.skipSpaces
        if c.peek ≠ some '.' then .error .malformed
        else
          let (minor, c) ← number (c.advance 1)
          if c.spaceAt false 0 then .ok ((major, minor), c) else .error .malformed
      else if name = "TAG".toList then do
        let (handle, c) ← tagHandle c.skipSpaces
        if c.peek ≠ some ' ' then .error .malformed
        else
          let (lead, c) ← nonEmptyUri c.skipSpaces
          if c.spaceAt false 0 then .ok ((handle, lead), c) else .error .malformed
      else .ok (([], []), c.skipLine)
    let ((), c) ← c.lineEnd
    .ok (.directive name value, c)

/-- The name of an anchor or alias behind its indicator. -/
def anchorName (c : Cursor) : Except Fault (Text × Cursor) :=
  let (name, c) := c.takeWhile isWordChar
  let ends := c.spaceAt true 0 ||
    match c.peek with
    | some d => "?:,]\x7d%@`".toList.contains d
    | none => true
  if name.isEmpty || !ends then .error .malformed else .ok (name, c)

/-- A tag from its exclamation mark on. -/
def tag (c : Cursor) : Except Fault (Token × Cursor) := do
  let (token, c) ←
    if c.peekAt 1 = some '<' then do
      let (suffix, c) ← nonEmptyUri (c.advance 2)
      if c.peek = some '>' then .ok (Token.tag none suffix, c.advance 1) else .error .malformed
    else if c.spaceAt true 1 then .ok (Token.tag none ['!'], c.advance 1)
    else
      let word := c.rest.tail.takeWhile fun d => !isBreak d && d ≠ ' '
      let (handle, c) ← if word.contains '!' then tagHandle c else .ok (['!'], c.advance 1)
      let (suffix, c) ← nonEmptyUri c
      .ok (Token.tag (some handle) suffix, c)
  if c.spaceAt false 0 then .ok (token, c) else .error .malformed

end HclTidy.Yaml
