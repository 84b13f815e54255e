import HclTidy.Text.Quoted
import HclTidy.Yaml.Binary
import HclTidy.Yaml.Number
import HclTidy.Yaml.Timestamp

/-!
# Values of scalars

The implicit types of YAML 1.1: booleans, numbers, null and timestamps are told from text by their
spelling. A value that its spelling promises may still not exist, such as the thirteenth month.
-/

set_option autoImplicit false

namespace HclTidy.Yaml

/-- A tag of the common schema. -/
def coreTag (name : String) : Text := "tag:yaml.org,2002:".toList ++ name.toList

namespace Scalar

def isBoolean (t : Text) : Bool :=
  ["yes", "Yes", "YES", "no", "No", "NO", "true", "True", "TRUE", "false", "False", "FALSE", "on",
    "On", "ON", "off", "Off", "OFF"].any fun s => s.toList = t

def isNull (t : Text) : Bool := ["", "~", "null", "Null", "NULL"].any fun s => s.toList = t

/-- A line feed at the end does not count in the spelling of a scalar, unless it stands alone. -/
def withoutFinalBreak (t : Text) : Text :=
  if t.getLast? = some '\n' && 1 < t.length then t.dropLast else t

/-- The tag that a plain scalar has by its spelling. -/
def implicitTag (text : Text) : Text :=
  let t := withoutFinalBreak text
  coreTag <|
    if isBoolean t then "bool"
    else if isFloat t then "float"
    else if isInteger t then "int"
    else if t = ['<', '<'] then "merge"
    else if isNull t then "null"
    else if isTimestamp t then "timestamp"
    else if t = ['='] then "value"
    else "str"

def boolean (text : Text) : Except ScalarFault Bool :=
  let t := Text.lower text
  if ["yes", "true", "on"].any fun s => s.toList = t then .ok true
  else if ["no", "false", "off"].any fun s => s.toList = t then .ok false
  else .error (.boolean t)

def timestamp (text : Text) : Except ScalarFault Timestamp :=
  match timestamp? (withoutFinalBreak text) with
  | none => .error .notTimestamp
  | some stamp =>
    match stamp.fault? with
    | none => .ok stamp
    | some fault => .error (.timestamp fault)

/-- The value of a scalar with a given tag. -/
def value (tag text : Text) : Except Fault Document :=
  let scalar {α : Type} (make : α → Document) : Except ScalarFault α → Except Fault Document
    | .ok x => .ok (make x)
    | .error fault => .error (.scalar fault)
  if tag = coreTag "str" then .ok (.text text)
  else if tag = coreTag "null" then .ok .null
  else if tag = coreTag "bool" then scalar .bool (boolean text)
  else if tag = coreTag "int" then scalar .int (integer text)
  else if tag = coreTag "float" then scalar id (float text)
  else if tag = coreTag "timestamp" then scalar .timestamp (timestamp text)
  else if tag = coreTag "binary" then
    match Binary.decode? text with
    | some bytes => .ok (.binary bytes)
    | none => .error .malformed
  else .error .malformed

end Scalar

/-- The longest quotation of a numeral in a message. -/
def maxQuotedLength : Nat := 200

def ScalarFault.message : ScalarFault → String
  | .characterRange => "chr() arg not in range(0x110000)"
  | .characterTooLarge => "code number of an escape out of range"
  | .integer base numeral =>
    "invalid literal for int() with base " ++ toString base ++ ": "
      ++ Text.str ((Text.quoted numeral).toList.take maxQuotedLength)
  | .tooManyDigits count =>
    "Exceeds the limit (" ++ toString Number.maxDigits
      ++ " digits) for integer string conversion: value has " ++ toString count
      ++ " digits; use sys.set_int_max_str_digits() to increase the limit"
  | .emptyNumber => "string index out of range"
  | .float numeral => "could not convert string to float: " ++ Text.quoted numeral
  | .placeTooLarge => "int too large to convert to float"
  | .boolean text => Text.quoted text
  | .notTimestamp => "no timestamp"
  | .notText => "no text"
  | .timestamp fault => fault.message

end HclTidy.Yaml
