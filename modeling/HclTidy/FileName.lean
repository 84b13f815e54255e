import HclTidy.Path
import HclTidy.Text.Blank

/-!
# File names

`FileName.check` decides whether a configured name may be used as it stands; `FileName.sanitize`
turns any label into a safe component. The device names of some systems are reserved in any letter
case.
-/

set_option autoImplicit false

namespace HclTidy.FileName

def maxLength : Nat := 255

def reservedNames : List Text :=
  ["CON".toList, "PRN".toList, "AUX".toList, "NUL".toList] ++
    ("123456789".toList.map fun d => "COM".toList ++ [d]) ++
    ("123456789".toList.map fun d => "LPT".toList ++ [d])

/-- A reserved name in any letter case. Only ASCII letters have a reserved letter as their upper
case, so upper case is taken of those alone. -/
def isReserved (name : Text) : Bool := reservedNames.contains (name.map Char.toUpper)

inductive Fault where
  | empty
  | parentReference
  | invalidCharacter
  | tooLong
  | reserved (name : Text)
deriving Repr, DecidableEq

def Fault.message : Fault → String
  | .empty => "filename cannot be empty"
  | .parentReference => "filename cannot contain '..'"
  | .invalidCharacter => "filename contains invalid characters"
  | .tooLong => "filename too long (max " ++ toString maxLength ++ " chars)"
  | .reserved name => "filename cannot be a system reserved name: " ++ name.str

def invalidCharacters : Text := "/\\:*?\"<>|".toList

/-- The name without what follows its last point. -/
def stem (name : Text) : Text :=
  if name.contains '.' then ((name.reverse.dropWhile (· ≠ '.')).drop 1).reverse else name

/-- The first rule that a name breaks. -/
def fault? (name : Text) : Option Fault :=
  if name.isEmpty then some .empty
  else if (Text.cut? ['.', '.'] name).isSome then some .parentReference
  else if name.any invalidCharacters.contains then some .invalidCharacter
  else if name.length > maxLength then some .tooLong
  else if isReserved (stem name) then some (.reserved name)
  else none

/-- The longest sanitized name. -/
def maxSanitizedLength : Nat := 200

def unnamed : Text := "unnamed".toList

/-- Characters that are replaced by an underscore. -/
def isUnsafe (c : Char) : Bool :=
  ":*?\"<>| \\".toList.contains c || c.toNat < 32 || 126 < c.toNat

/-- Every run of a character shortened to one. -/
def squeeze (c : Char) : Text → Text
  | a :: b :: rest => if a = c && b = c then squeeze c (b :: rest) else a :: squeeze c (b :: rest)
  | short => short

def isFiller (c : Char) : Bool := c = '_' || c = '.'

def trimFillersRight (name : Text) : Text := (name.reverse.dropWhile isFiller).reverse

def trimFillers (name : Text) : Text := trimFillersRight (name.dropWhile isFiller)

/-- A safe component for an arbitrary label: the last component of the label read as a path, with
unsafe characters replaced, runs of underscores and points shortened, and both trimmed. -/
def sanitize (name : Text) : Text :=
  if name.isEmpty then unnamed
  else
    let last := Path.baseName (Path.normalise name)
    let safe := last.map fun c => if isUnsafe c then '_' else c
    let short := trimFillers (squeeze '.' (squeeze '_' safe))
    let cut :=
      if short.length > maxSanitizedLength then trimFillersRight (short.take maxSanitizedLength)
      else short
    let kept := if cut.isEmpty then unnamed else cut
    if isReserved kept then "tf_".toList ++ kept else kept

end HclTidy.FileName
