import HclTidy.Text.Stream
import HclTidy.Yaml.Cursor

/-!
# Sources of YAML text

A file is read portion by portion while its text is being taken apart. A portion that cannot be
decoded or that holds a character which is not allowed is a fault as soon as reading gets to it. The
text in front of that portion comes before, and may itself be at fault.
-/

set_option autoImplicit false

namespace HclTidy.Yaml

/-- The text that can be read, and the fault behind it if it goes on. -/
structure Source where
  text : Text
  fault? : Option Fault

namespace Source

/-- The portions that are read at the beginning. -/
def firstPortions : Nat := 2

/-- The offset of the text in front of which a number of portions has been read. -/
def portionStart (portions : Nat) : Nat :=
  if portions < firstPortions then 0 else portions * Stream.portionSize

/-- The source with what begins at an offset replaced by a fault. -/
def cut (s : Source) (offset : Nat) (fault : Fault) : Source := ⟨s.text.take offset, some fault⟩

/-- The source up to the portion with the first character that is not allowed. -/
def checked (s : Source) : Source :=
  match s.text.findIdx? fun c => !isAllowed c with
  | none => s
  | some i => s.cut (portionStart (i / Stream.portionSize)) .malformed

/-- The text of a file, line ends normalised. -/
def ofBytes (bytes : Bytes) : Source :=
  let (front, fault) := Utf8.decodeFront bytes
  let source : Source := ⟨Utf8.normaliseLines front, none⟩
  checked <|
    match fault with
    | none => source
    | some fault =>
      let (portions, fault) := Stream.failure bytes fault
      source.cut (portionStart portions) (.encoding fault)

end Source

end HclTidy.Yaml
