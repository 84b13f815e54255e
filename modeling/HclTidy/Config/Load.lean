import HclTidy.Notice
import HclTidy.PathCheck
import HclTidy.Template.Escape
import HclTidy.Yaml.Cursor

/-!
# Loading a configuration file

A configuration is a file of limited size, whose document a reader decodes that is given along with
it. A file that the reader finds malformed is reported as a fault of the configuration; anything else
that goes wrong in it makes loading break off. So does the report of a field whose name is an integer
of too many digits.
-/

set_option autoImplicit false

namespace HclTidy

inductive ConfigError where
  | inaccessible (error : FileError)
  | tooLarge (size : Nat)
  | notFile (path : Text)
  | unreadable (error : FileError)
  | unparsable
  | rule (fault : ConfigFault)
deriving Repr, DecidableEq

def ConfigError.message : ConfigError → String
  | .inaccessible error => "failed to access config file: " ++ error.message
  | .tooLarge size =>
    "config file too large (max " ++ toString Config.maxFileSize ++ " bytes): " ++ toString size
      ++ " bytes"
  | .notFile path => "config path must be a regular file: " ++ path.str
  | .unreadable error => "failed to read config file: " ++ error.message
  | .unparsable => "failed to parse config file"
  | .rule fault => fault.message

/-- Why a program breaks off without reporting an error of its own. -/
inductive Breakdown where
  | label (error : Escape.DecodeError)
  | encoding (fault : Utf8.Fault)
  | scalar (fault : Yaml.ScalarFault)
  | oversizedKey
  | embeddedNul
  /-- A document nests too deeply. -/
  | nesting
deriving Repr, DecidableEq

/-- Why a configuration file gives no configuration. -/
inductive LoadError where
  | config (error : ConfigError)
  | breakdown (cause : Breakdown)
deriving Repr, DecidableEq

/-- Why a reader finds no document. -/
inductive DocumentFault where
  | malformed
  | breakdown (cause : Breakdown)
deriving Repr, DecidableEq

namespace Config

/-- What decodes the document in the bytes of a file. -/
abbrev Reader := Bytes → Except DocumentFault Document

/-- The configuration that a decoded document describes. A key that has to be shown may be too long
for that. -/
def ofDecoded (document : Document) : Except LoadError Config :=
  if (strangeKeys document).any Document.isOversized then .error (.breakdown .oversizedKey)
  else
    match ofDocument document with
    | .ok config => .ok config
    | .error fault => .error (.config (.rule fault))

/-- The configuration in the bytes of a file. -/
def ofBytes (reader : Reader) (content : Bytes) : Except LoadError Config :=
  match reader content with
  | .error (.breakdown cause) => .error (.breakdown cause)
  | .error .malformed => .error (.config .unparsable)
  | .ok document => ofDecoded document

/-- The configuration in the file at a path. -/
def load (reader : Reader) (tree : Tree) (path : Text) : Except LoadError Config :=
  if path.isEmpty then .ok .empty
  else
    let path := Path.absolute (PathCheck.currentPath tree) path
    match tree.entryAt true path with
    | .error .embeddedNul => .error (.breakdown .embeddedNul)
    | .error fault => .error (.config (.inaccessible ⟨fault, path, none⟩))
    | .ok (_, .file content _) =>
      if content.length > maxFileSize then .error (.config (.tooLarge content.length))
      else ofBytes reader content
    | .ok (_, _) => .error (.config (.notFile path))

/-- The names a configuration file is looked for under, in this order. -/
def defaultNames : List Text :=
  ["terraform-file-organize.yaml".toList, "terraform-file-organize.yml".toList,
   ".terraform-file-organize.yaml".toList, ".terraform-file-organize.yml".toList]

/-- The path of the first default configuration file in a directory, empty when there is none. -/
def findDefault (tree : Tree) (directory : Text) : Text :=
  ((defaultNames.map (Path.join directory)).find? tree.isFile).getD []

/-- What is noted when the configuration in the file at a path has been read. -/
def loadNotices (config : Config) (tree : Tree) (path : Text) : List Notice :=
  if path.isEmpty then []
  else
    [.debug ("Loaded " ++ toString config.groups.length ++ " group(s) and "
      ++ toString config.excludedFiles.length ++ " exclude pattern(s) from "
      ++ (Path.absolute (PathCheck.currentPath tree) path).str)]

end Config

end HclTidy
