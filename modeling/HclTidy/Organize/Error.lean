import HclTidy.Block.Notices
import HclTidy.Config.Load
import HclTidy.Grouping
import HclTidy.Yaml.Scalar

/-!
# How a run fails

Each stage of a run has its own errors. A breakdown is none of them: it ends the run without a
message of the program.
-/

set_option autoImplicit false

namespace HclTidy

/-- Why a source file cannot be used. -/
inductive SourceError where
  | unreadable (path : Text) (error : FileError)
  | notText (path : Text) (fault : Utf8.Fault)
  | malformed (path : Text) (error : ParseError)
deriving Repr, DecidableEq

inductive WriteError where
  | noDirectory (error : FileError)
  | notWritten (name : Text) (error : FileError)
  /-- The file has been opened and emptied, and not written to the end. -/
  | brokenOff (name : Text) (fault : PathFault)
deriving Repr, DecidableEq

inductive OrganizeError where
  | noInput (path : Text)
  | unreadableDirectory (error : FileError)
  | noBackupDirectory (error : FileError)
  | notBackedUp (path : Text) (error : FileError)
  | notRemoved (path : Text) (error : FileError)
deriving Repr, DecidableEq

inductive Failure where
  | config (error : ConfigError)
  | source (error : SourceError)
  | duplicate (address : DuplicateAddress)
  | write (error : WriteError)
  | organize (error : OrganizeError)
  | path (error : PathError)
  | breakdown (cause : Breakdown)
deriving Repr, DecidableEq

def SourceError.message : SourceError → String
  | .unreadable path error => "failed to read file " ++ path.str ++ ": " ++ error.message
  | .notText path fault => "failed to read file " ++ path.str ++ ": " ++ fault.message
  | .malformed path error =>
    if path.isEmpty then error.message else path.str ++ ": " ++ error.message

def WriteError.message : WriteError → String
  | .noDirectory error => "failed to create output directory: " ++ error.message
  | .notWritten name error => "failed to write group " ++ name.str ++ ": " ++ error.message
  | .brokenOff name fault => "failed to write group " ++ name.str ++ ": " ++ fault.description

def OrganizeError.message : OrganizeError → String
  | .noInput path => "failed to access input path: " ++ path.str
  | .unreadableDirectory error => "failed to read directory: " ++ error.message
  | .noBackupDirectory error => "failed to create backup directory: " ++ error.message
  | .notBackedUp path error => "failed to backup file " ++ path.str ++ ": " ++ error.message
  | .notRemoved path error => "failed to remove file " ++ path.str ++ ": " ++ error.message

def Breakdown.message : Breakdown → String
  | .label .codeTooLarge => ParseError.message (.escape .codeTooLarge)
  | .encoding fault => fault.message
  | .scalar fault => fault.message
  | .oversizedKey =>
    "Exceeds the limit (" ++ toString Document.maxShownDigits
      ++ " digits) for integer string conversion; use sys.set_int_max_str_digits() "
      ++ "to increase the limit"
  | .embeddedNul => PathFault.embeddedNul.description
  | .nesting => "maximum recursion depth exceeded"

def Failure.message : Failure → String
  | .config error => error.message
  | .source error => error.message
  | .duplicate address => address.message
  | .write error => error.message
  | .organize error => error.message
  | .path error => error.message
  | .breakdown cause => cause.message

/-- The failure that a load error is. -/
def Failure.ofLoad : LoadError → Failure
  | .config error => .config error
  | .breakdown cause => .breakdown cause

/-- The failure of an operation on a path: an error of the stage, unless the path is none at all. -/
def Failure.ofFile (wrap : FileError → Failure) (error : FileError) : Failure :=
  if error.isSystemError then wrap error else .breakdown .embeddedNul

/-- The failure of a text that cannot be parsed. -/
def Failure.ofParse (path : Text) : ParseError → Failure
  | .escape error => .breakdown (.label error)
  | error => .source (.malformed path error)

end HclTidy
