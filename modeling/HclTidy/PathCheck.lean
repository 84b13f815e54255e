import HclTidy.Config.Check
import HclTidy.Tree.Lookup

/-!
# Checking paths before a run

Paths inside a system directory are refused, by their normalised spelling. Input, output and
configuration paths must be what they are used as.
-/

set_option autoImplicit false

namespace HclTidy

/-- The largest configuration file, in bytes. -/
def Config.maxFileSize : Nat := 1024 * 1024

inductive PathError where
  | empty
  | systemDirectory (path : Text)
  | inaccessible (path : Text)
  | isLink (path : Text)
  | notFileOrDirectory (path : Text)
  | notDirectory (path : Text)
  | noConfigFile (path : Text)
  | configNotFile (path : Text)
  | configTooLarge (path : Text)
  | outputWithRecursion
  | inOutput (error : PathError)
  | inConfig (error : PathError)
  | inInput (error : PathError)
deriving Repr, DecidableEq

namespace PathError

def message : PathError → String
  | empty => "path cannot be empty"
  | systemDirectory path => "access to system directory not allowed: " ++ path.str
  | inaccessible path => "path does not exist or is not accessible: " ++ path.str
  | isLink path => "symbolic links are not allowed for security reasons: " ++ path.str
  | notFileOrDirectory path => "path must be a regular file or directory: " ++ path.str
  | notDirectory path => "output path exists but is not a directory: " ++ path.str
  | noConfigFile path => "config file does not exist: " ++ path.str
  | configNotFile path => "config path must be a regular file: " ++ path.str
  | configTooLarge path =>
    "config file too large (max " ++ toString Config.maxFileSize ++ " bytes): " ++ path.str
  | outputWithRecursion =>
    "cannot use --output-dir (-o) with --recursive (-r): combining multiple directories into one output is not supported"
  | inOutput error => "invalid output directory: " ++ error.message
  | inConfig error => "invalid config file path: " ++ error.message
  | inInput error => "invalid input path: " ++ error.message

end PathError

namespace PathCheck

def systemDirectories : List Text :=
  ["/etc".toList, "/bin".toList, "/sbin".toList, "/usr/bin".toList, "/usr/sbin".toList,
   "/sys".toList, "/proc".toList]

/-- The path is a directory or lies inside it, by its spelling. -/
def isUnder (path directory : Text) : Bool :=
  path = directory || (directory ++ ['/']).isPrefixOf path

/-- The path is not empty and not inside a system directory. -/
def isSafe (current path : Text) : Bool :=
  !path.isEmpty && !systemDirectories.any (isUnder (Path.absolute current path))

def check (current path : Text) : Except PathError Unit :=
  if path.isEmpty then .error .empty
  else if isSafe current path then .ok ()
  else .error (.systemDirectory path)

/-- The spelling of the current directory of a tree. -/
def currentPath (tree : Tree) : Text := Tree.pathOf tree.current

/-- A path to read from. A path with a NUL is no path at all and fails in another way. -/
def checkInput (tree : Tree) (path : Text) : Except (PathError ⊕ PathFault) Unit := do
  match check (currentPath tree) path with
  | .error e => .error (.inl e)
  | .ok () =>
    match tree.entryAt false path with
    | .error .embeddedNul => .error (.inr .embeddedNul)
    | .error _ => .error (.inl (.inaccessible path))
    | .ok (_, .link _) => .error (.inl (.isLink path))
    | .ok (_, .device) => .error (.inl (.notFileOrDirectory path))
    | .ok (_, _) => .ok ()

/-- A directory to write to; an empty path stands for the input directory. -/
def checkOutput (tree : Tree) (path : Text) : Except PathError Unit :=
  if path.isEmpty then .ok ()
  else
    match check (currentPath tree) path with
    | .error e => .error (.inOutput e)
    | .ok () =>
      if tree.exists? path && !tree.isDirectory path then .error (.notDirectory path) else .ok ()

/-- A configuration file; an empty path stands for none. -/
def checkConfig (tree : Tree) (path : Text) : Except PathError Unit :=
  if path.isEmpty then .ok ()
  else
    match check (currentPath tree) path with
    | .error e => .error (.inConfig e)
    | .ok () =>
      match tree.entryAt true path with
      | .error _ => .error (.noConfigFile path)
      | .ok (_, .file content _) =>
        if content.length > Config.maxFileSize then .error (.configTooLarge path) else .ok ()
      | .ok (_, _) => .error (.configNotFile path)

/-- An output directory cannot take the files of several input directories. -/
def checkFlags (outputDir : Text) (recursive : Bool) : Except PathError Unit :=
  if !outputDir.isEmpty && recursive then .error .outputWithRecursion else .ok ()

end PathCheck

end HclTidy
