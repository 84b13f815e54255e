import HclTidy.Text.Basic

/-!
# Paths as text

Operations that look at the spelling of a path only and never at a file system: its components,
joining, the directory and base name, and normalisation, which drops empty and `.` components and
lets `..` remove the component before it.
-/

set_option autoImplicit false

namespace HclTidy.Path

def current : Text := ['.']

def parent : Text := ['.', '.']

def isAbsolute (path : Text) : Bool := path.head? = some '/'

/-- The components between the slashes, without empty ones and `.`. -/
def components (path : Text) : List Text :=
  (path.splitOn '/').filter fun c => !c.isEmpty && c ≠ current

/-- The components left after every `..` has removed the one before it, innermost first. Below a
root nothing is above; elsewhere a `..` with nothing to remove stays. -/
def collapse (rooted : Bool) (stack : List Text) : List Text → List Text
  | [] => stack
  | c :: rest =>
    if c = parent then
      match stack with
      | [] => collapse rooted (if rooted then [] else [parent]) rest
      | top :: below =>
        if top = parent then collapse rooted (parent :: stack) rest else collapse rooted below rest
    else collapse rooted (c :: stack) rest

/-- The slashes a normalised path begins with: exactly two leading slashes are kept. -/
def root (path : Text) : Text :=
  match path with
  | '/' :: '/' :: '/' :: _ => ['/']
  | '/' :: '/' :: _ => ['/', '/']
  | '/' :: _ => ['/']
  | _ => []

def normalise (path : Text) : Text :=
  let lead := root path
  let kept := (collapse (!lead.isEmpty) [] (components path)).reverse
  let whole := lead ++ Text.joinWith ['/'] kept
  if whole.isEmpty then current else whole

def join (base path : Text) : Text :=
  if isAbsolute path then path
  else if base.isEmpty || base.getLast? = some '/' then base ++ path
  else base ++ '/' :: path

/-- The normalised path from the root, for a path relative to `cwd`. -/
def absolute (cwd path : Text) : Text :=
  normalise (if isAbsolute path then path else join cwd path)

/-- What follows the last slash. -/
def baseName (path : Text) : Text := (path.reverse.takeWhile (· ≠ '/')).reverse

/-- What stands before the last slash, without slashes at its end unless it has nothing else. -/
def dirName (path : Text) : Text :=
  let head := (path.reverse.dropWhile (· ≠ '/')).reverse
  if head.all (· = '/') then head else (head.reverse.dropWhile (· = '/')).reverse

end HclTidy.Path
