import HclTidy.Path
import HclTidy.Tree.Basic

/-!
# Looking up paths

A path is followed name by name from the root or the current directory. Links on the way are
followed, the one at its end only on request, and at most forty in all; `..` leaves the directory
that has been reached. `Tree.physical` gives the place a path stands for even where nothing exists
yet.
-/

set_option autoImplicit false

namespace HclTidy

/-- What a path leads to: an entry, or a free name in a directory. -/
inductive Destination where
  | found (place : Place)
  | missing (parent : Place) (name : Text)
deriving Repr, DecidableEq

namespace Tree

def maxLinks : Nat := 40

/-- The longest name and the longest path, in bytes. -/
def maxNameBytes : Nat := 255

def maxPathBytes : Nat := 4095

/-- The names of a path. A slash at the end asks for a directory, as a last `.` does. -/
def steps (path : Text) : List Text :=
  (path.splitOn '/').filter (fun name => !name.isEmpty) ++
    if path.getLast? = some '/' then [Path.current] else []

/-- Where a path begins, when its relative form begins at `place`. -/
def origin (place : Place) (path : Text) : Place :=
  if Path.isAbsolute path then [] else place

/-- Follows names from a place. At a link that is to be followed, `goOn` goes on with the names of
its target and those that are left. -/
def walkNames (tree : Tree) (follow : Bool)
    (goOn : Place → List Text → Except PathFault Destination) (place : Place) :
    List Text → Except PathFault Destination
  | [] => .ok (.found place)
  | name :: rest =>
    match tree.get? place with
    | none => .error .notFound
    | some entry =>
      if !entry.isDirectory then .error .notDirectory
      else if Utf8.size name > maxNameBytes then .error .nameTooLong
      else if name = Path.current then walkNames tree follow goOn place rest
      else if name = Path.parent then walkNames tree follow goOn place.tail rest
      else
        match tree.get? (name :: place) with
        | none => if rest.isEmpty then .ok (.missing place name) else .error .notFound
        | some (.link target) =>
          if rest.isEmpty && !follow then .ok (.found (name :: place))
          else if target.isEmpty then .error .notFound
          else goOn (origin place target) (steps target ++ rest)
        | some _ => walkNames tree follow goOn (name :: place) rest

/-- Follows names and a limited number of links. -/
def walk (tree : Tree) (follow : Bool) : Nat → Place → List Text → Except PathFault Destination
  | 0 => walkNames tree follow fun _ _ => .error .tooManyLinks
  | links + 1 => walkNames tree follow (walk tree follow links)

/-- Where a path leads. -/
def locate (tree : Tree) (follow : Bool) (path : Text) : Except PathFault Destination :=
  if path.contains '\x00' then .error .embeddedNul
  else if path.isEmpty then .error .notFound
  else if Utf8.size path > maxPathBytes then .error .nameTooLong
  else tree.walk follow maxLinks (origin tree.current path) (steps path)

/-- The entry a path leads to, with its place. -/
def entryAt (tree : Tree) (follow : Bool) (path : Text) : Except PathFault (Place × Entry) :=
  match tree.locate follow path with
  | .error fault => .error fault
  | .ok (.missing _ _) => .error .notFound
  | .ok (.found place) =>
    match tree.get? place with
    | some entry => .ok (place, entry)
    | none => .error .notFound

/-- The path, links followed, leads to an entry of a kind. -/
def holds (tree : Tree) (kind : Entry → Bool) (path : Text) : Bool :=
  match tree.entryAt true path with
  | .ok (_, entry) => kind entry
  | .error _ => false

def exists? (tree : Tree) (path : Text) : Bool := tree.holds (fun _ => true) path

def isDirectory (tree : Tree) (path : Text) : Bool := tree.holds Entry.isDirectory path

def isFile (tree : Tree) (path : Text) : Bool := tree.holds Entry.isFile path

/-- The place that names lead to when nothing on the way is a link. -/
def lexicalFrom (place : Place) (names : List Text) : Place :=
  names.foldl (fun place name =>
    if name = Path.current then place
    else if name = Path.parent then place.tail
    else name :: place) place

/-- The place that names lead to, where names that lead nowhere are kept. -/
def physicalNames (tree : Tree) (goOn : Place → List Text → Place) (place : Place) :
    List Text → Place
  | [] => place
  | name :: rest =>
    if name = Path.current then physicalNames tree goOn place rest
    else if name = Path.parent then physicalNames tree goOn place.tail rest
    else
      match tree.get? (name :: place) with
      | some (.link target) => goOn (origin place target) (steps target ++ rest)
      | _ => physicalNames tree goOn (name :: place) rest

/-- The place that names lead to with a limited number of links followed. -/
def physicalFrom (tree : Tree) : Nat → Place → List Text → Place
  | 0 => lexicalFrom
  | links + 1 => physicalNames tree (physicalFrom tree links)

/-- The place of a path with all links followed. -/
def physical (tree : Tree) (path : Text) : Place :=
  tree.physicalFrom maxLinks (origin tree.current path) (steps path)

/-- Two paths stand for the same place. -/
def samePlace (tree : Tree) (a b : Text) : Bool := tree.physical a = tree.physical b

end Tree

end HclTidy
