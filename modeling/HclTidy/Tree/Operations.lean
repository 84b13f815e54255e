import HclTidy.Tree.Lookup

/-!
# Changing a tree

Reading, writing, renaming and removing files, and creating and listing directories. An operation
either fails and leaves the tree as it was, or returns the new tree. Only `makeDirectories` may have
created some directories when it fails at a later one, and `overwrite` have emptied the file when the
write is broken off.
-/

set_option autoImplicit false

namespace HclTidy.Tree

def failure (path : Text) (fault : PathFault) : FileError := ⟨fault, path, none⟩

/-- The bytes of the file a path leads to. -/
def readFile (tree : Tree) (path : Text) : Except FileError Bytes :=
  match tree.entryAt true path with
  | .error fault => .error (failure path fault)
  | .ok (_, .file content _) => .ok content
  | .ok (_, .directory _) => .error (failure path .isDirectory)
  | .ok (_, _) => .ok []

/-- The file a path leads to is opened, emptied and written to, and holds the bytes afterwards. A new
file gets the mode; one that is there keeps its own. -/
def writeFile (tree : Tree) (path : Text) (mode : Nat) (content : Bytes) : Except FileError Tree :=
  match tree.locate true path with
  | .error fault => .error (failure path fault)
  | .ok (.missing parent name) => .ok (tree.set (name :: parent) (.file content mode))
  | .ok (.found place) =>
    match tree.get? place with
    | some (.file _ kept) => .ok (tree.set place (.file content kept))
    | some (.directory _) => .error (failure path .isDirectory)
    | _ => .ok tree

/-- How a file is not overwritten: it cannot be opened, or writing to it is broken off. -/
inductive WriteFault where
  | refused (error : FileError)
  | brokenOff (fault : PathFault)
deriving Repr, DecidableEq

/-- Overwrites the file a path leads to. When writing is broken off, the file holds the bytes that
have been written by then, and nothing of what it has held before. -/
def overwrite (faults : Faults) (tree : Tree) (path : Text) (mode : Nat) (content : Bytes) :
    Tree × Option WriteFault :=
  let reached := (faults.writing path).elim content fun broken => content.take broken.1
  match tree.writeFile path mode reached >>= Faults.guard (faults.opening path) path none with
  | .error error => (tree, some (.refused error))
  | .ok tree => (tree, (faults.writing path).map fun broken => .brokenOff broken.2)

/-- The path without the slashes at its end. -/
def withoutEndSlashes (path : Text) : Text :=
  let front := (path.reverse.dropWhile (· = '/')).reverse
  if front.isEmpty then path else front

def makeDirectory (faults : Faults) (tree : Tree) (path : Text) (mode : Nat) :
    Except FileError Tree :=
  match tree.locate false (withoutEndSlashes path) with
  | .error fault => .error (failure path fault)
  | .ok (.found _) => .error (failure path .alreadyExists)
  | .ok (.missing parent name) =>
    Faults.guard (faults.creating path) path none (tree.set (name :: parent) (.directory mode))

/-- The mode of directories that are created on the way to another. -/
def defaultDirectoryMode : Nat := 0o755

/-- The path before the last name and the last name, slashes at the end disregarded. -/
def splitLast (path : Text) : Text × Text :=
  let tail := Path.baseName path
  if tail.isEmpty then (Path.dirName (Path.dirName path), Path.baseName (Path.dirName path))
  else (Path.dirName path, tail)

/-- Creates a directory and those above it that are missing. A directory that exists is no error;
what else is there is. -/
def makeDirectories (faults : Faults) (tree : Tree) (path : Text) (mode : Nat) :
    Tree × Option FileError :=
  let head := (splitLast path).1
  let last := (splitLast path).2
  let isMissing := !head.isEmpty && !last.isEmpty && !tree.exists? head
  let above : Tree × Option FileError :=
    if _h : (splitLast path).1.length < path.length then
      if isMissing then
        match makeDirectories faults tree (splitLast path).1 defaultDirectoryMode with
        | (tree, some e) => if e.fault = .alreadyExists then (tree, none) else (tree, some e)
        | (tree, none) => (tree, none)
      else (tree, none)
    else (tree, none)
  match above with
  | (tree, some e) => (tree, some e)
  | (tree, none) =>
    if isMissing && last = Path.current then (tree, none)
    else
      match tree.makeDirectory faults path mode with
      | .ok tree => (tree, none)
      | .error e =>
        if e.isSystemError && tree.isDirectory path then (tree, none) else (tree, some e)
termination_by path.length

/-- Removes a file or a link. -/
def removeFile (faults : Faults) (tree : Tree) (path : Text) : Except FileError Tree :=
  match tree.entryAt false path with
  | .error fault => .error (failure path fault)
  | .ok (_, .directory _) => .error (failure path .isDirectory)
  | .ok (place, _) => Faults.guard (faults.removing path) path none (tree.erase place)

/-- Moves the entry at a place to where a path leads. -/
def move (tree : Tree) (old : Place) (entry : Entry) : Destination → Except PathFault Tree
  | .missing parent name => .ok ((tree.erase old).set (name :: parent) entry)
  | .found new =>
    if new = old then .ok tree
    else
      match tree.get? new with
      | some (.directory _) => .error .isDirectory
      | _ => .ok ((tree.erase old).set new entry)

/-- Moves a file or a link to another path, over a file or link that is there. -/
def rename (faults : Faults) (tree : Tree) (source target : Text) : Except FileError Tree :=
  (do
    let start ← tree.locate false source
    let destination ← tree.locate false target
    match start with
    | .missing _ _ => .error .notFound
    | .found old =>
      match tree.get? old with
      | some entry => tree.move old entry destination
      | none => .error .notFound).mapError (fun fault => ⟨fault, source, some target⟩)
    >>= Faults.guard (faults.moving source) source (some target)

/-- The names and entries in the directory a path leads to, in the order of the names. -/
def list (tree : Tree) (path : Text) : Except FileError (List (Text × Entry)) :=
  match tree.entryAt true path with
  | .error fault => .error (failure path fault)
  | .ok (place, .directory _) => .ok (tree.children place)
  | .ok (_, _) => .error (failure path .notDirectory)

end HclTidy.Tree
