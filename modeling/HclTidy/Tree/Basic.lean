import HclTidy.Text.Quoted
import HclTidy.Text.Utf8

/-!
# Directory trees

A tree maps places to entries. A place is the list of names on the way to an entry, innermost first,
so that the directory of a place is its tail and the root is the empty list. Every place other than
the root lies in a directory of the tree.

A tree shows names, links, contents and modes. It does not show that two names stand for one file
(hard links), and nobody is refused anything for a mode. What fails on a device or for a missing
permission is not seen in a tree either: the faults of a device are given along with it.
-/

set_option autoImplicit false

namespace HclTidy

abbrev Place := List Text

inductive Entry where
  | file (content : Bytes) (mode : Nat)
  | directory (mode : Nat)
  | link (target : Text)
  /-- A device: it reads as empty and keeps nothing that is written. -/
  | device
deriving Repr, DecidableEq

namespace Entry

def isDirectory : Entry → Bool
  | directory _ => true
  | _ => false

def isFile : Entry → Bool
  | file _ _ => true
  | _ => false

def isLink : Entry → Bool
  | link _ => true
  | _ => false

end Entry

/-- Why an operation on a path fails. -/
inductive PathFault where
  | notFound
  | alreadyExists
  | notDirectory
  | isDirectory
  | nameTooLong
  | tooManyLinks
  /-- A path with a NUL is refused before any file is looked at. -/
  | embeddedNul
  /-- An error of the system that is not due to the path, such as a full disk. -/
  | system (number : Nat) (text : String)
deriving Repr, DecidableEq

/-- A failed operation on a path, or on two paths when something is renamed. -/
structure FileError where
  fault : PathFault
  path : Text
  target : Option Text
deriving Repr, DecidableEq

namespace PathFault

def description : PathFault → String
  | notFound => "[Errno 2] No such file or directory"
  | alreadyExists => "[Errno 17] File exists"
  | notDirectory => "[Errno 20] Not a directory"
  | isDirectory => "[Errno 21] Is a directory"
  | nameTooLong => "[Errno 36] File name too long"
  | tooManyLinks => "[Errno 40] Too many levels of symbolic links"
  | embeddedNul => "embedded null byte"
  | system number text => "[Errno " ++ toString number ++ "] " ++ text

end PathFault

namespace FileError

def message (e : FileError) : String :=
  match e.fault, e.target with
  | .embeddedNul, _ => e.fault.description
  | fault, none => fault.description ++ ": " ++ Text.quoted e.path
  | fault, some target =>
    fault.description ++ ": " ++ Text.quoted e.path ++ " -> " ++ Text.quoted target

/-- The operation was refused by the file system, not for the spelling of the path. -/
def isSystemError (e : FileError) : Bool := e.fault ≠ .embeddedNul

end FileError

/-- The operations of a run that fail although the tree allows them, by the paths that they are asked
for: the device is full or damaged, or a permission is missing. -/
structure Faults where
  /-- Listing a directory. -/
  listing : Text → Option PathFault
  /-- Reading a source file. -/
  reading : Text → Option PathFault
  /-- Creating a directory. -/
  creating : Text → Option PathFault
  /-- Reading a file that is to be written. -/
  comparing : Text → Option PathFault
  /-- Opening a file to write. -/
  opening : Text → Option PathFault
  /-- Writing to a file that has been opened and emptied: how many bytes have been written by then. -/
  writing : Text → Option (Nat × PathFault)
  /-- Moving a file to another path. -/
  moving : Text → Option PathFault
  /-- Removing a file. -/
  removing : Text → Option PathFault

namespace Faults

/-- Nothing fails that the tree allows. -/
def none : Faults :=
  ⟨fun _ => .none, fun _ => .none, fun _ => .none, fun _ => .none, fun _ => .none, fun _ => .none,
    fun _ => .none, fun _ => .none⟩

/-- What an operation gives, unless there is a fault. -/
def guard {α : Type} (fault : Option PathFault) (path : Text) (target : Option Text) (value : α) :
    Except FileError α :=
  match fault with
  | .none => .ok value
  | some fault => .error ⟨fault, path, target⟩

end Faults

structure Tree where
  entries : List (Place × Entry)
  /-- The current directory. -/
  current : Place
deriving Repr, DecidableEq

namespace Tree

def get? (tree : Tree) (place : Place) : Option Entry := tree.entries.lookup place

/-- The tree with an entry at a place, instead of one that is there. -/
def set (tree : Tree) (place : Place) (entry : Entry) : Tree :=
  { tree with
    entries := (place, entry) :: tree.entries.filter fun e => e.1 ≠ place }

def erase (tree : Tree) (place : Place) : Tree :=
  { tree with entries := tree.entries.filter fun e => e.1 ≠ place }

/-- The names in a directory, in increasing order, with their entries. -/
def children (tree : Tree) (place : Place) : List (Text × Entry) :=
  (tree.entries.filterMap fun e =>
    match e.1 with
    | name :: parent => if parent = place then some (name, e.2) else none
    | [] => none).mergeSort fun a b => a.1.le b.1

/-- The spelling of a place from the root. -/
def pathOf (place : Place) : Text :=
  if place.isEmpty then ['/'] else place.reverse.flatMap fun name => '/' :: name

theorem lookup_filter_ne {place other : Place} (h : other ≠ place)
    (entries : List (Place × Entry)) :
    (entries.filter fun e => e.1 ≠ place).lookup other = entries.lookup other := by
  induction entries with
  | nil => rfl
  | cons e rest ih =>
    obtain ⟨key, entry⟩ := e
    by_cases hp : key = place
    · have hq : (other == key) = false := by simpa [hp] using h
      rw [List.filter_cons_of_neg (by simpa using hp), ih, List.lookup_cons, hq]
    · rw [List.filter_cons_of_pos (by simpa using hp), List.lookup_cons, List.lookup_cons, ih]

theorem lookup_filter_self (place : Place) (entries : List (Place × Entry)) :
    (entries.filter fun e => e.1 ≠ place).lookup place = none := by
  induction entries with
  | nil => rfl
  | cons e rest ih =>
    obtain ⟨key, entry⟩ := e
    by_cases hp : key = place
    · rw [List.filter_cons_of_neg (by simpa using hp), ih]
    · have hq : (place == key) = false := by simpa using fun h : place = key => hp h.symm
      rw [List.filter_cons_of_pos (by simpa using hp), List.lookup_cons, hq]
      exact ih

theorem get?_set_self (tree : Tree) (place : Place) (entry : Entry) :
    (tree.set place entry).get? place = some entry := by
  simp [set, get?]

theorem get?_set_of_ne (tree : Tree) {place other : Place} (entry : Entry) (h : other ≠ place) :
    (tree.set place entry).get? other = tree.get? other := by
  have hb : (other == place) = false := by simpa using h
  simp only [set, get?, List.lookup_cons, hb]
  exact lookup_filter_ne h _

theorem get?_erase_self (tree : Tree) (place : Place) : (tree.erase place).get? place = none :=
  lookup_filter_self place _

theorem get?_erase_of_ne (tree : Tree) {place other : Place} (h : other ≠ place) :
    (tree.erase place).get? other = tree.get? other :=
  lookup_filter_ne h _

end Tree

end HclTidy
