import HclTidy.CommandLine.Run
import HclTidy.Yaml.Reader

/-!
# The program

Takes the part of the file system that a command can look at as a tree, runs the command on it,
carries out what has changed, and prints the lines and the message of the command.
-/

set_option autoImplicit false

namespace HclTidy.Program

/-- The tree with the entry that stands at a place, if there is one. A link is taken with the path
of what it leads to, or with none when it leads nowhere. -/
def loadEntry (tree : Tree) (place : Place) : IO Tree := do
  let path := (Tree.pathOf place).str
  try
    let data ← (IO.FS.DirEntry.mk path "").root.symlinkMetadata
    match data.type with
    | .dir => pure (tree.set place (.directory Tree.defaultDirectoryMode))
    | .file =>
      let content ← IO.FS.readBinFile path
      pure (tree.set place (.file content.toList 0o644))
    | .symlink =>
      let target ← try pure (← IO.FS.realPath path).toString catch _ => pure ""
      pure (tree.set place (.link target.toList))
    | .other => pure (tree.set place .device)
  catch _ => pure tree

/-- The tree with every entry on the way along names, links followed. -/
partial def loadAlong (tree : Tree) (place : Place) : List Text → IO Tree
  | [] => pure tree
  | name :: rest =>
    if name = Path.current then loadAlong tree place rest
    else if name = Path.parent then loadAlong tree place.tail rest
    else do
      let tree ← loadEntry tree (name :: place)
      match tree.get? (name :: place) with
      | some (.link target) =>
        loadAlong tree (Tree.origin place target) (Tree.steps target ++ rest)
      | _ => loadAlong tree (name :: place) rest

/-- The tree with the entries of a directory, and with those of the visible directories below it
when `deep` is set. -/
partial def loadBelow (deep : Bool) (tree : Tree) (place : Place) : IO Tree := do
  let children ←
    try (IO.FS.DirEntry.mk (Tree.pathOf place).str "").root.readDir catch _ => pure #[]
  children.foldlM (fun tree child => do
    let name := child.fileName.toList
    let tree ← loadAlong tree place [name]
    let isDirectory := (tree.get? (name :: place)).any Entry.isDirectory
    if deep && isDirectory && name.head? ≠ some '.' then loadBelow deep tree (name :: place)
    else pure tree) tree

/-- The tree with what a path leads to. -/
def loadPath (deep : Bool) (tree : Tree) (path : Text) : IO Tree := do
  let tree ← loadAlong tree (Tree.origin tree.current path) (Tree.steps path)
  match tree.entryAt true path with
  | .ok (place, .directory _) => loadBelow deep tree place
  | _ => pure tree

/-- The paths that a command looks at. -/
def pathsOf : CommandLine.Command → List Text
  | .organize options =>
    let input := Cleanup.directoryOf options.input
    let output :=
      if options.outputDirectory.isEmpty then [options.input, input]
      else [options.outputDirectory]
    [options.configFile, input] ++ output ++ output.map (Path.join · Source.backupName)
      ++ Config.defaultNames
  | .checkConfig path => [path]
  | .version => []

def loadFor (current : String) (command : CommandLine.Command) : IO Tree := do
  let start : Tree := ⟨[([], .directory Tree.defaultDirectoryMode)], []⟩
  let names := Tree.steps current.toList
  let tree ← loadAlong start [] names
  let tree : Tree := { tree with current := names.reverse }
  let tree ←
    match command with
    | .organize options => loadPath options.recursive tree options.input
    | _ => pure tree
  (pathsOf command).foldlM (loadPath false) tree

def accessRight (bits : Nat) : IO.AccessRight :=
  ⟨bits.testBit 2, bits.testBit 1, bits.testBit 0⟩

def fileRight (mode : Nat) : IO.FileRight :=
  ⟨accessRight (mode / 64), accessRight (mode / 8 % 8), accessRight (mode % 8)⟩

/-- The place where a file was that has moved to another with the same name. -/
def movedFrom? (before after : Tree) (place : Place) (entry : Entry) : Option Place :=
  (before.entries.find? fun e =>
    e.1.head? = place.head? && e.2 = entry && (after.get? e.1).isNone).map Prod.fst

/-- Brings what stands at a place to its new state. -/
def store (before after : Tree) (place : Place) (entry : Entry) : IO Unit := do
  let path := (Tree.pathOf place).str
  match entry with
  | .directory mode =>
    IO.FS.createDir path
    IO.setAccessRights path (fileRight mode)
  | .file content mode =>
    let old := before.get? place
    if old.any Entry.isLink then IO.FS.removeFile path
    match movedFrom? before after place entry with
    | some source => IO.FS.rename (Tree.pathOf source).str path
    | none =>
      IO.FS.writeBinFile path ⟨content.toArray⟩
      if !old.any Entry.isFile then IO.setAccessRights path (fileRight mode)
  | _ => pure ()

/-- Carries out the difference between two trees: directories first, those above before those in
them, then files, then what is no longer there. -/
def storeChanges (before after : Tree) : IO Unit := do
  let changed := (after.entries.filter fun e => before.get? e.1 ≠ some e.2).mergeSort
    fun a b => a.1.length ≤ b.1.length
  let (directories, files) := changed.partition fun e => e.2.isDirectory
  (directories ++ files).forM fun e => store before after e.1 e.2
  before.entries.forM fun e => do
    if (after.get? e.1).isNone then
      try IO.FS.removeFile (Tree.pathOf e.1).str catch _ => pure ()

def usage : String :=
  "usage: " ++ CommandLine.programName ++ " [-h] [-v] run|plan|validate-config|version ..."

def report (ending : CommandLine.Ending) : IO UInt32 := do
  match ending with
  | .success => pure ()
  | .refused message => IO.eprintln message
  | .stopped .help => IO.println usage
  | .stopped .unusable => IO.eprintln usage
  | .brokenOff cause => IO.eprintln cause.message
  pure (UInt32.ofNat ending.status)

end HclTidy.Program

open HclTidy in
def main (arguments : List String) : IO UInt32 := do
  let arguments := arguments.map String.toList
  let before ←
    match CommandLine.Invocation.ofArguments arguments with
    | .ok invocation => Program.loadFor (← IO.currentDir).toString invocation.command
    | .error _ => pure ⟨[], []⟩
  let outcome := CommandLine.run ⟨"none", "native"⟩ ⟨Yaml.reader, .none⟩ before arguments
  Program.storeChanges before outcome.tree
  outcome.lines.forM (IO.println ·)
  Program.report outcome.ending
