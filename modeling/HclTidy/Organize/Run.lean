import HclTidy.Organize.Event
import HclTidy.Tree.Operations

/-!
# An organize run

A run reads the source files of an input, groups all their blocks, writes one file for each group
and, when it writes in place, removes the sources that no group is written to or moves them to a
backup directory. It works on a tree; what it has changed and reported before a failure remains.

How a configuration is decoded and what fails on the device are given with the request: a run is the
same for every reader and all faults.
-/

set_option autoImplicit false

namespace HclTidy

/-- The system that a run is carried out on: the reader of configuration documents that is installed
there, and what fails on its device. -/
structure Host where
  reader : Config.Reader
  faults : Faults

/-- What is asked of a run. -/
structure Options where
  input : Text
  outputDirectory : Text
  configFile : Text
  dryRun : Bool
  recursive : Bool
  backup : Bool
deriving Repr, DecidableEq

structure Request extends Options where
  host : Host

/-- The outcome of a run: counts, and the paths of output files and of cleaned sources. -/
structure Report where
  processedFiles : Nat
  totalBlocks : Nat
  outputFiles : Nat
  outputDirectory : Text
  dryRun : Bool
  written : List Text
  unchanged : List Text
  cleaned : List Text
deriving Repr, DecidableEq

/-- The tree as a run has left it and its events, latest first. -/
structure Session where
  tree : Tree
  events : List Event

/-- A stage of a run, which may fail; the session up to a failure is kept. -/
abbrev Run := ExceptT Failure (StateM Session)

namespace Run

def emit (event : Event) : Run Unit := modify fun s => { s with events := event :: s.events }

def emitDetails (notices : List Notice) : Run Unit :=
  modify fun s => { s with events := (notices.map Event.detail).reverse ++ s.events }

def tree : Run Tree := do return (← get).tree

def setTree (tree : Tree) : Run Unit := modify fun s => { s with tree := tree }

/-- The value of an operation on a path, or the failure of its stage. -/
def require {α : Type} (wrap : FileError → Failure) : Except FileError α → Run α
  | .ok value => pure value
  | .error error => throw (.ofFile wrap error)

end Run

namespace Source

/-- Why a source file cannot be read as text. -/
inductive ReadFailure where
  | refused (error : FileError)
  | notText (fault : Utf8.Fault)

def readText (faults : Faults) (tree : Tree) (path : Text) : Except ReadFailure Text :=
  match tree.readFile path >>= Faults.guard (faults.reading path) path none with
  | .error error => .error (.refused error)
  | .ok bytes =>
    match Utf8.readText bytes with
    | .ok text => .ok text
    | .error fault => .error (.notText fault)

/-- The blocks of the file at a path. -/
def parse (faults : Faults) (path : Text) (keepSource : Bool) : Run ParsedFile := do
  match readText faults (← Run.tree) path with
  | .error (.refused error) =>
    throw (.ofFile (fun e => .source (.unreadable path e)) error)
  | .error (.notText fault) => throw (.source (.notText path fault))
  | .ok text =>
    match ParsedFile.ofText path keepSource text with
    | .ok (file, events) =>
      Run.emitDetails (ParseEvent.allNotices path events)
      pure file
    | .error failure =>
      Run.emitDetails (ParseEvent.allNotices path failure.events)
      throw (.ofParse path failure.error)

def extension : Text := ".tf".toList

def isSourceName (name : Text) : Bool := extension.isSuffixOf name

/-- The names and entries in a directory, in the order of the names. -/
def children (faults : Faults) (tree : Tree) (directory : Text) :
    Except FileError (List (Text × Entry)) :=
  tree.list directory >>= Faults.guard (faults.listing directory) directory none

/-- The source files directly in a directory, in the order of their names. -/
def listDirectory (faults : Faults) (directory : Text) : Run (List Text) := do
  let children ← Run.require (fun e => .organize (.unreadableDirectory e))
    (children faults (← Run.tree) directory)
  (children.filter fun c => isSourceName c.1).filterMapM fun (name, entry) => do
    let path := Path.join directory name
    match entry with
    | .link _ =>
      Run.emit (.skippedLink path)
      pure none
    | .file _ _ => pure (some path)
    | _ => pure none

/-- The name of the directory that takes the backups. -/
def backupName : Text := "backup".toList

/-- The source files in a directory and those below it, without hidden directories and the backup
directory `skipped`. Directories nest less deeply than there are entries in the tree. -/
def walkDirectory (faults : Faults) (skipped : Text) : Nat → Text → Run (List Text)
  | 0, _ => pure []
  | depth + 1, directory => do
    let tree ← Run.tree
    let children ← Run.require (fun e => .organize (.unreadableDirectory e))
      (children faults tree directory)
    let isDirectory (name : Text) : Bool := tree.isDirectory (Path.join directory name)
    let inner ← (children.filter fun c => isDirectory c.1).filterMapM fun (name, entry) => do
      let path := Path.join directory name
      if name.head? = some '.' || path = skipped then pure none
      else if entry.isLink then
        Run.emit (.skippedLink path)
        pure none
      else pure (some path)
    let own ← (children.filter fun c => !isDirectory c.1 && isSourceName c.1).filterMapM
      fun (name, entry) => do
        let path := Path.join directory name
        if entry.isLink then
          Run.emit (.skippedLink path)
          pure none
        else pure (some path)
    let below ← inner.mapM (walkDirectory faults skipped depth)
    pure (own ++ below.flatten)

/-- A file of a directory run; one that is unsafe or cannot be used is skipped with a warning. -/
def process (faults : Faults) (path : Text) : Run (Option ParsedFile) := do
  match PathCheck.check (PathCheck.currentPath (← Run.tree)) path with
  | .error error =>
    Run.emit (.skippedUnsafe path error)
    pure none
  | .ok () =>
    let parsed ← tryCatch (some <$> parse faults path true) fun failure =>
      match failure with
      | .source error => do
        Run.emit (.skippedFile path error)
        pure none
      | failure => throw failure
    match parsed with
    | some file => Run.emit (.processed path file.blocks.length)
    | none => pure ()
    pure parsed

/-- The parsed files of an input path. -/
def readInput (faults : Faults) (input : Text) (isDirectory recursive : Bool) :
    Run (List ParsedFile) := do
  if !isDirectory then
    Run.emit (.parsingFile input)
    let file ← parse faults input true
    Run.emit (.foundBlocks file.blocks.length)
    pure [file]
  else
    Run.emit (.scanning recursive input)
    let paths ←
      if recursive then
        walkDirectory faults (Path.join input backupName) ((← Run.tree).entries.length + 1) input
      else listDirectory faults input
    let files ← paths.filterMapM (process faults)
    Run.emit (.foundFiles files.length (files.flatMap ParsedFile.blocks).length)
    pure files

end Source

namespace Output

def fileMode : Nat := 0o600

def directoryMode : Nat := 0o750

/-- The bytes of the file at a path that is to be written, if there is one. -/
def existing? (faults : Faults) (tree : Tree) (path : Text) : Except FileError (Option Bytes) :=
  match tree.readFile path >>= Faults.guard (faults.comparing path) path none with
  | .ok bytes => .ok (some bytes)
  | .error error => if error.fault = .notFound then .ok none else .error error

/-- Writes one file; `true` when its content has changed. -/
def writeFile (faults : Faults) (directory : Text) (file : OutputFile) : Run Bool := do
  let path := Path.join directory file.name
  let wrap (e : FileError) : Failure := .write (.notWritten file.name e)
  Run.emitDetails (Block.renderAllNotices file.blocks)
  let content := Utf8.encode file.text
  let tree ← Run.tree
  if (← Run.require wrap (existing? faults tree path)) = some content then
    Run.emit (.unchanged path)
    pure false
  else
    let (tree, fault) := tree.overwrite faults path fileMode content
    Run.setTree tree
    match fault with
    | some (.refused error) => throw (.ofFile wrap error)
    | some (.brokenOff fault) => throw (.write (.brokenOff file.name fault))
    | none =>
      Run.emit (.created path)
      pure true

/-- The paths of the files that are written and of those that are left as they are. -/
def writeFiles (faults : Faults) (directory : Text) :
    List OutputFile → Run (List Text × List Text)
  | [] => pure ([], [])
  | file :: rest => do
    let path := Path.join directory file.name
    let changed ← writeFile faults directory file
    let (written, unchanged) ← writeFiles faults directory rest
    pure (if changed then (path :: written, unchanged) else (written, path :: unchanged))

/-- Creates the output directory and writes all files into it. -/
def write (faults : Faults) (directory : Text) (files : List OutputFile) :
    Run (List Text × List Text) := do
  match (← Run.tree).makeDirectories faults directory directoryMode with
  | (tree, some error) =>
    Run.setTree tree
    throw (.ofFile (fun e => .write (.noDirectory e)) error)
  | (tree, none) =>
    Run.setTree tree
    writeFiles faults directory files

/-- Reports the files that would be written. -/
def plan (directory : Text) (files : List OutputFile) : Run Unit :=
  files.forM fun file =>
    Run.emit (.wouldCreate (Path.join directory file.name) file.blockType file.subType
      file.blocks.length)

end Output

namespace Cleanup

def generatedFronts : List Text := ["resource__".toList, "data__".toList, "module__".toList]

def standardNames : List Text :=
  ["variables.tf".toList, "outputs.tf".toList, "providers.tf".toList, "terraform.tf".toList,
   "locals.tf".toList]

/-- The name is one that output files have by default. -/
def isGeneratedName (name : Text) : Bool :=
  generatedFronts.any (·.isPrefixOf name) || standardNames.contains name

/-- The directory of a path. -/
def directoryOf (path : Text) : Text :=
  let directory := Path.dirName path
  if directory.isEmpty then Path.current else directory

/-- A source is stale unless it lies in the output directory under one of the names that have been
generated. -/
def isStale (tree : Tree) (path outputDirectory : Text) (generated : List Text) : Bool :=
  !(tree.samePlace (directoryOf path) outputDirectory && generated.contains (Path.baseName path))

/-- The path of an earlier output file that is no longer generated. -/
def isLeftOver (tree : Tree) (path outputDirectory : Text) (generated : List Text) : Bool :=
  tree.samePlace (directoryOf path) outputDirectory && !generated.contains (Path.baseName path)
    && isGeneratedName (Path.baseName path)

/-- The stale ones among source files. -/
def staleSources (paths : List Text) (outputDirectory : Text) (generated : List Text) :
    Run (List Text) := do
  let tree ← Run.tree
  paths.filterM fun path => do
    if (directoryOf path).contains '\x00' || outputDirectory.contains '\x00' then
      throw (.breakdown .embeddedNul)
    if isLeftOver tree path outputDirectory generated then Run.emit (.noLongerProduced path)
    pure (isStale tree path outputDirectory generated)

def backUpOne (faults : Faults) (directory path : Text) : Run Unit := do
  let target := Path.join directory (Path.baseName path)
  Run.setTree (← Run.require (fun e => .organize (.notBackedUp path e))
    ((← Run.tree).rename faults path target))
  Run.emit (.backedUp path target)

/-- Moves sources into the backup directory. -/
def backUp (faults : Faults) (outputDirectory : Text) (paths : List Text) : Run Unit := do
  let directory := Path.join outputDirectory Source.backupName
  match (← Run.tree).makeDirectories faults directory Output.directoryMode with
  | (tree, some error) =>
    Run.setTree tree
    throw (.ofFile (fun e => .organize (.noBackupDirectory e)) error)
  | (tree, none) =>
    Run.setTree tree
    paths.forM (backUpOne faults directory)

def removeOne (faults : Faults) (path : Text) : Run Unit := do
  Run.setTree (← Run.require (fun e => .organize (.notRemoved path e))
    ((← Run.tree).removeFile faults path))
  Run.emit (.removed path)

end Cleanup

namespace Request

/-- The configuration of a run: the given file, else a default one in the current directory, else
the empty configuration. -/
def loadConfig (request : Request) : Run Config := do
  let tree ← Run.tree
  let path :=
    if request.configFile.isEmpty then Config.findDefault tree Path.current else request.configFile
  if path.isEmpty then pure .empty
  else
    Run.emit (.loadingConfig path)
    match Config.load request.host.reader tree path with
    | .ok config =>
      Run.emitDetails (config.loadNotices tree path)
      pure config
    | .error error => throw (.ofLoad error)

/-- The directory that holds the input. -/
def inputDirectory (request : Request) (isDirectory : Bool) : Text :=
  if isDirectory then request.input else Cleanup.directoryOf request.input

/-- The output files of all blocks. -/
def group (config : Config) (blocks : List Block) : Run (List OutputFile) := do
  Run.emitDetails (Grouping.notices config blocks)
  match Grouping.ofBlocks config blocks with
  | .ok files =>
    Run.emit (.grouped files.length)
    pure files
  | .error duplicate => throw (.duplicate duplicate)

/-- Writes the output files of a run and cleans up the sources. -/
def finish (request : Request) (inputDirectory outputDirectory : Text) (sources : List ParsedFile)
    (files : List OutputFile) : Run Report := do
  let (written, unchanged) ←
    if request.dryRun then do
      Output.plan outputDirectory files
      pure ([], [])
    else Output.write request.host.faults outputDirectory files
  let inPlace := (← Run.tree).samePlace outputDirectory inputDirectory
  let stale ←
    Cleanup.staleSources (sources.map ParsedFile.name) outputDirectory (files.map OutputFile.name)
  let cleaned := if !request.dryRun && inPlace then stale else []
  if !cleaned.isEmpty then
    if request.backup then Cleanup.backUp request.host.faults outputDirectory cleaned
    else cleaned.forM (Cleanup.removeOne request.host.faults)
  Run.emit
    (if request.dryRun then .planned inPlace request.backup
     else .organized outputDirectory request.backup cleaned.length)
  pure {
    processedFiles := sources.length
    totalBlocks := (sources.flatMap ParsedFile.blocks).length
    outputFiles := files.length
    outputDirectory := outputDirectory
    dryRun := request.dryRun
    written := written
    unchanged := unchanged
    cleaned := cleaned }

/-- The whole run. -/
def execute (request : Request) : Run Report := do
  let tree ← Run.tree
  if !tree.exists? request.input then throw (.organize (.noInput request.input))
  let isDirectory := tree.isDirectory request.input
  let inputDirectory := request.inputDirectory isDirectory
  let outputDirectory :=
    if request.outputDirectory.isEmpty then inputDirectory else request.outputDirectory
  let config ← request.loadConfig
  let sources ← Source.readInput request.host.faults request.input isDirectory request.recursive
  let blocks := sources.flatMap ParsedFile.blocks
  if blocks.isEmpty then
    Run.emit .nothingFound
    pure ⟨sources.length, 0, 0, outputDirectory, request.dryRun, [], [], []⟩
  else
    let files ← group config blocks
    request.finish inputDirectory outputDirectory sources files

end Request

end HclTidy
