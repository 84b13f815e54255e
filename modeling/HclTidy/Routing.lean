import HclTidy.Block.Basic
import HclTidy.Config.Basic
import HclTidy.Notice

/-!
# Routing blocks to files

A block is looked up in the configuration by its candidates, from the most specific to the least. If
no group accepts one of them, or the group's file is excluded, the block goes to the default file of
its type.
-/

set_option autoImplicit false

namespace HclTidy.Block

/-- The block types whose first label is matched by patterns. -/
def subTyped : List Text :=
  ["resource".toList, "data".toList, "module".toList, "provider".toList, "variable".toList,
   "output".toList]

/-- The first label of a block of a sub-typed type, empty for the others. -/
def subType (b : Block) : Text :=
  if subTyped.contains b.type then b.labels.headD [] else []

/-- The keys a block is looked up by: type, sub type and name; type and sub type; sub type; type. -/
def candidates (b : Block) : List Text :=
  let sub := b.subType
  let named :=
    match b.labels with
    | _ :: name :: _ => [b.type ++ '.' :: sub ++ '.' :: name]
    | _ => []
  if sub.isEmpty then [b.type] else named ++ [b.type ++ '.' :: sub, sub, b.type]

/-- The types that have one default file for each first label. -/
def filePerLabel : List Text := ["resource".toList, "data".toList, "module".toList]

/-- The types that have one default file. -/
def fixedFiles : List (Text × Text) :=
  [("provider".toList, "providers.tf".toList), ("variable".toList, "variables.tf".toList),
   ("output".toList, "outputs.tf".toList), ("locals".toList, "locals.tf".toList),
   ("terraform".toList, "terraform.tf".toList)]

def extension : Text := ".tf".toList

/-- The file of a block that no group takes. -/
def defaultFile (b : Block) : Text :=
  if filePerLabel.contains b.type then
    match b.labels with
    | label :: _ => b.type ++ '_' :: '_' :: FileName.sanitize label ++ extension
    | [] => b.type ++ extension
  else
    match fixedFiles.lookup b.type with
    | some name => name
    | none => FileName.sanitize b.type ++ extension

end HclTidy.Block

namespace HclTidy.Config

/-- The first candidate that a group accepts, with the group. -/
def firstMatch? (config : Config) : List Text → Option (Text × Group)
  | [] => none
  | candidate :: rest =>
    match config.groupFor? candidate with
    | some group => some (candidate, group)
    | none => firstMatch? config rest

/-- The file that a block goes to. -/
def fileFor (config : Config) (b : Block) : Text :=
  match config.firstMatch? b.candidates with
  | some (_, group) => if config.isExcluded group.fileName then b.defaultFile else group.fileName
  | none => b.defaultFile

def routeNotices (config : Config) (b : Block) : List Notice :=
  match config.firstMatch? b.candidates with
  | some (candidate, group) =>
    if config.isExcluded group.fileName then
      [.debug ("Group file " ++ group.fileName.str ++ " is excluded, using default route for "
        ++ candidate.str)]
    else []
  | none => []

end HclTidy.Config
