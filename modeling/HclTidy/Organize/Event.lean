import HclTidy.Organize.Error

/-!
# What a run reports

The events of a run in the order in which they happen, and the notices that each one gives.
-/

set_option autoImplicit false

namespace HclTidy

inductive Event where
  /-- A notice on the inside of a source or output text. -/
  | detail (notice : Notice)
  | loadingConfig (path : Text)
  | parsingFile (path : Text)
  | foundBlocks (count : Nat)
  | scanning (recursive : Bool) (path : Text)
  | skippedLink (path : Text)
  | skippedUnsafe (path : Text) (error : PathError)
  | skippedFile (path : Text) (error : SourceError)
  | processed (path : Text) (count : Nat)
  | foundFiles (files blocks : Nat)
  | nothingFound
  | grouped (count : Nat)
  | wouldCreate (path blockType subType : Text) (count : Nat)
  | unchanged (path : Text)
  | created (path : Text)
  | noLongerProduced (path : Text)
  | backedUp (source target : Text)
  | removed (path : Text)
  | planned (inPlace backup : Bool)
  | organized (directory : Text) (backup : Bool) (cleaned : Nat)
deriving Repr, DecidableEq

namespace Event

def notices : Event → List Notice
  | detail notice => [notice]
  | loadingConfig path => [.info ("Loading configuration from: " ++ path.str)]
  | parsingFile path => [.info ("Parsing Terraform file: " ++ path.str)]
  | foundBlocks count => [.info ("Found " ++ toString count ++ " blocks")]
  | scanning recursive path =>
    [.info ("Scanning directory " ++ (if recursive then "recursively " else "")
      ++ "for Terraform files: " ++ path.str)]
  | skippedLink path => [.warning ("Warning: skipping symbolic link: " ++ path.str)]
  | skippedUnsafe path error =>
    [.warning ("Warning: skipping unsafe path " ++ path.str ++ ": " ++ error.message)]
  | skippedFile path error =>
    [.warning ("Warning: failed to parse " ++ path.str ++ ": " ++ error.message)]
  | processed path count =>
    [.info ("  Processed: " ++ path.str ++ " (" ++ toString count ++ " blocks)")]
  | foundFiles files blocks =>
    [.info ("Found " ++ toString files ++ " .tf files with " ++ toString blocks ++ " total blocks")]
  | nothingFound => [.info "No Terraform blocks found to organize"]
  | grouped count => [.info ("Organized into " ++ toString count ++ " file groups")]
  | wouldCreate path blockType subType count =>
    [.info ("Would create file: " ++ path.str), .info ("  Block type: " ++ blockType.str)]
      ++ (if subType.isEmpty then [] else [.info ("  Sub type: " ++ subType.str)])
      ++ [.info ("  Number of blocks: " ++ toString count), .info ""]
  | unchanged path => [.debug ("Unchanged: " ++ path.str)]
  | created path => [.info ("Created file: " ++ path.str)]
  | noLongerProduced path => [.debug ("Generated file no longer produced: " ++ path.str)]
  | backedUp source target => [.info ("  Backed up: " ++ source.str ++ " -> " ++ target.str)]
  | removed path => [.info ("  Removed: " ++ path.str)]
  | planned inPlace backup =>
    [.info ("Dry run completed. Use the run command to actually create files"
      ++ (if inPlace then " and " ++ (if backup then "backup" else "remove") ++ " source files."
          else "."))]
  | organized directory backup cleaned =>
    [.info ("Successfully organized Terraform files into: " ++ directory.str
      ++ (if cleaned = 0 then ""
          else " (" ++ (if backup then "backed up " else "removed ") ++ toString cleaned
            ++ " source files)"))]

end Event

end HclTidy
