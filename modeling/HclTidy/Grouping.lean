import HclTidy.Block.Render
import HclTidy.Routing

/-!
# Grouping blocks into output files

All blocks of a run are sorted into output files, one group for each file name. Resources and data
sources must have distinct addresses. Groups come in the order of their file names and blocks within
a group in the order of their keys, so that the output does not depend on the order of the input.
-/

set_option autoImplicit false

namespace HclTidy

/-- The blocks of one output file; types and labels are those of the first block routed to it. -/
structure OutputFile where
  name : Text
  blockType : Text
  subType : Text
  blocks : List Block

/-- The order of blocks within a file. -/
structure SortKey where
  name : Text
  rawBody : Text
  leadingComments : Text
deriving Repr, DecidableEq

namespace SortKey

/-- Lexicographic order. -/
def le (a b : SortKey) : Bool :=
  if a.name = b.name then
    if a.rawBody = b.rawBody then a.leadingComments.le b.leadingComments
    else a.rawBody.le b.rawBody
  else a.name.le b.name

end SortKey

/-- Type and labels joined by underscores, then the raw body, then the comments. -/
def Block.sortKey (b : Block) : SortKey :=
  ⟨b.type ++ b.labels.flatMap fun label => '_' :: label, b.rawBody, b.leadingComments⟩

/-- Two blocks that have the same address, and the files they come from. -/
structure DuplicateAddress where
  address : Text
  firstFile : Text
  secondFile : Text
deriving Repr, DecidableEq

def DuplicateAddress.message (d : DuplicateAddress) : String :=
  "duplicate resource name '" ++ d.address.str ++ "' found"

def DuplicateAddress.notice (d : DuplicateAddress) : Notice :=
  .debug (d.address.str ++ " declared in both " ++ d.firstFile.str ++ " and " ++ d.secondFile.str)

namespace Grouping

/-- The first block whose address an earlier one has; `seen` holds the addresses of the earlier
blocks with their files. -/
def findDuplicate? (seen : List (Text × Text)) : List Block → Option DuplicateAddress
  | [] => none
  | b :: rest =>
    match b.address? with
    | none => findDuplicate? seen rest
    | some address =>
      match seen.lookup address with
      | some file => some ⟨address, file, b.file⟩
      | none => findDuplicate? ((address, b.file) :: seen) rest

/-- The blocks of each output file, files in the order of their first blocks. -/
def collect (config : Config) (blocks : List Block) : List OutputFile :=
  let routed := blocks.map fun b => (config.fileFor b, b)
  (routed.map Prod.fst).eraseDups.filterMap fun name =>
    let own := (routed.filter fun r => r.1 = name).map Prod.snd
    own.head?.map fun first => ⟨name, first.type, first.subType, own⟩

/-- Files by name, and blocks by key within a file; equal keys keep their order. -/
def sort (files : List OutputFile) : List OutputFile :=
  (files.map fun f =>
    { f with blocks := f.blocks.mergeSort fun a b => a.sortKey.le b.sortKey }).mergeSort
    fun a b => a.name.le b.name

/-- The output files for all blocks of a run. -/
def ofBlocks (config : Config) (blocks : List Block) : Except DuplicateAddress (List OutputFile) :=
  match findDuplicate? [] blocks with
  | some duplicate => .error duplicate
  | none => .ok (sort (collect config blocks))

def notices (config : Config) (blocks : List Block) : List Notice :=
  match findDuplicate? [] blocks with
  | some duplicate => [duplicate.notice]
  | none => blocks.flatMap config.routeNotices

end Grouping

/-- The text of an output file. -/
def OutputFile.text (f : OutputFile) : Text := Block.renderAll f.blocks

end HclTidy
