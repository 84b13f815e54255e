import HclTidy.Proofs.Block.Characters
import HclTidy.Proofs.Organize.Ordered
import HclTidy.Proofs.Routing

/-!
# What becomes of the blocks

Every block of a run goes to one output file. Until that file is written the block stands in its
source, and from then on in the output file. A run that fails anywhere therefore loses a block only
when it loses both: its source, which may be overwritten or cleaned up, and the output file that it
goes to, which may not be written to the end, or be a device, or be overwritten or cleaned up itself
where links lead it astray.
-/

set_option autoImplicit false

namespace HclTidy

open Run

/-! ## Blocks in files -/

/-- A block is read, but for its layout, from the bytes of a file of some name. -/
def Block.IsIn (b : Block) (bytes : Bytes) : Prop :=
  ∃ text name parsed events, Utf8.readText bytes = .ok text ∧
    ParsedFile.ofText name true text = .ok (parsed, events) ∧ ∃ b' ∈ parsed.blocks, b.Alike b'

/-- Some file of the tree has the block. -/
def Tree.HoldsBlock (tree : Tree) (b : Block) : Prop :=
  ∃ place bytes mode, tree.get? place = some (.file bytes mode) ∧ b.IsIn bytes

theorem Block.Sound.alike_self {b : Block} (h : b.Sound) : b.Alike b := by
  obtain ⟨ws, gap, hbody⟩ := h.body
  have htokens := tokensOf?_textOf hbody.fits hbody.gap
  rw [← hbody.text] at htokens
  exact ⟨rfl, rfl, rfl, _, htokens, htokens⟩

/-- An output file has the blocks that it is made of. -/
theorem Output.isIn_content {file : OutputFile} (h : ∀ b ∈ file.blocks, b.Writable) {b : Block}
    (hb : b ∈ file.blocks) : b.IsIn (content file) := by
  obtain ⟨parsed, events, hparsed, halike⟩ :=
    Block.ofText_renderAll file.name fun b hb => (h b hb).sound
  obtain ⟨b', hb', hsame⟩ := Layout.exists_of_forall₂ halike b hb
  exact ⟨_, _, parsed, events, Block.readText_renderAll h, hparsed, b', hb', hsame⟩

theorem ParsedFile.blocks_of_empty {name : Text} {parsed : ParsedFile} {events : List ParseEvent}
    (h : ofText name true [] = .ok (parsed, events)) : parsed.blocks = [] := by
  obtain ⟨parsed', events', h', hblocks⟩ := Block.ofText_renderAll name (List.forall_mem_nil Block.Sound)
  have hempty : Block.renderAll [] = [] := by cbv
  rw [hempty, h] at h'
  cases h'
  cases parsed with
  | mk _ blocks =>
    cases hblocks
    rfl

section Source

variable {tree : Tree} {file : ParsedFile}

theorem ParsedFile.ReadFrom.writable (h : file.ReadFrom tree) : ∀ b ∈ file.blocks, b.Writable := by
  obtain ⟨bytes, text, events, -, htext, hparsed⟩ := h
  exact Block.writable_of_ofText (Utf8.not_mem_of_readText htext) hparsed

/-- A source file has its blocks. -/
theorem ParsedFile.ReadFrom.isIn (h : file.ReadFrom tree) {b : Block} (hb : b ∈ file.blocks) :
    ∃ bytes mode, tree.get? (tree.physical file.name) = some (.file bytes mode) ∧ b.IsIn bytes := by
  have hsound := (h.writable b hb).sound
  obtain ⟨bytes, text, events, hbytes, htext, hparsed⟩ := h
  obtain ⟨entry, -, hentry, ⟨mode, rfl⟩ | ⟨rfl, -⟩⟩ := Tree.readFile_ok hbytes
  · exact ⟨bytes, mode, hentry, text, file.name, file, events, htext, hparsed, b, hb,
      hsound.alike_self⟩
  · -- What reads as empty has no blocks.
    cases htext
    rw [ParsedFile.blocks_of_empty hparsed] at hb
    cases hb

end Source

/-- The contents of the files of a tree. -/
def Tree.contents (tree : Tree) : List Bytes :=
  tree.entries.filterMap fun e =>
    match e.2 with
    | .file content _ => some content
    | _ => none

/-- The types of the blocks of a text that can be parsed. -/
def Block.typesIn (name text : Text) : List Text :=
  ((ParsedFile.ofText name true text).toOption.map fun read => read.1.blocks.map Block.type).getD []

theorem Block.not_isIn_encode {b : Block} {text : Text} (hlines : '\r' ∉ text)
    (htypes : ∀ name, b.type ∉ typesIn name text) : ¬b.IsIn (Utf8.encode text) := by
  rintro ⟨_, name, parsed, events, htext, hparsed, b', hb', halike⟩
  rw [Utf8.readText_encode hlines] at htext
  obtain rfl := Except.ok.inj htext
  refine htypes name ?_
  rw [typesIn, hparsed, ← halike.type]
  exact List.mem_map_of_mem hb'

theorem Block.not_isIn_nil (b : Block) : ¬b.IsIn [] :=
  @not_isIn_encode b [] List.not_mem_nil fun name => by
    rw [show typesIn name [] = [] by cbv]
    exact List.not_mem_nil

/-- A tree does not have a block that no file in it has. -/
theorem Tree.not_holdsBlock {tree : Tree} {b : Block} (h : ∀ bytes ∈ tree.contents, ¬b.IsIn bytes) :
    ¬tree.HoldsBlock b := by
  rintro ⟨place, bytes, mode, hfile, hin⟩
  exact h bytes (List.mem_filterMap.mpr ⟨_, mem_of_lookup hfile, rfl⟩) hin

/-! ## Output files at places of their own -/

/-- Where neither a link nor a device is, none is when directories have been created. -/
theorem Tree.GainsDirectories.plain {tree start : Tree} (h : GainsDirectories tree start)
    {place : Place} (hplain : Output.Plain tree place) : Output.Plain start place := by
  intro entry hentry
  cases hold : tree.get? place with
  | some old =>
    rw [h.kept _ _ hold] at hentry
    cases hentry
    exact hplain _ hold
  | none =>
    obtain hnone | ⟨mode, hmode⟩ := h.gained _ hold
    · rw [hnone] at hentry
      cases hentry
    · rw [hmode] at hentry
      cases hentry
      exact .inr rfl

namespace Output

/-- Output files have names of their own in their directory, and their paths name files or
directories or nothing at all. -/
structure Apart (tree : Tree) (directory : Text) (files : List OutputFile) : Prop where
  distinct : (files.map OutputFile.name).Nodup
  no_slash : ∀ file ∈ files, '/' ∉ file.name
  plain : ∀ file ∈ files, Plain tree (tree.spot (Path.join directory file.name))

section Apart

variable {tree start tree' : Tree} {directory : Text} {files done : List OutputFile}

theorem Apart.sublist (h : Apart tree directory files) (hdone : done.Sublist files) :
    Apart tree directory done :=
  ⟨(hdone.map OutputFile.name).nodup h.distinct, fun file hfile => h.no_slash file (hdone.subset hfile),
    fun file hfile => h.plain file (hdone.subset hfile)⟩

theorem linkAt?_of_plain {place : Place} (h : Plain tree place) : tree.linkAt? place = none := by
  cases hentry : tree.get? place with
  | none => exact Tree.linkAt?_of_none hentry
  | some entry =>
    refine Tree.linkAt?_of_not_link hentry ?_
    cases entry with
    | link target => obtain h | h := h _ hentry <;> cases h
    | _ => rfl

/-- An output file whose path names no link lies under its name in its directory. -/
theorem place_eq {file : OutputFile} (hname : IsName file.name)
    (hplain : Plain tree (tree.spot (Path.join directory file.name))) :
    place tree directory file = file.name :: tree.physical directory := by
  rw [place, Tree.physical_eq_spot (linkAt?_of_plain hplain), Tree.spot_join tree directory hname]

/-- The output files that have been written are in their directory. -/
theorem holds_of_steps (hclosed : tree.Closed) (hapart : Apart tree directory done)
    (hgains : Tree.GainsDirectories tree start) (h : Steps (Writes directory) done start tree') :
    ∀ file ∈ done, IsName file.name ∧ ∃ mode,
      tree'.get? (file.name :: tree.physical directory) = some (.file (content file) mode) := by
  have hname := steps_isName (steps_touches h) (hgains.closed hclosed) hapart.no_slash
  have hplace : ∀ file ∈ done, place start directory file = file.name :: tree.physical directory := by
    intro file hfile
    rw [place_of_sameLinks hgains.sameLinks]
    exact place_eq (hname file hfile) (hapart.plain file hfile)
  intro file hfile
  rw [← hplace file hfile]
  refine ⟨hname file hfile, steps_holds h (hgains.closed hclosed) hfile (hgains.plain ?_)
    ((List.pairwise_map.mp hapart.distinct).imp_of_mem fun hearlier hlater hne _ heq => hne ?_)⟩
  · rw [hplace file hfile, ← Tree.spot_join tree directory (hname file hfile)]
    exact hapart.plain file hfile
  · rw [hplace _ hearlier, hplace _ hlater] at heq
    exact (List.cons.inj heq).1.symm

end Apart

end Output

/-! ## Clearing -/

section Finishes

variable {request : Request} {outputDirectory : Text} {paths : List Text} {files : List OutputFile}
  {tree tree' : Tree}

/-- A source that is not stale lies in the output directory under a generated name. -/
theorem Cleanup.isStale_eq_false_iff {generated : List Text} {path : Text} :
    isStale tree path outputDirectory generated = false ↔
      tree.physical (directoryOf path) = tree.physical outputDirectory ∧
        Path.baseName path ∈ generated := by
  rw [isStale, Bool.not_eq_false', Bool.and_eq_true, List.contains_iff_mem, Tree.samePlace,
    decide_eq_true_iff]

/-- A stale source is not where an output file is. -/
theorem Cleanup.ne_spot_of_isStale {between : Tree} (hlinks : Tree.SameLinks tree between) {path : Text}
    (hname : IsName (Path.baseName path))
    (hstale : isStale between path outputDirectory (files.map OutputFile.name) = true)
    {file : OutputFile} (hfile : file ∈ files) :
    file.name :: tree.physical outputDirectory ≠ tree.spot path := by
  intro heq
  rw [Tree.spot_eq_cons tree hname] at heq
  obtain ⟨hbase, hplace⟩ := List.cons.inj heq
  rw [isStale_eq_false_iff.mpr ⟨?_, hbase ▸ List.mem_map_of_mem hfile⟩] at hstale
  · cases hstale
  · rw [hlinks.physical, hlinks.physical, hplace]

/-- The backup of a source is not where an output file is. -/
theorem Cleanup.ne_backup
    (hbackup : request.backup = true →
      tree.linkAt? (tree.spot (Path.join outputDirectory Source.backupName)) = none)
    (name : Text) {directory base : Text} (hdirectory : directory ∈ request.backupTo outputDirectory) :
    name :: tree.physical outputDirectory ≠ base :: tree.physical directory := by
  intro heq
  obtain ⟨hbackups, rfl⟩ := Request.backupTo_eq hdirectory
  have hplace := (List.cons.inj heq).2
  rw [Tree.physical_eq_spot (hbackup hbackups),
    Tree.spot_join tree outputDirectory (by decide)] at hplace
  exact List.cons_ne_self _ _ hplace.symm

/-- Clearing leaves the output files that have been written where they are. -/
theorem Output.holds_of_clears {start between start' : Tree} {cleared : List Text}
    (hclosed : tree.Closed) (hpaths : tree.AreSources paths)
    (hapart : Apart tree outputDirectory files)
    (hbackup : request.backup = true →
      tree.linkAt? (tree.spot (Path.join outputDirectory Source.backupName)) = none)
    (hgains : Tree.GainsDirectories tree start)
    (hdone : Steps (Writes outputDirectory) files start between)
    (hsublist : cleared.Sublist paths)
    (hstale : ∀ path ∈ cleared,
      Cleanup.isStale between path outputDirectory (files.map OutputFile.name) = true)
    (hgains' : Tree.GainsDirectories between start')
    (hcleared : Steps (Cleanup.Clears (request.backupTo outputDirectory)) cleared start' tree') :
    ∀ file ∈ files, IsName file.name ∧ ∃ mode,
      tree'.get? (file.name :: tree.physical outputDirectory) = some (.file (content file) mode) := by
  intro file hfile
  obtain ⟨hname, mode, hmode⟩ := holds_of_steps hclosed hapart hgains hdone file hfile
  have htouched := steps_touches hdone
  have hlinks := sameLinks_of_touches hgains htouched hclosed
  refine ⟨hname, mode, ?_⟩
  rw [Cleanup.get?_of_clears hgains' hlinks hpaths (hasLeaf_of_touches hgains htouched hclosed)
    hsublist hcleared fun path hpath => ?_]
  · exact hgains'.kept _ _ hmode
  · exact ⟨Cleanup.ne_spot_of_isStale hlinks (hpaths.name path (hsublist.subset hpath))
      (hstale path hpath) hfile, fun _ hdirectory => Cleanup.ne_backup hbackup _ hdirectory⟩

end Finishes

/-! ## What a run leaves of a source and of an output file -/

/-- Paths that stand for the same places are spared alike. -/
theorem Cleanup.Spares.sameLinks {backup : Option Text} {tree start : Tree} {paths : List Text}
    {place : Place} (h : Spares backup tree paths place) (hlinks : Tree.SameLinks tree start) :
    Spares backup start paths place := by
  refine ⟨fun hnone path hpath => ?_, fun directory hdirectory path hpath heq => ?_, fun hsome => ?_⟩
  · rw [hlinks.spot]
    exact h.removed hnone path hpath
  · rw [hlinks.physical] at heq
    rw [hlinks.spot]
    exact h.target directory hdirectory path hpath heq
  · simp only [hlinks.spot]
    exact h.later hsome

theorem Cleanup.isStale_of_sameLinks {tree between : Tree} (hlinks : Tree.SameLinks tree between)
    (path outputDirectory : Text) (generated : List Text) :
    isStale between path outputDirectory generated = isStale tree path outputDirectory generated := by
  rw [isStale, isStale, hlinks.samePlace]

namespace Request

/-- The stale ones among the sources of a run on a tree. -/
def stale (request : Request) (tree : Tree) : List Text :=
  ((request.sources tree).map ParsedFile.name).filter fun path =>
    Cleanup.isStale tree path (request.outputOn tree) ((request.outputs tree).map OutputFile.name)

/-- What a run has cleaned up when it ends with an outcome does not lose what is at a place. -/
def Spares (request : Request) (tree : Tree) (r : Except Failure Report) (place : Place) : Prop :=
  Cleanup.Spares (request.backupTo (request.outputOn tree)) tree
    (Cleanup.handled (request.stale tree) r) place

/-- When a run ends with an outcome, no output file that it has opened leads to a source, and what it has
cleaned up does not lose it. -/
structure SourceStays (request : Request) (tree : Tree) (r : Except Failure Report)
    (source : ParsedFile) : Prop where
  unwritten : ∀ file ∈ Output.begun (request.outputs tree) r,
    Output.place tree (request.outputOn tree) file ≠ tree.physical source.name
  spared : request.Spares tree r (tree.physical source.name)

/-- When a run ends with an outcome, it has written an output file to the end, and to no device, it has
not opened a later one that leads to the same place, and what it has cleaned up does not lose it. -/
structure OutputStays (request : Request) (tree : Tree) (r : Except Failure Report)
    (file : OutputFile) : Prop where
  completed : file ∈ Output.completed (request.outputs tree) r
  plain : Output.Plain tree (Output.place tree (request.outputOn tree) file)
  later : (Output.begun (request.outputs tree) r).Pairwise fun earlier later => earlier = file →
    Output.place tree (request.outputOn tree) later ≠
      Output.place tree (request.outputOn tree) earlier
  spared : request.Spares tree r (Output.place tree (request.outputOn tree) file)

section Stays

variable {request : Request} {tree tree' start between start' : Tree} {r : Except Failure Report}

/-- What clearing does not lose of what has been written is in the tree afterwards. -/
theorem exists_of_spares {stale cleared : List Text} (hwell : tree.WellFormed)
    (hgains : Tree.GainsDirectories tree start)
    (hdone : Steps (Output.Writes (request.outputOn tree)) (request.outputs tree) start between)
    (hstale : stale = ((request.sources tree).map ParsedFile.name).filter fun path =>
      Cleanup.isStale between path (request.outputOn tree)
        ((request.outputs tree).map OutputFile.name))
    (hgains' : Tree.GainsDirectories between start')
    (hhandled : stale.Nodup → cleared.Sublist (Cleanup.handled stale r)) (hfront : cleared <+: stale)
    (hcleared : Steps (Cleanup.Clears (request.backupTo (request.outputOn tree))) cleared start' tree')
    {place : Place} {entry : Entry} (hspares : request.Spares tree r place)
    (hentry : between.get? place = some entry) : ∃ reached, tree'.get? reached = some entry := by
  have htouched := Output.steps_touches hdone
  have hlinks := Output.sameLinks_of_touches hgains htouched hwell.closed
  simp only [Cleanup.isStale_of_sameLinks hlinks] at hstale
  obtain rfl : stale = request.stale tree := hstale
  have hsources := (areSources hwell).sublist (hfront.sublist.trans List.filter_sublist)
  exact Cleanup.steps_spares hcleared (fun _ => .refl _) hsources.name
    (Cleanup.pairwise_isLeaf hgains' hlinks hsources
      (Output.hasLeaf_of_touches hgains htouched hwell.closed))
    ((hspares.sublist (hhandled ((nodup_sources hwell).filter _))).sameLinks
      (hlinks.trans hgains'.sameLinks))
    (hgains'.kept _ _ hentry)

variable (hwell : tree.WellFormed) (hdistinct : ((request.outputs tree).map OutputFile.name).Nodup)
  (h : Finishes request (request.outputOn tree) ((request.sources tree).map ParsedFile.name)
    (request.outputs tree) r tree tree')
include hwell hdistinct h

/-- A source that stays is in the tree when the run has ended, if not where it has been. -/
theorem SourceStays.exists_entry {source : ParsedFile} (hstays : request.SourceStays tree r source)
    {entry : Entry} (hentry : tree.get? (tree.physical source.name) = some entry) :
    ∃ place, tree'.get? place = some entry := by
  obtain ⟨hunwritten, hspared⟩ := hstays
  cases h with
  | unchanged => exact ⟨_, hentry⟩
  | unopened hgains => exact ⟨_, hgains.kept _ _ hentry⟩
  | interrupted hgains hfiles hdone hinterrupts =>
    rw [hfiles] at hdistinct hunwritten
    obtain ⟨broken, -, hsublist, hbroken⟩ := hinterrupts.exists_begun hdistinct
    exact ⟨_, Output.get?_of_touches hgains ((Output.steps_touches hdone).append hbroken) hwell.closed
      hentry fun file hfile => (hunwritten file (hsublist.subset hfile)).symm⟩
  | settled hfails hgains hdone hstale hgains' hfront hhandled hcleared =>
    rw [Output.begun_eq hfails] at hunwritten
    exact exists_of_spares hwell hgains hdone hstale hgains' hhandled hfront hcleared hspared
      (Output.get?_of_touches hgains (Output.steps_touches hdone) hwell.closed hentry fun file hfile =>
        (hunwritten file hfile).symm)

/-- An output file that stays is in the tree with its content when the run has changed anything. -/
theorem OutputStays.exists_file {file : OutputFile} (hstays : request.OutputStays tree r file) :
    tree' = tree ∨ ∃ place mode, tree'.get? place = some (.file (Output.content file) mode) := by
  obtain ⟨hcompleted, hplain, hlater, hspared⟩ := hstays
  have hholds {done : List OutputFile} {start between : Tree}
      (hgains : Tree.GainsDirectories tree start)
      (hdone : Steps (Output.Writes (request.outputOn tree)) done start between) (hfile : file ∈ done)
      (hsublist : done.Sublist (Output.begun (request.outputs tree) r)) :
      ∃ mode, between.get? (Output.place tree (request.outputOn tree) file) =
        some (.file (Output.content file) mode) := by
    have hthere := Output.steps_holds hdone (hgains.closed hwell.closed) hfile
    simp only [Output.place_of_sameLinks hgains.sameLinks] at hthere
    exact hthere (hgains.plain hplain) (hlater.sublist hsublist)
  cases h with
  | unchanged => exact .inl rfl
  | @unopened error =>
    have hnone : Output.completed (request.outputs tree)
        (.error (.ofFile (fun e => .write (.noDirectory e)) error) : Except Failure Report) = [] := by
      unfold Failure.ofFile
      split <;> rfl
    rw [hnone] at hcompleted
    cases hcompleted
  | @interrupted failure _ start between _ done rest hgains hfiles hdone hinterrupts =>
    rw [hfiles] at hdistinct hcompleted hholds hlater
    obtain ⟨broken, hfront, hsublist, hbroken⟩ := hinterrupts.exists_begun hdistinct
    have hfile := hinterrupts.completed_subset hdistinct hcompleted
    obtain ⟨mode, hmode⟩ :=
      hholds hgains hdone hfile ((List.sublist_append_left _ _).trans hsublist)
    have htouched := Output.steps_touches hdone
    refine .inr ⟨_, mode, (Output.steps_get?_of_ne hbroken
      (Output.steps_closed htouched (hgains.closed hwell.closed)) fun other hother => ?_).trans hmode⟩
    rw [Output.place_of_sameLinks (Output.sameLinks_of_touches hgains htouched hwell.closed)]
    exact ((List.pairwise_append.mp (hlater.sublist hsublist)).2.2 file hfile other hother rfl).symm
  | settled hfails hgains hdone hstale hgains' hfront hhandled hcleared =>
    obtain ⟨mode, hmode⟩ := hholds hgains hdone (Output.completed_subset _ _ hcompleted)
      (by rw [Output.begun_eq hfails])
    obtain ⟨reached, hreached⟩ :=
      exists_of_spares hwell hgains hdone hstale hgains' hhandled hfront hcleared hspared hmode
    exact .inr ⟨reached, mode, hreached⟩

end Stays

end Request

namespace Request

variable {request : Request}

theorem hasValidNames_of_loadConfig {tree : Tree} {config : Config}
    (h : request.loadConfig.value tree = .ok config) : config.HasValidNames := by
  obtain ⟨session', h⟩ := result_of_value h
  unfold loadConfig at h
  obtain ⟨t, between, ht, h⟩ := result_bind_ok h
  cases ht
  extract_lets path at h
  clear_value path
  split at h
  · cases h
    exact Config.hasValidNames_empty
  · obtain ⟨⟨⟩, between, -, h⟩ := result_bind_ok h
    split at h
    · next hload =>
      obtain ⟨⟨⟩, between, -, h⟩ := result_bind_ok h
      cases h
      exact Config.hasValidNames_of_load hload
    · cases h

theorem writable_of_mem_blocks {tree : Tree} :
    ∀ b ∈ (request.sources tree).flatMap ParsedFile.blocks, b.Writable := by
  intro b hb
  obtain ⟨source, hsource, hb⟩ := List.mem_flatMap.mp hb
  exact (readFrom_of_mem_sources hsource).writable b hb

/-- The name of no output file leads to another directory. -/
theorem no_slash_outputs {tree : Tree} {config : Config}
    (hconfig : request.loadConfig.value tree = .ok config)
    (hgroups : Grouping.ofBlocks config ((request.sources tree).flatMap ParsedFile.blocks) =
      .ok (request.outputs tree)) : ∀ file ∈ request.outputs tree, '/' ∉ file.name := by
  exact (Grouping.distributes_of_ofBlocks hgroups).forall_name
    (p := fun name => '/' ∉ name) fun b _ =>
      Config.no_slash_fileFor (hasValidNames_of_loadConfig hconfig) b

/-- The output files of a run have names of their own, none of which leads to another directory. -/
theorem apart_outputs {tree : Tree} {config : Config}
    (hconfig : request.loadConfig.value tree = .ok config)
    (hgroups : Grouping.ofBlocks config ((request.sources tree).flatMap ParsedFile.blocks) =
      .ok (request.outputs tree))
    (houtput : ∀ file ∈ request.outputs tree,
      Output.Plain tree (tree.spot (Path.join (request.outputOn tree) file.name))) :
    Output.Apart tree (request.outputOn tree) (request.outputs tree) :=
  ⟨(Grouping.distributes_of_ofBlocks hgroups).distinct, no_slash_outputs hconfig hgroups, houtput⟩

/-- A block in a source. -/
theorem exists_of_any {tree : Tree} {type : Text}
    (h : ((request.sources tree).flatMap ParsedFile.blocks).any (fun b => b.type = type) = true) :
    ∃ source ∈ request.sources tree, ∃ b ∈ source.blocks, b.type = type := by
  obtain ⟨b, hb, htype⟩ := List.any_eq_true.mp h
  obtain ⟨source, hsource, hb⟩ := List.mem_flatMap.mp hb
  exact ⟨source, hsource, b, hb, of_decide_eq_true htype⟩

/-- A run fails, and the files that it leaves have these contents. -/
def FailsLeaving (failure : Failure) (contents : List (List UInt8))
    (run : Except Failure Report × Session) : Prop :=
  run.1 = .error failure ∧ run.2.tree.contents = contents

instance (failure : Failure) (contents : List (List UInt8)) :
    DecidablePred (FailsLeaving failure contents) :=
  fun run => inferInstanceAs (Decidable (run.1 = _ ∧ _))

/-- The system of a device that fails when a path is written, moved or removed. -/
def damagedAt (path : Text) : Host :=
  let fault (p : Text) : Option PathFault :=
    if p = path then some (.system 5 "Input/output error") else none
  ⟨Yaml.reader, { Faults.none with
    writing := fun p => (fault p).map fun f => (0, f)
    moving := fault
    removing := fault }⟩

/-- A file with four blocks. At the paths of their output files are a device, a link to the path of a
later one and a link back to the file, and nothing. -/
def misled : Tree :=
  ⟨[([], .directory 0o755),
    (["main.tf".toList], .file (Utf8.encode
      "locals \x7b\x7d\noutput a \x7b\x7d\nprovider b \x7b\x7d\nvariable c \x7b\x7d\n".toList) 0o644),
    (["z.tf".toList], .file [] 0o644),
    (["locals.tf".toList], .device),
    (["outputs.tf".toList], .link "variables.tf".toList),
    (["providers.tf".toList], .link "main.tf".toList)], []⟩

/-- A run that fails to remove the last file. -/
def misleading : Request := { tidying with host := damagedAt "./z.tf".toList }

/-- All files have been written and the first source has been removed when the run fails. -/
theorem endsInOrder_misled :
    misleading.EndsInOrder misled ["./main.tf".toList, "./z.tf".toList]
      (FailsLeaving
        (.organize (.notRemoved "./z.tf".toList
          ⟨.system 5 "Input/output error", "./z.tf".toList, none⟩))
        [Utf8.encode "variable \"c\" \x7b\n\x7d\n".toList, []]) :=
  .of_enumerates (by cbv) (by decide +kernel)

/-- A run in place that fails, without breaking down, and loses a block of a type. -/
structure LosesBlock (request : Request) (tree : Tree) (type : Text) : Prop where
  wellFormed : tree.WellFormed
  writes : request.dryRun = false
  inPlace : tree.samePlace (request.outputOn tree) (request.inputOn tree) = true
  fails : ∃ failure, (request.execute.result ⟨tree, []⟩).1 = .error failure ∧
    ∀ cause, failure ≠ .breakdown cause
  lost : ∃ source ∈ request.sources tree, ∃ b ∈ source.blocks, b.type = type ∧
    ¬(request.execute.result ⟨tree, []⟩).2.tree.HoldsBlock b

section FailsLeaving

variable {request : Request} {tree : Tree} {paths : List Text} {failure : Failure}
  {contents : List (List UInt8)} {type : Text}

/-- A block is lost when no file that is left has one of its type. -/
theorem losesBlock (hwell : tree.WellFormed) (hwrites : request.dryRun = false)
    (hplace : tree.samePlace (request.outputOn tree) (request.inputOn tree) = true)
    (hfails : FailsLeaving failure contents (request.execute.result ⟨tree, []⟩))
    (hfailure : ∀ cause, failure ≠ .breakdown cause)
    (hblock : ((request.sources tree).flatMap ParsedFile.blocks).any (fun b => b.type = type) = true)
    (hlost : ∀ b : Block, b.type = type → ∀ bytes ∈ contents, ¬b.IsIn bytes) :
    request.LosesBlock tree type := by
  obtain ⟨source, hsource, b, hb, htype⟩ := exists_of_any hblock
  exact ⟨hwell, hwrites, hplace, ⟨failure, hfails.1, hfailure⟩, source, hsource, b, hb, htype,
    Tree.not_holdsBlock (hfails.2 ▸ hlost b htype)⟩

theorem EndsInOrder.losesBlock (h : request.EndsInOrder tree paths (FailsLeaving failure contents))
    (hwrites : request.dryRun = false)
    (hplace : tree.samePlace (request.outputOn tree) (request.inputOn tree) = true)
    (hfailure : ∀ cause, failure ≠ .breakdown cause)
    (hblock : ((readAt request.host.faults tree paths).flatMap ParsedFile.blocks).any
      (fun b => b.type = type) = true)
    (hlost : ∀ b : Block, b.type = type → ∀ bytes ∈ contents, ¬b.IsIn bytes) :
    request.LosesBlock tree type :=
  Request.losesBlock h.wellFormed hwrites hplace h.ends hfailure (h.sources_eq ▸ hblock) hlost

end FailsLeaving

/-- A file with blocks of two groups, and a directory in the way of the second one. -/
def blocked : Tree :=
  ⟨[([], .directory 0o755),
    (["locals.tf".toList], .file (Utf8.encode
      "locals \x7b\n  a = 1\n\x7d\n\nresource \"z\" \"w\" \x7b\n\x7d\n".toList) 0o644),
    (["resource__z.tf".toList], .directory 0o755)], []⟩

/-- The first file is written, and then the run is broken off. -/
theorem endsInOrder_blocked :
    tidying.EndsInOrder blocked ["./locals.tf".toList]
      (FailsLeaving
        (.write (.notWritten "resource__z.tf".toList ⟨.isDirectory, "./resource__z.tf".toList, none⟩))
        [Utf8.encode "locals \x7b\n  a = 1\n\x7d\n".toList]) :=
  .of_enumerates (by cbv) (by decide +kernel)

/-- A file with a block, which is also the output file that the block goes to. -/
def settled : Tree :=
  ⟨[([], .directory 0o755),
    (["locals.tf".toList], .file (Utf8.encode "locals\x7b\x7d".toList) 0o644)], []⟩

/-- A run on it that fails when the file has been opened. -/
def breaking : Request := { ofFile "locals.tf".toList with host := damagedAt "./locals.tf".toList }

/-- The backup directory is a link to the output directory. A file with a block, one of the same name
and one that cannot be moved lie below. -/
def crossed : Tree :=
  ⟨[([], .directory 0o755),
    (["a".toList], .directory 0o755), (["b".toList], .directory 0o755),
    (["locals.tf".toList, "a".toList], .file (Utf8.encode "locals\x7b\x7d".toList) 0o644),
    (["locals.tf".toList, "b".toList], .file [] 0o644),
    (["z.tf".toList, "b".toList], .file [] 0o644),
    (["backup".toList], .link Path.current)], []⟩

/-- A run that makes backups and fails to move the last file. -/
def crossing : Request := { backingUp with host := damagedAt "./b/z.tf".toList }

/-- The second file of the name has been moved over the first one and over the output file when the run
fails. -/
theorem endsInOrder_crossed :
    crossing.EndsInOrder crossed
      ["./a/locals.tf".toList, "./b/locals.tf".toList, "./b/z.tf".toList]
      (FailsLeaving
        (.organize (.notBackedUp "./b/z.tf".toList
          ⟨.system 5 "Input/output error", "./b/z.tf".toList, some "./backup/z.tf".toList⟩))
        [[], []]) :=
  .of_enumerates (by cbv) (by decide +kernel)

/-- The backup directory is a link to that of a file with a block, whose output file is a device. A file
of the same name comes before it, and one that cannot be moved comes last. -/
def overrun : Tree :=
  ⟨[([], .directory 0o755),
    (["a".toList], .directory 0o755), (["b".toList], .directory 0o755),
    (["main.tf".toList], .file [] 0o644),
    (["main.tf".toList, "a".toList], .file (Utf8.encode "locals\x7b\x7d".toList) 0o644),
    (["z.tf".toList, "b".toList], .file [] 0o644),
    (["locals.tf".toList], .device),
    (["backup".toList], .link "a".toList)], []⟩

/-- The first file of the name has been moved to the place of the second one when the run fails. -/
theorem endsInOrder_overrun :
    crossing.EndsInOrder overrun
      ["./locals.tf".toList, "./main.tf".toList, "./a/main.tf".toList, "./b/z.tf".toList]
      (FailsLeaving
        (.organize (.notBackedUp "./b/z.tf".toList
          ⟨.system 5 "Input/output error", "./b/z.tf".toList, some "./backup/z.tf".toList⟩))
        [[], []]) :=
  .of_enumerates (by cbv) (by decide +kernel)

end Request

end HclTidy
