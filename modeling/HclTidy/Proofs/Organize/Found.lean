import HclTidy.Proofs.Grouping.Partition
import HclTidy.Proofs.Organize.Outputs
import HclTidy.Proofs.Organize.Shape
import HclTidy.Proofs.Organize.Skipped
import HclTidy.Proofs.Tree.Directories

/-!
# What a later run finds

A run in place on a directory leaves its output files to the next one: reading the directory again
finds them and nothing else, with the blocks that have been written to them. So every block is found
once again, but for its layout. It takes that the output files have the names of sources and do not
lie behind links, which a later run leaves out.
-/

set_option autoImplicit false

namespace HclTidy

open Run

/-! ## Reading a directory -/

section Lists

variable {α β : Type} {g : α → Option β}

theorem forall₂_filterMap {R : α → β → Prop} {l : List α} (h : ∀ a ∈ l, ∃ b, g a = some b ∧ R a b) :
    List.Forall₂ R l (l.filterMap g) := by
  induction l with
  | nil => exact .nil
  | cons a l ih =>
    rw [List.forall_mem_cons] at h
    obtain ⟨b, hb, hrelated⟩ := h.1
    rw [List.filterMap_cons_some hb]
    exact .cons hrelated (ih h.2)

/-- What is made of the elements of a list is made of those of a part of it when nothing is made of
the others. -/
theorem perm_filterMap_of_subset [DecidableEq α] {l part : List α} (hl : l.Nodup) (hpart : part.Nodup)
    (hsubset : part ⊆ l) (hnone : ∀ a ∈ l, a ∉ part → g a = none) :
    (l.filterMap g).Perm (part.filterMap g) := by
  have hkept : (l.filter (· ∈ part)).filterMap g = l.filterMap g := by
    rw [List.filterMap_filter]
    refine List.filterMap_congr fun a ha => ?_
    by_cases hmem : a ∈ part
    · simp [hmem]
    · simp [hmem, hnone a ha hmem]
  rw [← hkept]
  refine List.Perm.filterMap g ((List.perm_ext_iff_of_nodup (hl.filter _) hpart).mpr fun a => ?_)
  rw [List.mem_filter, decide_eq_true_iff]
  exact ⟨And.right, fun hmem => ⟨hsubset hmem, hmem⟩⟩

end Lists

namespace Source

variable {faults : Faults} {tree : Tree} {recursive : Bool} {directory name path : Text}

/-- A file with the name of a source is enumerated in its directory. -/
theorem mem_enumerated_of_file (hname : IsName name) (hsource : isSourceName name = true)
    {bytes : Bytes} {mode : Nat}
    (hfile : tree.get? (name :: tree.physical directory) = some (.file bytes mode)) :
    Path.join directory name ∈ enumerated tree recursive directory := by
  refine mem_enumerated_of_own
    (mem_paths.mpr ⟨name, .file bytes mode, Tree.mem_children_of_get? hfile, ?_, rfl⟩)
  have hnot : tree.isDirectory (Path.join directory name) = false := by
    refine Bool.of_not_eq_true fun hdirectory => ?_
    obtain ⟨-, kept, hkept⟩ := Tree.locate_of_isDirectory hdirectory
    rw [← Tree.spot_join tree directory hname] at hfile
    rw [Tree.physical_eq_spot (Tree.linkAt?_of_not_link hfile rfl), hfile] at hkept
    cases hkept
  cases recursive with
  | false => simp [isOwn, hsource, Entry.isFile]
  | true => simp [isOwn, hnot, hsource, Entry.isLink]

/-- The text that is written for blocks is read as blocks that are like them. -/
theorem process_renderAll {blocks : List Block}
    (hsafe : PathCheck.isSafe (PathCheck.currentPath tree) path = true)
    (hread : tree.readFile path = .ok (Utf8.encode (Block.renderAll blocks)))
    (hwritable : ∀ b ∈ blocks, b.Writable) :
    ∃ read, (process .none path).value tree = .ok (some read) ∧
      List.Forall₂ Block.Alike blocks read.blocks := by
  obtain ⟨read, events, hparsed, halike⟩ :=
    Block.ofText_renderAll path fun b hb => (hwritable b hb).sound
  have htext : readText .none tree path = .ok (Block.renderAll blocks) := by
    rw [readText, hread]
    dsimp only [bind, Except.bind, Faults.none, Faults.guard]
    rw [Block.readText_renderAll hwritable]
  exact ⟨read, process_value_ok_iff.mpr ⟨PathCheck.check_ok_iff.mpr hsafe,
    parse_value_ok_iff.mpr ⟨_, events, htext, hparsed⟩⟩, halike⟩

/-- When the paths that belong to the elements of a list are enumerated and read, and no other
enumerated path is used, a directory run reads a file for each element. -/
theorem readInput_of_read {α : Type} {l : List α} {pathOf : α → Text} {R : α → ParsedFile → Prop}
    (hwell : tree.WellFormed) (hdirectory : tree.isDirectory directory = true)
    (hdistinct : (l.map pathOf).Nodup)
    (hread : ∀ a ∈ l, pathOf a ∈ enumerated tree recursive directory ∧
      ∃ read, (process .none (pathOf a)).value tree = .ok (some read) ∧ R a read)
    (hothers : ∀ path ∈ enumerated tree recursive directory, path ∉ l.map pathOf →
      (process .none path).value tree = .ok none) :
    ∃ found arranged, (readInput .none directory true recursive).value tree = .ok found ∧
      found.Perm arranged ∧ List.Forall₂ R l arranged := by
  let used (path : Text) : Option ParsedFile := ((process .none path).value tree).toOption.join
  have hused {path : Text} {read : Option ParsedFile} (h : (process .none path).value tree = .ok read) :
      used path = read := by
    simp only [used, h]
    rfl
  refine ⟨(enumerated tree recursive directory).filterMap used, (l.map pathOf).filterMap used,
    value_readInput ((gives_enumerate hdirectory).value_eq not_hasUnlisted_none)
      (value_filterMapM isReading_process fun path hpath => ?_),
    perm_filterMap_of_subset (nodup_enumerated hwell) hdistinct ?_ fun path hpath hother =>
      hused (hothers path hpath hother), ?_⟩
  · by_cases hmem : path ∈ l.map pathOf
    · obtain ⟨a, ha, rfl⟩ := List.mem_map.mp hmem
      obtain ⟨-, read, hvalue, -⟩ := hread a ha
      rw [hused hvalue, hvalue]
    · rw [hused (hothers path hpath hmem), hothers path hpath hmem]
  · intro path hpath
    obtain ⟨a, ha, rfl⟩ := List.mem_map.mp hpath
    exact (hread a ha).1
  · rw [List.filterMap_map]
    refine forall₂_filterMap fun a ha => ?_
    obtain ⟨-, read, hvalue, hrelated⟩ := hread a ha
    exact ⟨read, hused hvalue, hrelated⟩

end Source

/-! ## Paths of written files -/

namespace Output

variable {directory : Text} {file : OutputFile} {files : List OutputFile} {tree tree' : Tree}

theorem Writes.canJoin (h : Writes directory file tree tree') (hne : directory ≠ [])
    (hname : IsName file.name) : Tree.CanJoin directory file.name := by
  have hlocate : ∃ d, tree.locate true (Path.join directory file.name) = .ok d := by
    cases h with
    | unchanged hread =>
      obtain ⟨entry, hentry, -⟩ := Tree.readFile_ok hread
      exact ⟨_, (Tree.locate_of_entryAt hentry).1⟩
    | written hwrite =>
      unfold Tree.writeFile at hwrite
      split at hwrite
      · cases hwrite
      · next hlocate => exact ⟨_, hlocate⟩
      · next hlocate => exact ⟨_, hlocate⟩
  obtain ⟨d, hlocate⟩ := hlocate
  exact (Tree.canJoin_of_locate hname hne hlocate).1

theorem steps_canJoin (h : Steps (Writes directory) files tree tree') (hne : directory ≠ [])
    (hnames : ∀ file ∈ files, IsName file.name) :
    ∀ file ∈ files, Tree.CanJoin directory file.name := by
  induction h with
  | nil => exact List.forall_mem_nil _
  | cons hfile _ ih =>
    rw [List.forall_mem_cons] at hnames ⊢
    exact ⟨hfile.canJoin hne hnames.1, ih hnames.2⟩

end Output

namespace Request

variable {request : Request} {tree : Tree}

/-! ## Runs whose output files can be read back -/

/-- A run in place on a directory whose output files a later run does not leave out: they have the
names of sources, neither they nor the backups meet a link or a device, and nothing fails but what the
tree refuses. -/
structure ReadsBack (request : Request) (tree : Tree) : Prop where
  faults : request.host.faults = .none
  isDirectory : tree.isDirectory request.input = true
  dry : request.dryRun = false
  opens : tree.isDirectory (request.outputOn tree) = true
  inPlace : tree.samePlace (request.outputOn tree) request.input = true
  source : ∀ file ∈ request.outputs tree, Source.isSourceName file.name = true
  size : request.outputDirectory ≠ [] → ∀ file ∈ request.outputs tree,
    Utf8.size (Path.join request.input file.name) ≤ Tree.maxPathBytes
  plain : ∀ file ∈ request.outputs tree,
    Output.Plain tree (tree.spot (Path.join (request.outputOn tree) file.name))
  backup : ∀ directory ∈ request.backupTo (request.outputOn tree),
    tree.linkAt? (tree.spot directory) = none ∧ ∀ source ∈ request.sources tree,
      tree.linkAt? (tree.spot (Path.join directory (Path.baseName source.name))) = none

namespace ReadsBack

variable (h : request.ReadsBack tree)
include h

theorem inputOn_eq : request.inputOn tree = request.input := by
  rw [inputOn, h.isDirectory]
  rfl

theorem physical_outputOn : tree.physical (request.outputOn tree) = tree.physical request.input :=
  of_decide_eq_true h.inPlace

theorem opened_eq : Output.opened request.host.faults tree (request.outputOn tree) = tree := by
  rw [Output.opened, Tree.makeDirectories_of_isDirectory _ h.opens]

theorem physical_backup {directory : Text}
    (hdirectory : directory ∈ request.backupTo (request.outputOn tree)) :
    tree.physical directory = Source.backupName :: tree.physical request.input := by
  have hlink := (h.backup directory hdirectory).1
  obtain ⟨-, rfl⟩ := backupTo_eq hdirectory
  rw [Tree.physical_eq_spot hlink, Tree.spot_join tree _ (by decide), h.physical_outputOn]

theorem place_eq {file : OutputFile} (hfile : file ∈ request.outputs tree) (hname : IsName file.name) :
    Output.place tree (request.outputOn tree) file = file.name :: tree.physical request.input := by
  rw [Output.place_eq hname (h.plain file hfile), h.physical_outputOn]

theorem value_sources (hne : request.sources tree ≠ []) :
    (Source.readInput .none request.input true request.recursive).value tree =
      .ok (request.sources tree) := by
  have hvalue := value_of_sources_ne_nil hne
  rwa [h.isDirectory, h.faults] at hvalue

end ReadsBack

/-! ## What has been cleaned up -/

section Cleans

variable {paths : List Text} {between start' tree' : Tree}

theorem Cleans.keepsDirectories (h : request.Cleans paths tree between start' tree')
    (hwell : tree.WellFormed) : Tree.KeepsDirectories tree between :=
  have hgains := Output.opened_gains request.host.faults tree (request.outputOn tree)
  ⟨h.sameLinks hwell.closed, fun _ hplace => Output.steps_hasDirectory
    (Output.steps_touches h.writes) (hgains.closed hwell.closed) (hgains.hasDirectory hplace)⟩

theorem Cleans.isLeaf (h : request.Cleans paths tree between start' tree') (hwell : tree.WellFormed) :
    paths.Pairwise fun path _ => Cleanup.IsLeaf start' path :=
  Cleanup.pairwise_isLeaf h.readies.gains (h.sameLinks hwell.closed)
    ((areSources hwell).sublist h.sublist)
    (Output.hasLeaf_of_touches (Output.opened_gains _ _ _) (Output.steps_touches h.writes) hwell.closed)

theorem Cleans.isName (h : request.Cleans paths tree between start' tree') (hwell : tree.WellFormed) :
    ∀ path ∈ paths, IsName (Path.baseName path) :=
  ((areSources hwell).sublist h.sublist).name

/-- The links are as they were. -/
theorem Cleans.keepsLinks (h : request.Cleans paths tree between start' tree')
    (hback : request.ReadsBack tree) (hwell : tree.WellFormed) : Tree.SameLinks tree tree' := by
  have hlinks := (h.sameLinks hwell.closed).trans h.readies.gains.sameLinks
  refine hlinks.trans (Cleanup.steps_sameLinks h.clears (fun path hpath => ?_)
    fun path hpath directory hdirectory => ?_)
  all_goals
    obtain ⟨source, hsource, rfl⟩ := h.exists_source hpath
    rw [hlinks.spot, hlinks.link]
  · exact Source.linkAt?_of_readInput hwell hback.isDirectory
      (hback.value_sources (List.ne_nil_of_mem hsource)) source hsource
  · exact (hback.backup directory hdirectory).2 source hsource

/-- What is neither an output file nor below the backup directory has been there before. -/
theorem Cleans.get?_of_some (h : request.Cleans paths tree between start' tree')
    (hback : request.ReadsBack tree) (hwell : tree.WellFormed) {place : Place} {entry : Entry}
    (houtput : ∀ file ∈ request.outputs tree, place ≠ file.name :: tree.physical request.input)
    (hbackup : ¬Source.backupName :: tree.physical request.input <:+ place)
    (hentry : tree'.get? place = some entry) : tree.get? place = some entry := by
  have hlinks := h.sameLinks hwell.closed
  have hstart : start'.get? place = some entry := by
    refine Cleanup.steps_get?_of_some h.clears (fun _ => .refl start') (h.isName hwell) (h.isLeaf hwell)
      (fun path _ directory hdirectory heq => hbackup ?_) hentry
    rw [heq, (hlinks.trans h.readies.gains.sameLinks).physical, hback.physical_backup hdirectory]
    exact List.suffix_cons _ _
  have hbetween : between.get? place = some entry := by
    obtain heq | ⟨faults, directory, hdirectory, heq⟩ := h.readies
    · rwa [heq] at hstart
    · obtain ⟨-, rfl⟩ := backupTo_eq hdirectory
      rw [heq] at hstart
      obtain hsame | ⟨-, hset⟩ := Tree.makeDirectories_join faults
        ((h.keepsDirectories hwell).isDirectory hback.opens) (by decide : IsName Source.backupName)
        Output.directoryMode
      · rwa [hsame] at hstart
      · have hplace : place ≠ Source.backupName :: between.physical (request.outputOn tree) := by
          rw [hlinks.physical, hback.physical_outputOn]
          exact fun hplace => hbackup (hplace ▸ List.suffix_rfl)
        rwa [hset, Tree.get?_set_of_ne _ _ hplace] at hstart
  have hwrites := h.writes
  rw [hback.opened_eq] at hwrites
  rwa [Output.steps_get?_of_ne (Output.steps_touches hwrites) hwell.closed fun file hfile => ?_] at hbetween
  rw [hback.place_eq hfile (h.names file hfile)]
  exact houtput file hfile

/-- What has been cleaned up is gone. -/
theorem Cleans.gone (h : request.Cleans paths tree between start' tree')
    (hback : request.ReadsBack tree) (hwell : tree.WellFormed) {path : Text} (hpath : path ∈ paths) :
    tree'.get? (tree.spot path) = none := by
  have hlinks := (h.sameLinks hwell.closed).trans h.readies.gains.sameLinks
  rw [← hlinks.spot]
  refine Cleanup.steps_gone h.clears (h.isName hwell) (h.isLeaf hwell) hpath
    fun p _ directory hdirectory heq => ?_
  obtain ⟨source, hsource, rfl⟩ := h.exists_source hpath
  rw [hlinks.physical, hlinks.spot, Tree.spot_eq_cons tree (h.isName hwell _ hpath),
    hback.physical_backup hdirectory] at heq
  have houtside := outside_backup hwell hsource
  rw [hback.inputOn_eq] at houtside
  exact houtside (List.cons.inj heq).2

/-- The output files are there. -/
theorem Cleans.holds (h : request.Cleans paths tree between start' tree')
    (hback : request.ReadsBack tree) (hwell : tree.WellFormed)
    (hapart : Output.Apart tree (request.outputOn tree) (request.outputs tree)) :
    ∀ file ∈ request.outputs tree, ∃ mode, tree'.get? (file.name :: tree.physical request.input) =
      some (.file (Output.content file) mode) := by
  intro file hfile
  rw [← hback.physical_outputOn]
  refine (Output.holds_of_clears hwell.closed (areSources hwell) hapart (fun hbackup => ?_)
    (Output.opened_gains _ _ _) h.writes h.sublist h.stale h.readies.gains h.clears file hfile).2
  exact (hback.backup _ (by rw [backupTo, if_pos hbackup]; rfl)).1

/-- The paths of the output files in the directory can be looked up. -/
theorem Cleans.canJoin (h : request.Cleans paths tree between start' tree')
    (hback : request.ReadsBack tree) :
    ∀ file ∈ request.outputs tree, Tree.CanJoin request.input file.name := by
  intro file hfile
  have hjoin := Output.steps_canJoin h.writes (Tree.ne_nil_of_isDirectory hback.opens) h.names file hfile
  by_cases hempty : request.outputDirectory = []
  · rwa [outputOn, hempty, if_pos List.isEmpty_nil, hback.inputOn_eq] at hjoin
  · exact ⟨hjoin.isName, hjoin.noNul, hjoin.nameSize, hback.size hempty file hfile⟩

/-- A later run reads an output file, with the blocks that have been written to it. -/
theorem Cleans.process_output (h : request.Cleans paths tree between start' tree')
    (hback : request.ReadsBack tree) (hkeeps : Tree.KeepsDirectories tree tree') {file : OutputFile}
    (hfile : file ∈ request.outputs tree) (hwritable : ∀ b ∈ file.blocks, b.Writable)
    (hsafe : PathCheck.isSafe (PathCheck.currentPath tree) request.input = true)
    (hheld : ∃ mode, tree'.get? (file.name :: tree.physical request.input) =
      some (.file (Output.content file) mode)) :
    Path.join request.input file.name ∈ Source.enumerated tree' request.recursive request.input ∧
      ∃ read, (Source.process .none (Path.join request.input file.name)).value tree' = .ok (some read) ∧
        read.name = Path.join request.input file.name ∧
          List.Forall₂ Block.Alike file.blocks read.blocks := by
  obtain ⟨mode, hmode⟩ := hheld
  have hdirectory := hkeeps.isDirectory hback.isDirectory
  have hname := h.names file hfile
  have hsource := hback.source file hfile
  rw [← hkeeps.links.physical] at hmode
  have hread : tree'.readFile (Path.join request.input file.name) =
      .ok (Utf8.encode (Block.renderAll file.blocks)) := by
    rw [Tree.readFile, Tree.entryAt_join (.refl tree') hdirectory (h.canJoin hback file hfile) hmode rfl]
    rfl
  have hsame : PathCheck.currentPath tree' = PathCheck.currentPath tree := by
    rw [PathCheck.currentPath, PathCheck.currentPath, hkeeps.links.current]
  have hsafe' : PathCheck.isSafe (PathCheck.currentPath tree')
      (Path.join request.input file.name) = true := by
    rw [hsame]
    exact PathCheck.isSafe_join_source (PathCheck.isAbsolute_currentPath tree)
      (Tree.ne_nil_of_isDirectory hdirectory) hname hsource hsafe
  obtain ⟨read, hvalue, halike⟩ := Source.process_renderAll hsafe' hread hwritable
  exact ⟨Source.mem_enumerated_of_file hname hsource hmode, read, hvalue,
    (Source.readFrom_of_process hvalue).1, halike⟩

/-- A later run uses nothing but the output files. -/
theorem Cleans.process_other (h : request.Cleans paths tree between start' tree')
    (hback : request.ReadsBack tree) (hwell : tree.WellFormed) (hwell' : tree'.WellFormed)
    (hkeeps : Tree.KeepsDirectories tree tree') (hne : request.sources tree ≠ [])
    (hall : paths = ((request.sources tree).map ParsedFile.name).filter fun path =>
      Cleanup.isStale between path (request.outputOn tree) ((request.outputs tree).map OutputFile.name))
    {path : Text} (hpath : path ∈ Source.enumerated tree' request.recursive request.input)
    (hother : path ∉ (request.outputs tree).map fun file => Path.join request.input file.name) :
    (Source.process .none path).value tree' = .ok none := by
  obtain ⟨inner, hinner, hown⟩ := Source.exists_visits_of_mem_enumerated hwell'
    (hkeeps.isDirectory hback.isDirectory) hpath
  have hbelow := hinner.below
  have houtside := hinner.outside
  rw [hkeeps.links.physical, hkeeps.links.physical] at hbelow houtside
  obtain ⟨name, entry, hchild, hkept, rfl⟩ := Source.mem_paths.mp hown
  have hname := hwell'.name_child hchild
  have hspot := Tree.spot_join tree inner hname
  have hentry := hwell'.get?_child hchild
  rw [hkeeps.links.physical, ← hspot] at hentry
  -- It is neither an output file nor a backup, so that it has been there before the run.
  have houtput : ∀ file ∈ request.outputs tree,
      tree.spot (Path.join inner name) ≠ file.name :: tree.physical request.input := by
    intro file hfile heq
    rw [hspot] at heq
    obtain ⟨rfl, hplace⟩ := List.cons.inj heq
    obtain rfl | ⟨-, hdeeper⟩ := hbelow
    · exact hother (List.mem_map_of_mem hfile)
    · exact hdeeper hplace
  have hbackup : ¬Source.backupName :: tree.physical request.input <:+ tree.spot (Path.join inner name) := by
    rw [hspot, List.suffix_cons_iff, not_or]
    refine ⟨fun heq => ?_, houtside⟩
    have hnamed : Source.isSourceName name = true := Source.isSourceName_of_isOwn hkept
    rw [← (List.cons.inj heq).1] at hnamed
    exact absurd hnamed (by decide)
  have hold := h.get?_of_some hback hwell houtput hbackup hentry
  have hbefore := Source.mem_enumerated_of_same hwell.closed hwell' hkeeps hback.isDirectory hold
    hentry hpath
  obtain ⟨used, hused, hsources⟩ := Source.readInput_ok hback.isDirectory (hback.value_sources hne)
  rw [Source.value_process_congr hkeeps.links.current
    (Source.readFile_of_same hwell hkeeps hback.isDirectory hold hentry hbefore), hused _ hbefore]
  -- Had the run used it, it would be stale and gone.
  cases hfound : used (Path.join inner name) with
  | none => rfl
  | some source =>
    have hnamed : source.name = Path.join inner name :=
      (Source.readFrom_of_process ((hused _ hbefore).trans (congrArg _ hfound))).1
    have hsource : source ∈ request.sources tree := by
      rw [hsources]
      exact List.mem_filterMap.mpr ⟨_, hbefore, hfound⟩
    exfalso
    cases hstale : Cleanup.isStale between source.name (request.outputOn tree)
        ((request.outputs tree).map OutputFile.name) with
    | true =>
      have hcleaned : source.name ∈ paths := by
        rw [hall]
        exact List.mem_filter.mpr ⟨List.mem_map_of_mem hsource, hstale⟩
      rw [← hnamed, h.gone hback hwell hcleaned] at hentry
      cases hentry
    | false =>
      obtain ⟨hplace, hgenerated⟩ := Cleanup.isStale_eq_false_iff.mp hstale
      obtain ⟨file, hfile, hsame⟩ := List.mem_map.mp hgenerated
      have hlinks := h.sameLinks hwell.closed
      rw [hlinks.physical, hlinks.physical, hback.physical_outputOn] at hplace
      refine houtput file hfile ?_
      rw [← hnamed, Tree.spot_eq_cons tree ((areSources hwell).name _ (List.mem_map_of_mem hsource)),
        hplace, hsame]

end Cleans

/-! ## Reading again -/

section Again

variable {session session' : Session} {report : Report}

theorem sources_ne_nil {config : Config}
    (hgroups : Grouping.ofBlocks config ((request.sources tree).flatMap ParsedFile.blocks) =
      .ok (request.outputs tree)) (hne : request.outputs tree ≠ []) : request.sources tree ≠ [] := by
  obtain ⟨b, hb⟩ := List.exists_mem_of_ne_nil _ (Grouping.ne_nil_of_ofBlocks hgroups hne)
  obtain ⟨source, hsource, -⟩ := List.mem_flatMap.mp hb
  exact List.ne_nil_of_mem hsource

/-- What is known of a run in place that has succeeded: its output files are those of all blocks, it
has cleaned up every stale source, and the tree has kept its shape. -/
theorem execute_settles (hwell : session.tree.WellFormed)
    (hrun : request.execute.result session = (.ok report, session'))
    (hne : request.outputs session.tree ≠ []) (hback : request.ReadsBack session.tree) :
    ∃ config between start', request.loadConfig.value session.tree = .ok config ∧
      Grouping.ofBlocks config ((request.sources session.tree).flatMap ParsedFile.blocks) =
        .ok (request.outputs session.tree) ∧
      request.Cleans report.cleaned session.tree between start' session'.tree ∧
      report.cleaned = ((request.sources session.tree).map ParsedFile.name).filter (fun path =>
        Cleanup.isStale between path (request.outputOn session.tree)
          ((request.outputs session.tree).map OutputFile.name)) ∧
      session'.tree.WellFormed ∧ Tree.KeepsDirectories session.tree session'.tree := by
  obtain ⟨-, hnone⟩ | ⟨config, hconfig, hgroups, -⟩ := execute_cases hrun
  · exact absurd (hnone ⟨report, rfl⟩) hne
  have hplace := hback.inPlace
  rw [← hback.inputOn_eq] at hplace
  obtain ⟨between, start', hcleans, hall⟩ :=
    execute_cleans hwell.closed hrun (.inr ⟨hne, hback.dry, hplace⟩)
  obtain ⟨hwell', hdirectories⟩ := execute_keeps_shape hwell hrun
  exact ⟨config, between, start', hconfig, hgroups, hcleans, hall, hwell',
    hcleans.keepsLinks hback hwell, hdirectories⟩

/-- The input of a directory run that reads anything is no system directory. -/
theorem isSafe_input (hwell : tree.WellFormed) (hback : request.ReadsBack tree)
    (hne : request.sources tree ≠ []) :
    PathCheck.isSafe (PathCheck.currentPath tree) request.input = true := by
  obtain ⟨source, hsource⟩ := List.exists_mem_of_ne_nil _ hne
  obtain ⟨used, hused, hsources⟩ := Source.readInput_ok hback.isDirectory (hback.value_sources hne)
  rw [hsources] at hsource
  obtain ⟨path, hpath, hfound⟩ := List.mem_filterMap.mp hsource
  have hprocess := (hused path hpath).trans (congrArg _ hfound)
  exact Source.isSafe_of_mem_enumerated (PathCheck.isAbsolute_currentPath tree) hwell
    hback.isDirectory hpath (PathCheck.check_ok_iff.mp (Source.process_value_ok_iff.mp hprocess).1)

/-- After a run in place on a directory has succeeded, reading the directory again finds the output
files and nothing else, each with the blocks that have been written to it. -/
theorem execute_finds_outputs (hwell : session.tree.WellFormed)
    (hrun : request.execute.result session = (.ok report, session'))
    (hne : request.outputs session.tree ≠ []) (hback : request.ReadsBack session.tree) :
    ∃ found arranged,
      (Source.readInput .none request.input true request.recursive).value session'.tree = .ok found ∧
        found.Perm arranged ∧
        List.Forall₂ (fun file read => read.name = Path.join request.input file.name ∧
          List.Forall₂ Block.Alike file.blocks read.blocks) (request.outputs session.tree) arranged := by
  obtain ⟨config, between, start', hconfig, hgroups, hcleans, hall, hwell', hkeeps⟩ :=
    execute_settles hwell hrun hne hback
  have hsources := sources_ne_nil hgroups hne
  have hsafe := isSafe_input hwell hback hsources
  have hdistributes := Grouping.distributes_of_ofBlocks hgroups
  have hapart := apart_outputs hconfig hgroups hback.plain
  refine Source.readInput_of_read hwell' (hkeeps.isDirectory hback.isDirectory) hapart.nodup_paths
    (fun file hfile => hcleans.process_output hback hkeeps hfile (fun b hb => ?_) hsafe
      (hcleans.holds hback hwell hapart file hfile))
    fun path hpath hother => hcleans.process_other hback hwell hwell' hkeeps hsources hall hpath hother
  exact writable_of_mem_blocks b ((hdistributes.routed file hfile b).mp hb).1

/-- After a run in place on a directory has succeeded, reading the directory again finds each block
that the run has read once, but for its layout, and no other one. -/
theorem execute_finds_blocks (hwell : session.tree.WellFormed)
    (hrun : request.execute.result session = (.ok report, session'))
    (hne : request.outputs session.tree ≠ []) (hback : request.ReadsBack session.tree) :
    ∃ found arranged,
      (Source.readInput .none request.input true request.recursive).value session'.tree = .ok found ∧
        (found.flatMap ParsedFile.blocks).Perm arranged ∧
        List.Forall₂ Block.Alike ((request.sources session.tree).flatMap ParsedFile.blocks) arranged := by
  obtain ⟨config, between, start', -, hgroups, -⟩ := execute_settles hwell hrun hne hback
  obtain ⟨found, files, hvalue, hfound, hread⟩ := execute_finds_outputs hwell hrun hne hback
  have halike : List.Forall₂ Block.Alike
      ((request.outputs session.tree).flatMap OutputFile.blocks) (files.flatMap ParsedFile.blocks) :=
    List.rel_flatMap hread fun _ _ h => h.2
  obtain ⟨arranged, hsame, harranged⟩ :=
    List.perm_comp_forall₂ (Grouping.perm_of_ofBlocks hgroups).symm halike
  exact ⟨found, arranged, hvalue, (hfound.flatMap_right _).trans harranged.symm, hsame⟩

end Again

/-! ## Runs on fixed trees -/

theorem readsBack_nested : backingUp.ReadsBack nested := by
  refine ⟨rfl, by decide, rfl, by decide, by decide, ?_, ?_, ?_, ?_⟩
  · rw [endsInOrder_nested.outputs_eq]
    decide +kernel
  · rw [endsInOrder_nested.outputs_eq]
    decide
  · rw [endsInOrder_nested.outputs_eq]
    decide +kernel
  · rw [endsInOrder_nested.sources_eq]
    decide +kernel

/-- What two files hold is found again behind a run that has moved both to the backup directory. -/
theorem execute_finds_blocks_nested :
    ∃ run ∈ backingUp.outcome? nested, run.1.cleaned = ["./main.tf".toList, "./a/main.tf".toList] ∧
      ∃ found arranged, (Source.readInput .none Path.current true true).value run.2 = .ok found ∧
        (found.flatMap ParsedFile.blocks).Perm arranged ∧
        List.Forall₂ Block.Alike (nestedSources.flatMap ParsedFile.blocks) arranged := by
  obtain ⟨run, session', hrun, hresult, htree, houtcome⟩ := exists_of_outcome? endsInOrder_nested.outcome_eq
  have hfinds := execute_finds_blocks endsInOrder_nested.wellFormed hresult
    endsInOrder_nested.outputs_ne_nil readsBack_nested
  rw [htree, endsInOrder_nested.sources_eq] at hfinds
  exact ⟨run, hrun, congrArg Prod.fst houtcome, hfinds⟩

/-- The output file is written to the source, and the source is removed. -/
theorem endsInOrder_linked :
    tidying.EndsInOrder linked ["./main.tf".toList]
      (Yields Prod.snd
        ⟨[([], .directory 0o755), (["locals.tf".toList], .link "main.tf".toList)], []⟩) :=
  .of_enumerates (by cbv) (by decide +kernel)

/-- A run through a link leaves nothing to find: a later run leaves links out. -/
theorem execute_hides_blocks :
    ¬∀ (request : Request) (session session' : Session) (report : Report), session.tree.WellFormed →
      session.tree.isDirectory request.input = true → request.dryRun = false →
      session.tree.samePlace (request.outputOn session.tree) request.input = true →
      request.execute.result session = (.ok report, session') → ∀ found,
      (Source.readInput .none request.input true request.recursive).value session'.tree = .ok found →
        (found.flatMap ParsedFile.blocks).length =
          ((request.sources session.tree).flatMap ParsedFile.blocks).length := by
  intro h
  obtain ⟨run, session', -, hresult, hsession, htree⟩ := exists_of_outcome? endsInOrder_linked.outcome_eq
  have hpaths : (Source.enumerate .none Path.current false).value session'.tree = .ok [] := by
    rw [hsession, htree]
    cbv
  have hlost := h tidying ⟨linked, []⟩ session' run.1 wellFormed_linked (by decide) rfl
    (by decide) hresult [] (Source.value_readInput hpaths (by rw [List.filterMapM_nil]; rfl))
  rw [endsInOrder_linked.sources_eq] at hlost
  exact absurd hlost (by decide +kernel)

end Request

end HclTidy
