import HclTidy.Proofs.Grouping.Duplicates
import HclTidy.Proofs.Organize.Found

/-!
# Repeating a run

A run in place on a directory that has succeeded succeeds again, as long as its configuration reads as
before. The second run reads blocks that are like those of the first one, so that they go to files of
the same names; it writes to these files at most and cleans nothing up.
-/

set_option autoImplicit false

namespace HclTidy

open Run

/-! ## Blocks that are alike -/

namespace Block

variable {b b' : Block}

theorem Alike.fileFor (h : b.Alike b') (config : Config) : config.fileFor b' = config.fileFor b := by
  unfold Config.fileFor candidates defaultFile subType
  rw [h.type, h.labels]

theorem Alike.address? (h : b.Alike b') : b'.address? = b.address? := by
  unfold Block.address?
  rw [h.type, h.labels]

end Block

/-- Blocks that are like others, in whatever order they come, can be grouped when these can, and go to
files of the same names. -/
theorem Grouping.exists_ofBlocks_of_alike {config : Config} {blocks arranged blocks' : List Block}
    {files : List OutputFile} (h : ofBlocks config blocks = .ok files)
    (halike : List.Forall₂ Block.Alike blocks arranged) (hperm : blocks'.Perm arranged) :
    ∃ files', ofBlocks config blocks' = .ok files' ∧
      files'.map OutputFile.name = files.map OutputFile.name := by
  have haddresses : arranged.filterMap Block.address? = blocks.filterMap Block.address? := by
    have hmap (l : List Block) :
        l.filterMap Block.address? = (l.map Block.address?).filterMap id := by
      rw [List.filterMap_map]
      rfl
    rw [hmap, hmap, Layout.map_eq_map_iff.mpr (halike.imp fun _ _ h => h.address?.symm)]
  have hnames : (blocks'.map config.fileFor).Perm (blocks.map config.fileFor) := by
    rw [Layout.map_eq_map_iff.mpr (halike.imp fun _ _ h => (h.fileFor config).symm)]
    exact hperm.map _
  cases hfiles : ofBlocks config blocks' with
  | ok files' => exact ⟨files', rfl, names_eq_of_ofBlocks h hfiles hnames⟩
  | error duplicate =>
    have hrefused := ofBlocks_error_iff_nodup.mp ⟨duplicate, hfiles⟩
    rw [(hperm.filterMap _).nodup_iff, haddresses] at hrefused
    obtain ⟨duplicate, hrefused⟩ := ofBlocks_error_iff_nodup.mpr hrefused
    rw [h] at hrefused
    cases hrefused

/-! ## Writing to files that are there -/

namespace Output

variable {directory : Text} {file : OutputFile} {files : List OutputFile}

/-- The file of a name is there in a directory. -/
def IsThere (tree : Tree) (directory : Text) (file : OutputFile) : Prop :=
  ∃ bytes mode, tree.get? (file.name :: tree.physical directory) = some (.file bytes mode)

/-- Writing a file leaves the files as files. -/
theorem Writes.isThere {other : OutputFile} {tree tree' : Tree} (h : Writes directory file tree tree')
    (hclosed : tree.Closed) (hthere : IsThere tree directory other) : IsThere tree' directory other := by
  rw [IsThere, (h.touches.sameLinks hclosed).physical]
  cases h with
  | unchanged => exact hthere
  | written hwrite =>
    obtain ⟨kept, rfl, -⟩ | ⟨rfl, -⟩ := Tree.writeFile_ok hclosed hwrite
    · by_cases hplace : other.name :: tree.physical directory =
          tree.physical (Path.join directory file.name)
      · exact ⟨_, kept, by rw [hplace, Tree.get?_set_self]⟩
      · rwa [Tree.get?_set_of_ne _ _ hplace]
    · exact hthere

theorem Writes.keepsDirectories {tree tree' : Tree} (h : Writes directory file tree tree')
    (hclosed : tree.Closed) : Tree.KeepsDirectories tree tree' :=
  ⟨h.touches.sameLinks hclosed, fun _ => h.touches.hasDirectory hclosed⟩

variable {session : Session}

/-- A file that is there can be written. -/
theorem exists_writeFile (hdirectory : session.tree.isDirectory directory = true)
    (hjoin : Tree.CanJoin directory file.name) (hthere : IsThere session.tree directory file) :
    ∃ changed after, (writeFile .none directory file).result session = (.ok changed, after) := by
  obtain ⟨bytes, mode, hfile⟩ := hthere
  have hentry : session.tree.entryAt true (Path.join directory file.name) = _ :=
    Tree.entryAt_join (.refl session.tree) hdirectory hjoin hfile rfl
  have hread : session.tree.readFile (Path.join directory file.name) = .ok bytes := by
    rw [Tree.readFile, hentry]
  have hexisting : existing? .none session.tree (Path.join directory file.name) = .ok (some bytes) := by
    rw [existing?, hread]
    rfl
  obtain ⟨tree, hwrite⟩ : ∃ tree, session.tree.writeFile (Path.join directory file.name) fileMode
      (Utf8.encode file.text) = .ok tree := by
    rw [Tree.writeFile, (Tree.locate_of_entryAt hentry).1]
    dsimp only
    rw [hfile]
    exact ⟨_, rfl⟩
  unfold writeFile
  rw [result_bind_of_ok (result_emitDetails _ _), result_bind_of_ok (result_tree _)]
  dsimp only
  rw [hexisting]
  dsimp only [Run.require]
  rw [pure_bind]
  split
  · exact ⟨false, _, rfl⟩
  · rw [Tree.overwrite_none hwrite]
    exact ⟨true, _, rfl⟩

theorem exists_writeFiles (hclosed : session.tree.Closed)
    (hdirectory : session.tree.isDirectory directory = true)
    (hjoin : ∀ file ∈ files, Tree.CanJoin directory file.name)
    (hthere : ∀ file ∈ files, IsThere session.tree directory file) :
    ∃ paths after, (writeFiles .none directory files).result session = (.ok paths, after) := by
  induction files generalizing session with
  | nil => exact ⟨_, _, rfl⟩
  | cons file files ih =>
    rw [List.forall_mem_cons] at hjoin hthere
    obtain ⟨changed, between, hfile⟩ := exists_writeFile hdirectory hjoin.1 hthere.1
    obtain ⟨_, hfailure, -⟩ | ⟨hwrites, -⟩ := writeFile_cases files hfile
    · cases hfailure
    · obtain ⟨paths, after, hrest⟩ := ih (hwrites.touches.closed hclosed)
        ((hwrites.keepsDirectories hclosed).isDirectory hdirectory) hjoin.2
        fun other hother => hwrites.isThere hclosed (hthere.2 other hother)
      unfold writeFiles
      rw [result_bind_of_ok hfile, result_bind_of_ok hrest]
      exact ⟨_, _, rfl⟩

/-- Files that are there in a directory that is there can be written, and nothing else changes. -/
theorem exists_write (hclosed : session.tree.Closed)
    (hdirectory : session.tree.isDirectory directory = true)
    (hjoin : ∀ file ∈ files, Tree.CanJoin directory file.name)
    (hthere : ∀ file ∈ files, IsThere session.tree directory file) :
    ∃ paths after, (write .none directory files).result session = (.ok paths, after) ∧
      Steps (Writes directory) files session.tree after.tree := by
  have hmade := Tree.makeDirectories_of_isDirectory .none hdirectory directoryMode
  obtain ⟨paths, after, hfiles⟩ := exists_writeFiles hclosed hdirectory hjoin hthere
  have hwrite : (write .none directory files).result session = (.ok paths, after) := by
    unfold write
    rw [result_bind_of_ok (result_tree _), hmade]
    dsimp only
    rw [result_bind_of_ok (result_setTree _ _)]
    exact hfiles
  obtain ⟨_, hfailure, -⟩ | ⟨_, _, _, _, hfailure, -⟩ | ⟨hdone, -⟩ := write_cases hwrite
  · cases hfailure
  · cases hfailure
  · rw [opened, hmade] at hdone
    exact ⟨paths, after, hwrite, hdone⟩

end Output

/-! ## Sources that are not stale -/

theorem Tree.no_nul_of_readFile {tree : Tree} {path : Text} {bytes : Bytes}
    (h : tree.readFile path = .ok bytes) : '\x00' ∉ path := by
  obtain ⟨entry, hentry, -⟩ := Tree.readFile_ok h
  exact (Tree.locate_eq_ok_iff.mp (Tree.locate_of_entryAt hentry).1).1

namespace Cleanup

section Judge

variable {outputDirectory : Text} {generated : List Text} {tree : Tree}

/-- A path and a directory without a NUL can be judged. -/
theorem value_judge {path : Text} (hpath : '\x00' ∉ path) (hdirectory : '\x00' ∉ outputDirectory) :
    (judge outputDirectory generated tree path).value tree =
      .ok (isStale tree path outputDirectory generated) := by
  have hnul : ((directoryOf path).contains '\x00' || outputDirectory.contains '\x00') = false := by
    have hbegin : '\x00' ∉ directoryOf path := by
      rw [directoryOf]
      split
      · decide
      · exact fun hmem => hpath ((Tree.dirName_begins path).subset hmem)
    simp [hbegin, hdirectory]
  unfold judge
  dsimp only
  rw [hnul, if_neg Bool.false_ne_true]
  split <;> rfl

theorem value_staleSources {paths : List Text} (hpaths : ∀ path ∈ paths, '\x00' ∉ path)
    (hdirectory : '\x00' ∉ outputDirectory) :
    (staleSources paths outputDirectory generated).value tree =
      .ok (paths.filter fun path => isStale tree path outputDirectory generated) := by
  rw [staleSources_eq, isReading_tree.value_bind fun _ => isReading_filterM fun _ => isReading_judge]
  exact value_filterM (fun _ => isReading_judge) fun path hpath => value_judge (hpaths path hpath) hdirectory

end Judge

/-- The name of an output file in its directory is not stale. -/
theorem isStale_join {tree : Tree} {directory outputDirectory name : Text} {generated : List Text}
    (hname : IsName name) (hplace : tree.physical directory = tree.physical outputDirectory)
    (hgenerated : name ∈ generated) :
    isStale tree (Path.join directory name) outputDirectory generated = false := by
  have hbase := Path.baseName_join directory hname.no_slash
  have hspot := Tree.spot_join tree directory hname
  rw [Tree.spot_eq_cons tree (by rwa [hbase])] at hspot
  rw [isStale_eq_false_iff, hbase, (List.cons.inj hspot).2]
  exact ⟨hplace, hgenerated⟩

end Cleanup

/-! ## The second run -/

namespace Request

variable {request : Request} {session session' : Session} {report : Report}

/-- The last part of a run succeeds when its output files are there and no source is stale. It changes
the tree only by writing. -/
theorem exists_finish (start : Session) {inputDirectory outputDirectory : Text}
    {sources : List ParsedFile} {files : List OutputFile} (hfaults : request.host.faults = .none)
    (hdry : request.dryRun = false)
    (hclosed : start.tree.Closed)
    (hdirectory : start.tree.isDirectory outputDirectory = true)
    (hjoin : ∀ file ∈ files, Tree.CanJoin outputDirectory file.name)
    (hthere : ∀ file ∈ files, Output.IsThere start.tree outputDirectory file)
    (hnul : ∀ source ∈ sources, '\x00' ∉ source.name)
    (hfresh : ∀ tree, Tree.SameLinks start.tree tree → ∀ source ∈ sources,
      Cleanup.isStale tree source.name outputDirectory (files.map OutputFile.name) = false) :
    ∃ report after, (request.finish inputDirectory outputDirectory sources files).result start =
      (.ok report, after) ∧ report.cleaned = [] ∧
        Steps (Output.Writes outputDirectory) files start.tree after.tree := by
  obtain ⟨paths, between, hwrite, hsteps⟩ := Output.exists_write hclosed hdirectory hjoin hthere
  have hopen := (Tree.locate_eq_ok_iff.mp (Tree.locate_of_isDirectory hdirectory).1).1
  have hstale : (Cleanup.staleSources (sources.map ParsedFile.name) outputDirectory
      (files.map OutputFile.name)).value between.tree = .ok [] := by
    rw [Cleanup.value_staleSources (List.forall_mem_map.mpr hnul) hopen]
    refine congrArg Except.ok (List.filter_eq_nil_iff.mpr (List.forall_mem_map.mpr fun source hsource => ?_))
    rw [hfresh between.tree (Output.steps_sameLinks (Output.steps_touches hsteps) hclosed) source hsource]
    exact Bool.false_ne_true
  have hidle (inPlace : Bool) : request.cleared inPlace [] = [] := ite_self _
  obtain ⟨report, after, hsettle, hcleaned, htree⟩ := settle_idle hstale (hidle _)
  refine ⟨report, after, ?_, hcleaned, htree ▸ hsteps⟩
  rw [finish_of_not_dry hdry, hfaults, result_bind_of_ok hwrite]
  exact hsettle

/-- A run in place on a directory that has succeeded succeeds again when the configuration reads as
before. The second run has output files of the same names, cleans nothing up, and changes the tree
only by writing its output files. -/
theorem execute_again (hwell : session.tree.WellFormed)
    (hrun : request.execute.result session = (.ok report, session'))
    (hne : request.outputs session.tree ≠ []) (hback : request.ReadsBack session.tree)
    (hconfig : request.loadConfig.value session'.tree = request.loadConfig.value session.tree) :
    ∃ report' again, request.execute.result session' = (.ok report', again) ∧ report'.cleaned = [] ∧
      (request.outputs session'.tree).map OutputFile.name =
        (request.outputs session.tree).map OutputFile.name ∧
      Steps (Output.Writes (request.outputOn session.tree)) (request.outputs session'.tree)
        session'.tree again.tree := by
  obtain ⟨config, between, start', hloaded, hgroups, hcleans, -, hwell', hkeeps⟩ :=
    execute_settles hwell hrun hne hback
  obtain ⟨found, arranged, hvalue, hperm, halike⟩ := execute_finds_blocks hwell hrun hne hback
  obtain ⟨_, files, hvalue', hfound, hread⟩ := execute_finds_outputs hwell hrun hne hback
  cases hvalue.symm.trans hvalue'
  have hdirectory := hkeeps.isDirectory hback.isDirectory
  have hopens := hkeeps.isDirectory hback.opens
  -- What the second run works on.
  have hinputOn : request.inputOn session'.tree = request.inputOn session.tree := by
    rw [inputOn, inputOn, hdirectory, hback.isDirectory]
  have houtputOn : request.outputOn session'.tree = request.outputOn session.tree := by
    rw [outputOn, outputOn, hinputOn]
  rw [← hdirectory, ← hback.faults] at hvalue
  have hsources := value_sources hvalue
  obtain ⟨files', hfiles', hnames⟩ := Grouping.exists_ofBlocks_of_alike hgroups halike hperm
  rw [← hsources] at hfiles' hvalue
  have houtputs := outputs_eq (hconfig.trans hloaded) rfl hfiles'
  have hname : ∀ file ∈ files', ∃ old ∈ request.outputs session.tree, old.name = file.name := by
    intro file hfile
    exact List.mem_map.mp (hnames ▸ List.mem_map_of_mem hfile)
  have hne' : files' ≠ [] := by
    rintro rfl
    exact hne (List.map_eq_nil_iff.mp hnames.symm)
  obtain ⟨events, hexecute⟩ : ∃ events, request.execute.result session' =
      (request.finish (request.inputOn session'.tree) (request.outputOn session'.tree)
        (request.sources session'.tree) files').result ⟨session'.tree, events⟩ :=
    ⟨_, execute_eq_finish (Tree.exists?_of_isDirectory hdirectory) (hconfig.trans hloaded) hvalue
      (Grouping.ne_nil_of_ofBlocks hfiles' hne') hfiles'⟩
  rw [hexecute, houtputOn, houtputs]
  have hjoin := Output.steps_canJoin hcleans.writes (Tree.ne_nil_of_isDirectory hback.opens) hcleans.names
  have hthere := hcleans.holds hback hwell (apart_outputs hloaded hgroups hback.plain)
  have hplace : session'.tree.physical (request.outputOn session.tree) =
      session.tree.physical request.input := by
    rw [hkeeps.links.physical, hback.physical_outputOn]
  have hread' : ∀ read ∈ request.sources session'.tree, ∃ file ∈ request.outputs session.tree,
      read.name = Path.join request.input file.name := by
    intro read hmem
    rw [hsources, hfound.mem_iff] at hmem
    obtain ⟨file, hfile, hsame, -⟩ := Layout.exists_of_forall₂ hread.flip read hmem
    exact ⟨file, hfile, hsame⟩
  suffices hfinish : ∃ report' again, (request.finish (request.inputOn session'.tree)
      (request.outputOn session.tree) (request.sources session'.tree) files').result
        ⟨session'.tree, events⟩ = (.ok report', again) ∧ report'.cleaned = [] ∧
          Steps (Output.Writes (request.outputOn session.tree)) files' session'.tree again.tree by
    obtain ⟨report', again, hfinish, hcleaned, hsteps⟩ := hfinish
    exact ⟨report', again, hfinish, hcleaned, hnames, hsteps⟩
  refine exists_finish ⟨session'.tree, events⟩ hback.faults hback.dry hwell'.closed hopens (fun file hfile => ?_)
    (fun file hfile => ?_) (fun read hmem => ?_) (fun tree hlinks read hmem => ?_)
  · obtain ⟨old, hold, hsame⟩ := hname file hfile
    exact hsame ▸ hjoin old hold
  · obtain ⟨old, hold, hsame⟩ := hname file hfile
    obtain ⟨mode, hmode⟩ := hthere old hold
    exact ⟨_, mode, by rw [← hsame, hplace, hmode]⟩
  · obtain ⟨bytes, _, _, hbytes, -⟩ := readFrom_of_mem_sources hmem
    exact Tree.no_nul_of_readFile hbytes
  · obtain ⟨file, hfile, hsame⟩ := hread' read hmem
    rw [hsame]
    refine Cleanup.isStale_join (hcleans.names file hfile) ?_ (hnames ▸ List.mem_map_of_mem hfile)
    rw [hlinks.physical, hlinks.physical, hplace, hkeeps.links.physical]

/-! ## Runs on fixed trees -/

/-- A run that has moved two files to the backup directory moves nothing there when it is repeated. -/
theorem execute_again_nested : ∃ session session' again : Session, ∃ report report' : Report,
    session.tree = nested ∧ backingUp.execute.result session = (.ok report, session') ∧
      report.cleaned = ["./main.tf".toList, "./a/main.tf".toList] ∧
      backingUp.execute.result session' = (.ok report', again) ∧ report'.cleaned = [] := by
  obtain ⟨run, session', -, hresult, htree, houtcome⟩ := exists_of_outcome? endsInOrder_nested.outcome_eq
  obtain ⟨-, -, -, -, -, -, -, -, hkeeps⟩ :=
    execute_settles endsInOrder_nested.wellFormed hresult endsInOrder_nested.outputs_ne_nil
      readsBack_nested
  have hconfig : backingUp.loadConfig.value session'.tree = backingUp.loadConfig.value nested := by
    have hafter : session'.tree = ⟨_, _⟩ := congrArg₂ Tree.mk
      ((congrArg Tree.entries htree).trans (congrArg Prod.snd houtcome)) hkeeps.links.current
    have hnone : backingUp.loadConfig.value session'.tree = .ok .empty := by
      rw [hafter]
      exact rfl
    rw [hnone, endsInOrder_nested.config]
  obtain ⟨report', again, hagain, hcleaned, -⟩ := execute_again endsInOrder_nested.wellFormed
    hresult endsInOrder_nested.outputs_ne_nil readsBack_nested hconfig
  exact ⟨⟨nested, []⟩, session', again, run.1, report', rfl, hresult, congrArg Prod.fst houtcome,
    hagain, hcleaned⟩

/-- Two blocks of one kind in a file, each in a layout of its own. -/
def mixed : Tree :=
  ⟨[([], .directory 0o755), (["main.tf".toList], .file (Utf8.encode
    "locals \x7b\n  z = 1\n\x7d\nlocals \x7b a = 1 \x7d\n".toList) 0o644)], []⟩

/-- The same blocks in one layout, in the order in which they have come. -/
def evened : Tree :=
  ⟨[(["locals.tf".toList], .file (Utf8.encode
    "locals \x7b\n  z = 1\n\x7d\n\nlocals \x7b\n  a = 1\n\x7d\n".toList) 0o600),
    ([], .directory 0o755)], []⟩

def evenedBlocks : List Block := (readAt .none evened ["./locals.tf".toList]).flatMap ParsedFile.blocks

theorem endsInOrder_mixed :
    tidying.EndsInOrder mixed ["./main.tf".toList] (Yields Prod.snd evened) :=
  .of_enumerates (by cbv) (by decide +kernel)

theorem comesTo_evened : tidying.ComesTo evened ["./locals.tf".toList] :=
  ⟨by decide, rfl, by cbv, by cbv⟩

/-- The second run puts the blocks in the other order: in one layout their bodies compare otherwise. -/
theorem blocks_evened : ∃ file ∈ tidying.outputs evened, file.name = "locals.tf".toList ∧
    file.blocks = evenedBlocks.reverse := by
  have hfiles : Grouping.ofBlocks .empty evenedBlocks =
      .ok (Grouping.sort (Grouping.collect .empty evenedBlocks)) := by
    have hnone : Grouping.findDuplicate? [] evenedBlocks = none := by decide +kernel
    rw [Grouping.ofBlocks, hnone]
  have hrouted : Grouping.routed .empty evenedBlocks "locals.tf".toList = evenedBlocks :=
    List.filter_eq_self.mpr (by decide +kernel)
  have hkeys : evenedBlocks.Pairwise fun a b => a.sortKey.le b.sortKey = false := by decide +kernel
  have hlength : evenedBlocks.length = 2 := by decide +kernel
  rw [comesTo_evened.outputs_eq hfiles]
  obtain ⟨file, hfile, hname⟩ := List.mem_map.mp
    (((Grouping.distributes_of_ofBlocks hfiles).names "locals.tf".toList).mpr (by decide +kernel))
  refine ⟨file, hfile, hname, ?_⟩
  rw [Grouping.blocks_of_mem_sort hfile, hname, hrouted]
  obtain ⟨a, b, hblocks⟩ := List.length_eq_two.mp hlength
  rw [hblocks, List.pairwise_pair] at hkeys
  rw [hblocks, Grouping.mergeSort_pair, hkeys]
  rfl

/-- A second run may write. -/
theorem execute_again_writes :
    ¬∀ (request : Request) (session session' : Session) (report : Report), session.tree.WellFormed →
      request.execute.result session = (.ok report, session') → request.outputs session.tree ≠ [] →
      request.ReadsBack session.tree →
      request.loadConfig.value session'.tree = request.loadConfig.value session.tree →
      ∀ file ∈ request.outputs session'.tree,
        session'.tree.readFile (Path.join (request.outputOn session'.tree) file.name) =
          .ok (Output.content file) := by
  intro h
  have hback : tidying.ReadsBack mixed := by
    refine ⟨rfl, endsInOrder_mixed.isDirectory, rfl, by decide, by decide, ?_,
      fun houtput => absurd rfl houtput, ?_, fun _ hbackup => by cases hbackup⟩
    · rw [endsInOrder_mixed.outputs_eq]
      decide +kernel
    · rw [endsInOrder_mixed.outputs_eq]
      decide +kernel
  obtain ⟨run, session', -, hresult, hsession, htree⟩ := exists_of_outcome? endsInOrder_mixed.outcome_eq
  obtain ⟨file, hfile, hname, hblocks⟩ := blocks_evened
  have hthere := h tidying ⟨mixed, []⟩ session' run.1 endsInOrder_mixed.wellFormed hresult
    endsInOrder_mixed.outputs_ne_nil hback
    (by rw [hsession, htree, comesTo_evened.config, endsInOrder_mixed.config]) file
  rw [hsession, htree] at hthere
  have hread := hthere hfile
  rw [hname, Output.content, OutputFile.text, hblocks] at hread
  revert hread
  decide +kernel

end Request

end HclTidy
