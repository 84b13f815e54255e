import HclTidy.Proofs.Organize.Kept

/-!
# Runs that write elsewhere

A run whose output directory is not the directory of its input clears nothing: it changes the tree
at the places of its output files only. Its sources lie in the directory of the input, so they stay
as they are, unless a link leads an output file to one of them or a recursive run writes to a
directory that it reads.
-/

set_option autoImplicit false

namespace HclTidy

open Run

namespace Request

section Elsewhere

variable {request : Request} {session session' : Session} {r : Except Failure Report}

/-- The last part of a run that writes elsewhere only writes output files. -/
theorem finish_elsewhere {inputDirectory outputDirectory : Text} {sources : List ParsedFile}
    {files : List OutputFile} (hclosed : session.tree.Closed)
    (helsewhere : session.tree.samePlace outputDirectory inputDirectory = false)
    (h : (request.finish inputDirectory outputDirectory sources files).result session = (r, session')) :
    ∃ start touched, Tree.GainsDirectories session.tree start ∧ touched <+: files ∧
      Steps (Output.Touches outputDirectory) touched start session'.tree := by
  cases hdry : request.dryRun with
  | true =>
    rw [finish_dry hdry h]
    exact ⟨session.tree, [], .refl _, List.nil_prefix, .nil⟩
  | false =>
    have hgains := Output.opened_gains request.host.faults session.tree outputDirectory
    obtain ⟨error, -, htree⟩ | ⟨failure, done, rest, between, -, rfl, hdone, hinterrupts⟩ |
      ⟨written, unchanged, between, hdone, hsettle⟩ := finish_writes hdry h
    · rw [htree]
      exact ⟨_, [], hgains, List.nil_prefix, .nil⟩
    · obtain ⟨touched, hfront, htouched⟩ := hinterrupts.touches hdone
      exact ⟨_, touched, hgains, hfront, htouched⟩
    · -- Writing follows links and makes none, so the two directories are still different ones.
      have htouched := Output.steps_touches hdone
      rw [← (Output.sameLinks_of_touches hgains htouched hclosed).samePlace] at helsewhere
      obtain ⟨-, -, -, -, -, -, -, -, -, htree⟩ := settle_cases hsettle
      rw [htree (.inr helsewhere)]
      exact ⟨_, files, hgains, List.prefix_rfl, htouched⟩

/-- What a run that writes elsewhere has done to the tree, whether it has succeeded or not. -/
theorem execute_elsewhere (hclosed : session.tree.Closed)
    (helsewhere : session.tree.samePlace (request.outputOn session.tree)
      (request.inputOn session.tree) = false)
    (hrun : request.execute.result session = (r, session')) :
    ∃ start touched, Tree.GainsDirectories session.tree start ∧
      touched <+: request.outputs session.tree ∧ (∀ file ∈ touched, IsName file.name) ∧
      Steps (Output.Touches (request.outputOn session.tree)) touched start session'.tree := by
  obtain ⟨htree, -⟩ | ⟨config, between, hconfig, hgroups, hbetween, hfinish⟩ := execute_reaches hrun
  · rw [htree]
    exact ⟨session.tree, [], .refl _, List.nil_prefix, List.forall_mem_nil _, .nil⟩
  · obtain ⟨start, touched, hgains, hfront, htouched⟩ := finish_elsewhere (by rwa [hbetween])
      (by rwa [hbetween]) hfinish
    rw [hbetween] at hgains
    have hslash := no_slash_outputs hconfig hgroups
    exact ⟨start, touched, hgains, hfront, Output.steps_isName htouched (hgains.closed hclosed)
      fun file hfile => hslash file (hfront.subset hfile), htouched⟩

/-- A run that writes elsewhere leaves every entry alone but those at the places of its output
files. -/
theorem execute_keeps_elsewhere (hclosed : session.tree.Closed)
    (helsewhere : session.tree.samePlace (request.outputOn session.tree)
      (request.inputOn session.tree) = false)
    (hrun : request.execute.result session = (r, session')) {place : Place} {entry : Entry}
    (hentry : session.tree.get? place = some entry)
    (houtput : ∀ file ∈ request.outputs session.tree,
      place ≠ Output.place session.tree (request.outputOn session.tree) file) :
    session'.tree.get? place = some entry := by
  obtain ⟨start, touched, hgains, hfront, -, htouched⟩ := execute_elsewhere hclosed helsewhere hrun
  exact Output.get?_of_touches hgains htouched hclosed hentry fun file hfile =>
    houtput file (hfront.subset hfile)

end Elsewhere

/-! ## The sources -/

section Sources

variable {request : Request} {tree : Tree}

/-- The sources of a run lie in the directory of its input, or below it when the run is
recursive. -/
theorem physical_of_mem_sources (hwell : tree.WellFormed)
    (hinput : tree.isDirectory request.input = false →
      tree.linkAt? (tree.spot request.input) = none)
    {source : ParsedFile} (hsource : source ∈ request.sources tree) :
    ∃ name place, tree.physical source.name = name :: place ∧
      (place = tree.physical (request.inputOn tree) ∨
        request.recursive = true ∧ tree.physical (request.inputOn tree) <:+ place) := by
  have hvalue := value_of_sources_ne_nil (List.ne_nil_of_mem hsource)
  cases hdirectory : tree.isDirectory request.input with
  | false =>
    have hin : request.inputOn tree = Cleanup.directoryOf request.input := by
      rw [inputOn, hdirectory]
      rfl
    rw [hdirectory] at hvalue
    obtain ⟨single, hsingle, hname⟩ := Source.readInput_single hvalue
    rw [hsingle, List.mem_singleton] at hsource
    have hsources : tree.AreSources ((request.sources tree).map ParsedFile.name) := areSources hwell
    have hbase := hsources.name source.name (by
      rw [hsingle, hsource]
      exact List.mem_singleton_self _)
    rw [hsource, hname] at hbase ⊢
    rw [Tree.physical_eq_spot (hinput hdirectory), Tree.spot_eq_cons tree hbase, hin]
    exact ⟨_, _, rfl, .inl rfl⟩
  | true =>
    have hin : request.inputOn tree = request.input := by
      rw [inputOn, hdirectory]
      rfl
    rw [hdirectory] at hvalue
    obtain ⟨inner, hinner, hlists⟩ := Source.enumerates_of_readInput hwell hdirectory hvalue source hsource
    obtain ⟨name, -, -, -, hname⟩ := hlists.exists_name hwell
    rw [hin]
    exact ⟨name, _, hname, hinner.imp_left (congrArg _)⟩

/-- A run that writes elsewhere leaves the sources that it has parsed alone, whether it succeeds or
fails, when no link is at the paths of its output files and, in a recursive run, the output directory
does not lie below the input. A single file that is the input may not be a link, either. -/
theorem execute_keeps_sources {session session' : Session} {r : Except Failure Report}
    (hwell : session.tree.WellFormed) (hrun : request.execute.result session = (r, session'))
    (helsewhere : session.tree.samePlace (request.outputOn session.tree)
      (request.inputOn session.tree) = false)
    (hbelow : request.recursive = true →
      ¬session.tree.physical (request.inputOn session.tree) <:+
        session.tree.physical (request.outputOn session.tree))
    (hinput : session.tree.isDirectory request.input = false →
      session.tree.linkAt? (session.tree.spot request.input) = none)
    (houtput : ∀ file ∈ request.outputs session.tree,
      session.tree.linkAt? (session.tree.spot
        (Path.join (request.outputOn session.tree) file.name)) = none)
    {source : ParsedFile} (hsource : source ∈ request.sources session.tree) :
    ∃ entry, session.tree.get? (session.tree.physical source.name) = some entry ∧
      session'.tree.get? (session.tree.physical source.name) = some entry := by
  obtain ⟨bytes, text, events, hbytes, -⟩ := readFrom_of_mem_sources hsource
  obtain ⟨entry, -, hentry, -⟩ := Tree.readFile_ok hbytes
  obtain ⟨start, touched, hgains, hfront, hnames, htouched⟩ :=
    execute_elsewhere hwell.closed helsewhere hrun
  refine ⟨entry, hentry,
    Output.get?_of_touches hgains htouched hwell.closed hentry fun file hfile heq => ?_⟩
  obtain ⟨name, place, hplace, hin⟩ := physical_of_mem_sources hwell hinput hsource
  rw [hplace, Output.place, Tree.physical_eq_spot (houtput file (hfront.subset hfile)),
    Tree.spot_join session.tree _ (hnames file hfile)] at heq
  obtain rfl := (List.cons.inj heq).2
  obtain hsame | ⟨hrecursive, hsuffix⟩ := hin
  · rw [Tree.samePlace, hsame, decide_eq_true rfl] at helsewhere
    cases helsewhere
  · exact hbelow hrecursive hsuffix

end Sources

/-- A file to organize into another directory, which has a link to that file at the path that its
block goes to. -/
def linkedBack : Tree :=
  ⟨[([], .directory 0o755), (["in".toList], .directory 0o755), (["out".toList], .directory 0o755),
    (["main.tf".toList, "in".toList], .file (Utf8.encode "locals \x7b\n  a=1\n\x7d\n".toList) 0o644),
    (["locals.tf".toList, "out".toList], .link "../in/main.tf".toList)], []⟩

/-- A run on a file of one directory that writes to the other. -/
def across : Request := ⟨⟨"in/main.tf".toList, "out".toList, [], false, false, false⟩, .undisturbed⟩

/-- A source is overwritten through a link in the output directory. -/
theorem execute_changes_source :
    ¬∀ (request : Request) (session session' : Session) (report : Report),
      session.tree.WellFormed →
      session.tree.samePlace (request.outputOn session.tree) (request.inputOn session.tree) = false →
      request.execute.result session = (.ok report, session') →
      ∀ source ∈ request.sources session.tree,
        session'.tree.get? (session.tree.physical source.name) =
          session.tree.get? (session.tree.physical source.name) := by
  intro h
  have hwell : linkedBack.WellFormed :=
    (by decide)
  have hok : (across.execute.result ⟨linkedBack, []⟩).1.toOption.isSome = true := by decide +kernel
  have hchanged : ∃ source ∈ across.sources linkedBack,
      (across.execute.result ⟨linkedBack, []⟩).2.tree.get? (linkedBack.physical source.name) ≠
        linkedBack.get? (linkedBack.physical source.name) := by decide +kernel
  obtain ⟨source, hsource, hne⟩ := hchanged
  cases hrun : across.execute.result ⟨linkedBack, []⟩ with
  | mk outcome session' =>
    rw [hrun] at hok hne
    cases outcome with
    | error failure => cases hok
    | ok report =>
      exact hne (h _ _ _ report hwell (by decide) hrun source hsource)

end Request

end HclTidy
