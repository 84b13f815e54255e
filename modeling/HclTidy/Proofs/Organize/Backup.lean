import HclTidy.Proofs.Organize.Kept

/-!
# What the backup directory holds

A run that makes backups moves the sources that it cleans into one directory, one after the other
and under their base names. Of those with one base name the last is there afterwards, as it was
before the run; the others have been overwritten.
-/

set_option autoImplicit false

namespace HclTidy

open Run

/-- What a file holds. -/
def Entry.bytes? : Entry → Option Bytes
  | file content _ => some content
  | _ => none

namespace Request

variable {request : Request} {tree : Tree}

/-! ## Sources and the backup directory -/

/-- No source lies directly in the backup directory of the input. -/
theorem outside_backup (hwell : tree.WellFormed) {source : ParsedFile}
    (hsource : source ∈ request.sources tree) :
    tree.physical (Cleanup.directoryOf source.name) ≠
      Source.backupName :: tree.physical (request.inputOn tree) := by
  have hvalue := value_of_sources_ne_nil (List.ne_nil_of_mem hsource)
  have hbase := (areSources hwell).name _ (List.mem_map_of_mem hsource)
  cases hdirectory : tree.isDirectory request.input with
  | false =>
    rw [hdirectory] at hvalue
    obtain ⟨single, hsingle, hname⟩ := Source.readInput_single hvalue
    rw [hsingle, List.mem_singleton] at hsource
    rw [hsource, hname, inputOn, hdirectory]
    exact (List.cons_ne_self _ _).symm
  | true =>
    rw [hdirectory] at hvalue
    obtain ⟨inner, hlists, houtside⟩ := Source.outside_of_readInput hwell hdirectory hvalue source hsource
    obtain ⟨name, hname⟩ := hlists.spot hwell
    rw [Tree.spot_eq_cons tree hbase] at hname
    rw [(List.cons.inj hname).2, inputOn, hdirectory]
    exact houtside

/-- The path of a source names an entry. -/
theorem exists_of_mem_sources {source : ParsedFile} (hsource : source ∈ request.sources tree) :
    ∃ entry, tree.get? (tree.spot source.name) = some entry := by
  cases hentry : tree.get? (tree.spot source.name) with
  | some entry => exact ⟨entry, rfl⟩
  | none =>
    obtain ⟨entry, hleaf, -⟩ :=
      hasLeaf_of_readFrom (readFrom_of_mem_sources hsource) (Tree.linkAt?_of_none hentry)
    rw [hentry] at hleaf
    cases hleaf

/-! ## Runs that clean up -/

/-- A link takes the backup directory of a run to the directory of a path. -/
def BacksUpOnto (request : Request) (tree : Tree) (path : Text) : Prop :=
  (tree.linkAt? (tree.spot (Path.join (request.outputOn tree) Source.backupName))).isSome = true ∧
    tree.physical (Path.join (request.outputOn tree) Source.backupName) =
      tree.physical (Cleanup.directoryOf path)

/-- How a run that has cleaned paths up has changed the tree: it has written its output files, then
cleared the paths, which are those of stale sources in the directory that it writes to. -/
structure Cleans (request : Request) (paths : List Text) (tree between start' tree' : Tree) :
    Prop where
  writes : Steps (Output.Writes (request.outputOn tree)) (request.outputs tree)
    (Output.opened request.host.faults tree (request.outputOn tree)) between
  names : ∀ file ∈ request.outputs tree, IsName file.name
  readies : Cleanup.Readies (request.backupTo (request.outputOn tree)) between start'
  clears : Steps (Cleanup.Clears (request.backupTo (request.outputOn tree))) paths start' tree'
  sublist : paths.Sublist ((request.sources tree).map ParsedFile.name)
  stale : ∀ path ∈ paths, Cleanup.isStale between path (request.outputOn tree)
    ((request.outputs tree).map OutputFile.name) = true
  inPlace : tree.samePlace (request.outputOn tree) (request.inputOn tree) = true

/-- A run that succeeds has cleaned up what it reports: when it is in place and not dry, the sources
that are stale once its output files are written. -/
theorem execute_cleans {session session' : Session} {report : Report} (hclosed : session.tree.Closed)
    (hrun : request.execute.result session = (.ok report, session'))
    (hcleans : report.cleaned ≠ [] ∨ request.outputs session.tree ≠ [] ∧ request.dryRun = false ∧
      session.tree.samePlace (request.outputOn session.tree) (request.inputOn session.tree) = true) :
    ∃ between start', request.Cleans report.cleaned session.tree between start' session'.tree ∧
        report.cleaned = ((request.sources session.tree).map ParsedFile.name).filter fun path =>
          Cleanup.isStale between path (request.outputOn session.tree)
            ((request.outputs session.tree).map OutputFile.name) := by
  obtain ⟨-, hnone⟩ | ⟨config, between, hconfig, hgroups, hbetween, hfinish⟩ := execute_reaches hrun
  · obtain ⟨hfiles, -, -, hcleaned⟩ := hnone report rfl
    obtain hne | ⟨hne, -⟩ := hcleans
    · exact absurd hcleaned hne
    · exact absurd hfiles hne
  have hdry : request.dryRun = false := by
    obtain hne | ⟨-, hdry, -⟩ := hcleans
    · cases hdry : request.dryRun with
      | false => rfl
      | true =>
        rw [finish_of_dry hdry] at hfinish
        obtain ⟨⟨⟩, planned, -, hsettle⟩ := result_bind_ok hfinish
        rw [(settle_clears hsettle).1, cleared, hdry] at hne
        exact absurd rfl hne
    · exact hdry
  obtain ⟨_, hfailed, -⟩ | ⟨_, _, _, _, hfailed, -⟩ | ⟨written, unchanged, after, hdone, hsettle⟩ :=
    finish_writes hdry hfinish
  · cases hfailed
  · cases hfailed
  rw [hbetween] at hdone
  have hgains :=
    Output.opened_gains request.host.faults session.tree (request.outputOn session.tree)
  have htouched := Output.steps_touches hdone
  obtain ⟨hcleaned, start', hready, hclears⟩ := settle_clears hsettle
  rw [(Output.sameLinks_of_touches hgains htouched hclosed).samePlace, cleared, hdry] at hcleaned
  have hplace : session.tree.samePlace (request.outputOn session.tree)
      (request.inputOn session.tree) = true := by
    obtain hne | ⟨-, -, hplace⟩ := hcleans
    · refine Bool.of_not_eq_false fun hplace => hne ?_
      rw [hcleaned, hplace]
      rfl
    · exact hplace
  rw [hplace] at hcleaned
  have hnames :=
    Output.steps_isName htouched (hgains.closed hclosed) (no_slash_outputs hconfig hgroups)
  refine ⟨after.tree, start', ⟨hdone, hnames, hready, hclears, ?_, ?_, hplace⟩, hcleaned⟩
  · rw [hcleaned]
    exact List.filter_sublist
  · rw [hcleaned]
    exact fun path hpath => (List.mem_filter.mp hpath).2

section Cleans

variable {paths : List Text} {between start' tree' : Tree} {path : Text}

theorem Cleans.exists_source (h : request.Cleans paths tree between start' tree')
    (hpath : path ∈ paths) : ∃ source ∈ request.sources tree, source.name = path :=
  List.mem_map.mp (h.sublist.subset hpath)

theorem Cleans.sameLinks (h : request.Cleans paths tree between start' tree')
    (hclosed : tree.Closed) : Tree.SameLinks tree between :=
  Output.sameLinks_of_touches (Output.opened_gains _ _ _) (Output.steps_touches h.writes) hclosed

/-- What is cleaned up lies outside the backup directory, unless a link takes that there. -/
theorem Cleans.outside (h : request.Cleans paths tree between start' tree')
    (hwell : tree.WellFormed) (hpath : path ∈ paths) (hbackup : ¬request.BacksUpOnto tree path) :
    tree.physical (Cleanup.directoryOf path) ≠
      tree.physical (Path.join (request.outputOn tree) Source.backupName) := by
  obtain ⟨source, hsource, rfl⟩ := h.exists_source hpath
  intro hsame
  cases hlink : tree.linkAt? (tree.spot (Path.join (request.outputOn tree) Source.backupName)) with
  | some target => exact hbackup ⟨by rw [hlink]; rfl, hsame.symm⟩
  | none =>
    rw [Tree.physical_eq_spot hlink, Tree.spot_join tree _ (by decide),
      of_decide_eq_true h.inPlace] at hsame
    exact outside_backup hwell hsource hsame

/-- What is cleaned up is still there when all output files are written, unless a link has led one
of them to it. -/
theorem Cleans.get?_of_mem (h : request.Cleans paths tree between start' tree')
    (hwell : tree.WellFormed) (hpath : path ∈ paths)
    (houtput : ∀ file ∈ request.outputs tree,
      (tree.linkAt? (tree.spot (Path.join (request.outputOn tree) file.name))).isSome = true →
      tree.physical (Path.join (request.outputOn tree) file.name) ≠ tree.spot path) :
    ∃ entry, tree.get? (tree.spot path) = some entry ∧ start'.get? (tree.spot path) = some entry := by
  obtain ⟨source, hsource, rfl⟩ := h.exists_source hpath
  obtain ⟨entry, hentry⟩ := exists_of_mem_sources hsource
  have hbase := (areSources hwell).name _ (List.mem_map_of_mem hsource)
  refine ⟨entry, hentry, h.readies.gains.kept _ _ ?_⟩
  refine Output.get?_of_touches (Output.opened_gains _ _ _) (Output.steps_touches h.writes) hwell.closed
    hentry fun file hfile heq => ?_
  cases hlink : tree.linkAt? (tree.spot (Path.join (request.outputOn tree) file.name)) with
  | some target => exact houtput file hfile (by rw [hlink]; rfl) heq.symm
  | none =>
    rw [Output.place, Tree.physical_eq_spot hlink, Tree.spot_join tree _ (h.names file hfile)] at heq
    exact Cleanup.ne_spot_of_isStale (h.sameLinks hwell.closed) hbase (h.stale _ hpath) hfile heq.symm

end Cleans

/-- When a run that makes backups has succeeded, a source that it reports as cleaned is not at its
path any more, unless a link takes the backup directory to that of the source. The backup directory
has, under the base name of the source, what was there before the run, unless a source with the same
base name comes later or a link led an output file to the source. When a link takes the backup
directory to that of the source, no source with the same base name may come earlier, either: it would
be moved over the source. -/
theorem execute_backs_up {session session' : Session} {report : Report}
    (hwell : session.tree.WellFormed)
    (hrun : request.execute.result session = (.ok report, session')) (hbackup : request.backup = true)
    {before after : List Text} {path : Text} (hcleaned : report.cleaned = before ++ path :: after) :
    (¬request.BacksUpOnto session.tree path → session'.tree.get? (session.tree.spot path) = none) ∧
      ((∀ file ∈ request.outputs session.tree,
          (session.tree.linkAt? (session.tree.spot
            (Path.join (request.outputOn session.tree) file.name))).isSome = true →
          session.tree.physical (Path.join (request.outputOn session.tree) file.name) ≠
            session.tree.spot path) →
        (∀ later ∈ after, Path.baseName later ≠ Path.baseName path) →
        (request.BacksUpOnto session.tree path →
          ∀ earlier ∈ before, Path.baseName earlier ≠ Path.baseName path) →
        ∃ entry, session.tree.get? (session.tree.spot path) = some entry ∧
          session'.tree.get? (session.tree.spot (Path.join
            (Path.join (request.outputOn session.tree) Source.backupName) (Path.baseName path))) =
              some entry) := by
  have hpath : path ∈ report.cleaned := hcleaned ▸ List.mem_append_right _ List.mem_cons_self
  obtain ⟨between, start', hcleans, -⟩ :=
    execute_cleans hwell.closed hrun (.inl (List.ne_nil_of_mem hpath))
  have hsources := (areSources hwell).sublist hcleans.sublist
  have hlinks := hcleans.sameLinks hwell.closed
  have hlinks' := hlinks.trans hcleans.readies.gains.sameLinks
  have hleaf := Cleanup.pairwise_isLeaf hcleans.readies.gains hlinks hsources
    (Output.hasLeaf_of_touches (Output.opened_gains _ _ _) (Output.steps_touches hcleans.writes)
      hwell.closed)
  have hclears := hcleans.clears
  rw [backupTo, if_pos hbackup] at hclears
  -- The backup of a source can come to lie where this one is only where a link takes it there.
  have hplace {p : Text} (heq : start'.spot path = Path.baseName p :: start'.physical
      (Path.join (request.outputOn session.tree) Source.backupName)) :
      request.BacksUpOnto session.tree path ∧ Path.baseName p = Path.baseName path := by
    rw [Tree.spot_eq_cons start' (hsources.name path hpath), hlinks'.physical, hlinks'.physical] at heq
    obtain ⟨hbase, hsame⟩ := List.cons.inj heq
    exact ⟨of_not_not fun hbackup => hcleans.outside hwell hpath hbackup hsame, hbase.symm⟩
  refine ⟨fun honto => ?_, fun houtput hlast hfirst => ?_⟩
  · have hgone := Cleanup.steps_gone hclears hsources.name hleaf hpath fun p hp d hd heq =>
      honto (hplace (Option.mem_some.mp hd ▸ heq)).1
    rwa [hlinks'.spot] at hgone
  rw [hcleaned] at hclears hleaf
  obtain ⟨entry, hentry, hkept⟩ :=
    Cleanup.steps_moved hclears (hcleaned ▸ hsources.name) hleaf (fun p hp heq =>
      hfirst (hplace heq).1 p hp (hplace heq).2) hlast
  rw [hlinks'.spot] at hentry
  rw [hlinks'.physical] at hkept
  obtain ⟨old, hold, hstart⟩ := hcleans.get?_of_mem hwell hpath houtput
  rw [hstart] at hentry
  cases hentry
  rw [Tree.spot_join session.tree _ (hsources.name path hpath)]
  exact ⟨entry, hold, hkept⟩

/-! ## Runs on fixed trees -/

/-- Two files of one name to organize, one of them below the other's directory. -/
def nested : Tree :=
  ⟨[([], .directory 0o755), (["a".toList], .directory 0o755),
    (["main.tf".toList], .file (Utf8.encode "locals \x7b\n\x7d\n".toList) 0o644),
    (["main.tf".toList, "a".toList], .file (Utf8.encode "# a\n".toList) 0o644)], []⟩

/-- What a run reads of both files. -/
def nestedSources : List ParsedFile := readAt .none nested ["./main.tf".toList, "./a/main.tf".toList]

/-- Both files are cleaned, and the second one is in the backup directory. -/
theorem endsInOrder_nested :
    backingUp.EndsInOrder nested ["./main.tf".toList, "./a/main.tf".toList]
      (Yields (fun run => (run.1.cleaned, run.2.entries))
        (["./main.tf".toList, "./a/main.tf".toList],
          [(["main.tf".toList, "backup".toList], .file (Utf8.encode "# a\n".toList) 0o644),
            (["backup".toList], .directory 0o750),
            (["locals.tf".toList], .file (Utf8.encode "locals \x7b\n\x7d\n".toList) 0o600),
            ([], .directory 0o755), (["a".toList], .directory 0o755)])) :=
  .of_enumerates (by cbv) (by decide +kernel)

/-- The second file is kept as it was. -/
theorem execute_backs_up_nested :
    ∃ run ∈ backingUp.outcome? nested,
      run.1.cleaned = ["./main.tf".toList] ++ ["./a/main.tf".toList] ∧
        run.2.get? (nested.spot "./a/main.tf".toList) = none ∧
          ∃ entry, nested.get? (nested.spot "./a/main.tf".toList) = some entry ∧
            run.2.get? (nested.spot "./backup/main.tf".toList) = some entry := by
  obtain ⟨run, session', hrun, hresult, htree, houtcome⟩ := exists_of_outcome? endsInOrder_nested.outcome_eq
  have hcleaned : run.1.cleaned = ["./main.tf".toList] ++ ["./a/main.tf".toList] :=
    congrArg Prod.fst houtcome
  obtain ⟨hgone, hkept⟩ :=
    execute_backs_up endsInOrder_nested.wellFormed hresult rfl hcleaned
  have honto : ¬backingUp.BacksUpOnto nested "./a/main.tf".toList :=
    fun h => absurd h.1 (by decide)
  rw [htree] at hgone hkept
  refine ⟨run, hrun, hcleaned, hgone honto, hkept ?_ (List.forall_mem_nil _) fun h => absurd h honto⟩
  rw [show backingUp.outputs nested = _ from endsInOrder_nested.outputs_eq]
  decide +kernel

/-- Whatever a run in place that makes backups cleans up is gone from its path, and the backup
directory has a file with the same bytes. -/
def KeepsCleaned (request : Request) (tree : Tree) : Prop :=
  tree.WellFormed → request.backup = true → request.dryRun = false →
    tree.samePlace (request.outputOn tree) (request.inputOn tree) = true →
    ∀ run ∈ request.outcome? tree, ∀ path ∈ run.1.cleaned, ∀ content,
      tree.readFile path = .ok content →
        run.2.get? (tree.spot path) = none ∧
          ∃ name, (run.2.get? (name :: tree.physical
            (Path.join (request.outputOn tree) Source.backupName))).bind Entry.bytes? = some content

theorem not_keepsCleaned {path : Text} {content : Bytes} (hwell : tree.WellFormed)
    (hbackup : request.backup = true) (hdry : request.dryRun = false)
    (hplace : tree.samePlace (request.outputOn tree) (request.inputOn tree) = true)
    (hread : tree.readFile path = .ok content)
    (hlost : ∃ run ∈ request.outcome? tree, path ∈ run.1.cleaned ∧
      (run.2.get? (tree.spot path) ≠ none ∨ ∀ e ∈ run.2.entries,
        e.1.tail = tree.physical (Path.join (request.outputOn tree) Source.backupName) →
          e.2.bytes? ≠ some content)) :
    ¬request.KeepsCleaned tree := by
  intro hkeeps
  obtain ⟨run, hrun, hpath, hlost⟩ := hlost
  obtain ⟨hgone, name, hname⟩ := hkeeps hwell hbackup hdry hplace run hrun path hpath content hread
  obtain ⟨entry, hentry, hbytes⟩ := Option.bind_eq_some_iff.mp hname
  obtain hthere | hnone := hlost
  · exact hthere hgone
  · exact hnone _ (Tree.mem_of_lookup hentry) rfl hbytes

/-- A run in place on one file that makes a backup. -/
def backingUpFile : Request := ⟨⟨"main.tf".toList, [], [], false, false, true⟩, .undisturbed⟩

/-- The path of an output file is a link to the source. -/
def writtenThrough : Tree :=
  ⟨[([], .directory 0o755),
    (["main.tf".toList], .file (Utf8.encode "locals\x7b\x7d".toList) 0o644),
    (["locals.tf".toList], .link "main.tf".toList)], []⟩

/-- The backup directory is a link to that of the source. -/
def backedUpHere : Tree :=
  ⟨[([], .directory 0o755),
    (["main.tf".toList], .file (Utf8.encode "locals\x7b\x7d".toList) 0o644),
    (["backup".toList], .link Path.current)], []⟩

/-- The source is a link. -/
def linkedSource : Tree :=
  ⟨[([], .directory 0o755),
    (["real.tf".toList], .file (Utf8.encode "locals\x7b\x7d".toList) 0o644),
    (["main.tf".toList], .link "real.tf".toList)], []⟩

/-- The backup directory is a link to that of the second file. -/
def overlaid : Tree :=
  { nested with entries := nested.entries ++ [(["backup".toList], .link "a".toList)] }

/-- Both files are cleaned, and the first one has been moved over the second one. -/
theorem endsInOrder_overlaid :
    backingUp.EndsInOrder overlaid ["./main.tf".toList, "./a/main.tf".toList]
      (Yields (fun run => (run.1.cleaned, run.2.entries))
        (["./main.tf".toList, "./a/main.tf".toList],
          [(["main.tf".toList, "a".toList], .file (Utf8.encode "locals \x7b\n\x7d\n".toList) 0o644),
            (["locals.tf".toList], .file (Utf8.encode "locals \x7b\n\x7d\n".toList) 0o600),
            ([], .directory 0o755), (["a".toList], .directory 0o755),
            (["backup".toList], .link "a".toList)])) :=
  .of_enumerates (by cbv) (by decide +kernel)

/-- A file is overwritten in the backup directory by one with the same base name, and before it is
moved through the link at the path of an output file. One stays where it is when a link takes the
backup directory there, or is overwritten there before it is moved. Of a source that is a link the
link is moved. -/
theorem execute_loses_backup :
    ¬backingUp.KeepsCleaned nested ∧ ¬backingUpFile.KeepsCleaned writtenThrough ∧
      ¬backingUpFile.KeepsCleaned backedUpHere ∧ ¬backingUpFile.KeepsCleaned linkedSource ∧
        ¬backingUp.KeepsCleaned overlaid := by
  refine ⟨?_, ?_, ?_, ?_, ?_⟩
  · obtain ⟨run, hrun, houtcome⟩ := Option.map_eq_some_iff.mp endsInOrder_nested.outcome_eq
    have hcleaned : run.1.cleaned = _ := congrArg Prod.fst houtcome
    have hafter : run.2.entries = _ := congrArg Prod.snd houtcome
    have hread : nested.readFile "./main.tf".toList =
        .ok (Utf8.encode "locals \x7b\n\x7d\n".toList) := by decide
    refine not_keepsCleaned endsInOrder_nested.wellFormed rfl rfl (by decide) hread
      ⟨run, hrun, ?_, .inr ?_⟩
    · rw [hcleaned]
      exact List.mem_cons_self
    · rw [hafter]
      decide
  · have hread : writtenThrough.readFile "main.tf".toList =
        .ok (Utf8.encode "locals\x7b\x7d".toList) := by decide
    have hwell : writtenThrough.WellFormed := by decide
    exact not_keepsCleaned hwell rfl rfl (by decide +kernel) hread (by decide +kernel)
  · have hread : backedUpHere.readFile "main.tf".toList =
        .ok (Utf8.encode "locals\x7b\x7d".toList) := by decide
    have hwell : backedUpHere.WellFormed := by decide
    exact not_keepsCleaned hwell rfl rfl (by decide +kernel) hread (by decide +kernel)
  · have hread : linkedSource.readFile "main.tf".toList =
        .ok (Utf8.encode "locals\x7b\x7d".toList) := by decide
    have hwell : linkedSource.WellFormed := by decide
    exact not_keepsCleaned hwell rfl rfl (by decide +kernel) hread (by decide +kernel)
  · obtain ⟨run, hrun, houtcome⟩ := Option.map_eq_some_iff.mp endsInOrder_overlaid.outcome_eq
    have hcleaned : run.1.cleaned = _ := congrArg Prod.fst houtcome
    have hafter : run.2.entries = _ := congrArg Prod.snd houtcome
    have hread : overlaid.readFile "./a/main.tf".toList =
        .ok (Utf8.encode "# a\n".toList) := by decide
    refine not_keepsCleaned endsInOrder_overlaid.wellFormed rfl rfl (by decide) hread
      ⟨run, hrun, ?_, .inr ?_⟩
    · rw [hcleaned]
      exact List.mem_cons_of_mem _ List.mem_cons_self
    · rw [hafter]
      decide

end Request

end HclTidy
