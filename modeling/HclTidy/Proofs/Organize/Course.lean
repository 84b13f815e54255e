import HclTidy.Proofs.Organize.Announced
import HclTidy.Proofs.Organize.Cleaning
import HclTidy.Proofs.Organize.Enumeration
import HclTidy.Proofs.Organize.Writing

/-!
# The course of a run

A run reads its configuration and its sources and groups their blocks. When that succeeds, it writes
a front of its output files, and all of them before it clears a front of its stale sources. Whatever
the outcome, nothing else changes the tree.
-/

set_option autoImplicit false

namespace HclTidy

open Run

/-- The failure can be that of cleaning up. -/
def Failure.IsOfCleaning : Failure → Prop
  | .organize _ | .breakdown _ => True
  | _ => False

/-- A run that has come to cleaning up has opened all its output files. -/
theorem Output.begun_eq {files : List OutputFile} {r : Except Failure Report}
    (h : ∀ failure, r = .error failure → failure.IsOfCleaning) : begun files r = files := by
  cases r with
  | ok report => rfl
  | error failure =>
    have hfailure := h failure rfl
    cases failure with
    | organize error => rfl
    | breakdown cause => rfl
    | _ => exact hfailure.elim

theorem Failure.isOfCleaning_ofFile (wrap : FileError → OrganizeError) (error : FileError) :
    (ofFile (fun e => .organize (wrap e)) error).IsOfCleaning := by
  unfold ofFile
  split <;> exact trivial

/-! ## Reading stages -/

theorem Request.isReading_loadConfig (request : Request) : IsReading request.loadConfig := by
  unfold Request.loadConfig
  refine isReading_tree.bind fun tree => ?_
  extract_lets path
  clear_value path
  split
  · exact isReading_pure _
  · refine (isReading_emit _).bind fun _ => ?_
    split
    · exact (isReading_emitDetails _).bind fun _ => isReading_pure _
    · exact isReading_throw _

theorem Request.isReading_group (config : Config) (blocks : List Block) :
    IsReading (Request.group config blocks) := by
  unfold Request.group
  refine (isReading_emitDetails _).bind fun _ => ?_
  split
  · exact (isReading_emit _).bind fun _ => isReading_pure _
  · exact isReading_throw _

theorem Output.isReading_plan (directory : Text) (files : List OutputFile) :
    IsReading (Output.plan directory files) :=
  isReading_forM fun _ => isReading_emit _

namespace Cleanup

/-- Whether one source is stale, with what is reported about it. -/
def judge (outputDirectory : Text) (generated : List Text) (tree : Tree) (path : Text) : Run Bool := do
  if (directoryOf path).contains '\x00' || outputDirectory.contains '\x00' then
    throw (.breakdown .embeddedNul)
  if isLeftOver tree path outputDirectory generated then Run.emit (.noLongerProduced path)
  pure (isStale tree path outputDirectory generated)

theorem staleSources_eq (paths : List Text) (outputDirectory : Text) (generated : List Text) :
    staleSources paths outputDirectory generated =
      Run.tree >>= fun tree => paths.filterM (judge outputDirectory generated tree) := rfl

section Judge

variable {outputDirectory : Text} {generated : List Text} {tree : Tree} {path : Text}

theorem isReading_judge : IsReading (judge outputDirectory generated tree path) := by
  unfold judge
  dsimp only
  by_cases hnul : ((directoryOf path).contains '\x00' || outputDirectory.contains '\x00') = true
  · rw [if_pos hnul]
    refine (isReading_throw _).bind fun _ => ?_
    exact Source.isReading_ite ((isReading_emit _).bind fun _ => isReading_pure _) (isReading_pure _)
  · rw [if_neg hnul]
    exact Source.isReading_ite ((isReading_emit _).bind fun _ => isReading_pure _) (isReading_pure _)

theorem judge_ok {stale : Bool} (h : (judge outputDirectory generated tree path).value tree = .ok stale) :
    isStale tree path outputDirectory generated = stale := by
  obtain ⟨session', h⟩ := result_of_value h
  unfold judge at h
  dsimp only at h
  by_cases hnul : ((directoryOf path).contains '\x00' || outputDirectory.contains '\x00') = true
  · rw [if_pos hnul] at h
    cases h
  · rw [if_neg hnul] at h
    split at h <;> exact Except.ok.inj (congrArg Prod.fst h)

end Judge

theorem isReading_staleSources (paths : List Text) (outputDirectory : Text) (generated : List Text) :
    IsReading (staleSources paths outputDirectory generated) := by
  rw [staleSources_eq]
  exact isReading_tree.bind fun tree => isReading_filterM fun path => isReading_judge

theorem staleSources_ok {paths : List Text} {outputDirectory : Text} {generated : List Text}
    {session session' : Session} {stale : List Text}
    (h : (staleSources paths outputDirectory generated).result session = (.ok stale, session')) :
    stale = paths.filter fun path => isStale session.tree path outputDirectory generated := by
  rw [staleSources_eq, result_bind_of_ok (result_tree _)] at h
  exact filterM_ok (fun _ => isReading_judge) h fun _ _ => judge_ok

theorem isConfined_judge (outputDirectory : Text) (generated : List Text) (tree : Tree) (path : Text) :
    IsConfined Session.announced Failure.IsOfCleaning (judge outputDirectory generated tree path) := by
  have hthrow : IsConfined Session.announced Failure.IsOfCleaning
      (throw (.breakdown .embeddedNul) : Run PUnit) := isConfined_throw trivial
  have hreport : IsConfined Session.announced Failure.IsOfCleaning (do
      if isLeftOver tree path outputDirectory generated then Run.emit (.noLongerProduced path)
      pure (isStale tree path outputDirectory generated) : Run Bool) :=
    isConfined_ite ((isConfined_emit_of_none rfl).bind fun _ => isConfined_pure _) (isConfined_pure _)
  exact isConfined_ite (hthrow.bind fun _ => hreport) hreport

theorem isConfined_staleSources (paths : List Text) (outputDirectory : Text) (generated : List Text) :
    IsConfined Session.announced Failure.IsOfCleaning
      (staleSources paths outputDirectory generated) := by
  rw [staleSources_eq]
  exact isConfined_tree.bind fun tree => isConfined_filterM fun path => isConfined_judge _ _ tree path

end Cleanup

namespace Request

/-! ## What a run works on -/

/-- The source files that a run on a tree reads. -/
def sources (request : Request) (tree : Tree) : List ParsedFile :=
  ((Source.readInput request.host.faults request.input (tree.isDirectory request.input)
    request.recursive).value tree).toOption.getD []

/-- The output files of a run on a tree. -/
def outputs (request : Request) (tree : Tree) : List OutputFile :=
  ((request.loadConfig.value tree).toOption.bind fun config =>
    (Grouping.ofBlocks config ((request.sources tree).flatMap ParsedFile.blocks)).toOption).getD []

/-- The directory of the input of a run on a tree. -/
def inputOn (request : Request) (tree : Tree) : Text :=
  request.inputDirectory (tree.isDirectory request.input)

/-- The directory that a run on a tree writes to. -/
def outputOn (request : Request) (tree : Tree) : Text :=
  if request.outputDirectory.isEmpty then request.inputOn tree else request.outputDirectory

/-- The directory that takes the backups of a run, if it makes any. -/
def backupTo (request : Request) (outputDirectory : Text) : Option Text :=
  if request.backup then some (Path.join outputDirectory Source.backupName) else none

/-- How a run that ends with an outcome changes the tree. It leaves the tree as it is, or cannot create
the output directory, or writes a front of the output files and does not write the next one to the end,
or writes all of them and clears a front of the stale ones among the paths of its sources. -/
inductive Finishes (request : Request) (outputDirectory : Text) (paths : List Text)
    (files : List OutputFile) : Except Failure Report → Tree → Tree → Prop
  | unchanged {r tree} : request.dryRun = true →
      Finishes request outputDirectory paths files r tree tree
  | unopened {error tree start} : Tree.GainsDirectories tree start →
      Finishes request outputDirectory paths files
        (.error (.ofFile (fun e => .write (.noDirectory e)) error)) tree start
  | interrupted {failure tree start between tree' done rest} : Tree.GainsDirectories tree start →
      files = done ++ rest → Steps (Output.Writes outputDirectory) done start between →
      Output.Interrupts outputDirectory rest failure between tree' →
      Finishes request outputDirectory paths files (.error failure) tree tree'
  | settled {r tree start between start' tree' stale cleared} :
      (∀ failure, r = .error failure → failure.IsOfCleaning) → Tree.GainsDirectories tree start →
      Steps (Output.Writes outputDirectory) files start between →
      stale = paths.filter (fun path =>
        Cleanup.isStale between path outputDirectory (files.map OutputFile.name)) →
      Tree.GainsDirectories between start' → cleared <+: stale →
      (stale.Nodup → cleared.Sublist (Cleanup.handled stale r)) →
      Steps (Cleanup.Clears (request.backupTo outputDirectory)) cleared start' tree' →
      Finishes request outputDirectory paths files r tree tree'

section Finish

variable {request : Request} {session session' : Session}

/-- The sources that are cleared: the stale ones, of a run in place that is not dry. -/
def cleared (request : Request) (inPlace : Bool) (stale : List Text) : List Text :=
  if !request.dryRun && inPlace then stale else []

/-- Clears sources. -/
def clear (request : Request) (outputDirectory : Text) (paths : List Text) : Run PUnit :=
  if !paths.isEmpty then
    if request.backup then Cleanup.backUp request.host.faults outputDirectory paths
    else paths.forM (Cleanup.removeOne request.host.faults)
  else pure ⟨⟩

/-- The part of a run behind the writing of its files. -/
def settle (request : Request) (inputDirectory outputDirectory : Text) (sources : List ParsedFile)
    (files : List OutputFile) (written unchanged : List Text) : Run Report := do
  let inPlace := (← Run.tree).samePlace outputDirectory inputDirectory
  let stale ←
    Cleanup.staleSources (sources.map ParsedFile.name) outputDirectory (files.map OutputFile.name)
  request.clear outputDirectory (request.cleared inPlace stale)
  Run.emit
    (if request.dryRun then .planned inPlace request.backup
     else .organized outputDirectory request.backup (request.cleared inPlace stale).length)
  pure {
    processedFiles := sources.length
    totalBlocks := (sources.flatMap ParsedFile.blocks).length
    outputFiles := files.length
    outputDirectory := outputDirectory
    dryRun := request.dryRun
    written := written
    unchanged := unchanged
    cleaned := request.cleared inPlace stale }

theorem finish_eq (request : Request) (inputDirectory outputDirectory : Text)
    (sources : List ParsedFile) (files : List OutputFile) :
    request.finish inputDirectory outputDirectory sources files =
      if request.dryRun then
        Output.plan outputDirectory files >>= fun _ =>
          request.settle inputDirectory outputDirectory sources files [] []
      else
        Output.write request.host.faults outputDirectory files >>= fun paths =>
          request.settle inputDirectory outputDirectory sources files paths.1 paths.2 := by
  have hsettle (inPlace : Bool) (stale : List Text) (next : PUnit → Run Report) :
      (request.clear outputDirectory (request.cleared inPlace stale) >>= next) =
        if !(request.cleared inPlace stale).isEmpty then
          if request.backup then
            Cleanup.backUp request.host.faults outputDirectory (request.cleared inPlace stale) >>= next
          else
            (request.cleared inPlace stale).forM (Cleanup.removeOne request.host.faults) >>= next
        else next ⟨⟩ := by
    unfold clear
    split
    · split <;> rfl
    · rfl
  unfold finish settle
  cases hdry : request.dryRun with
  | true =>
    simp only [hsettle, if_true, pure_bind]
    simp only [cleared, hdry]
  | false =>
    simp only [hsettle, Bool.false_eq_true, if_false]
    simp only [cleared, hdry]

theorem finish_of_dry (hdry : request.dryRun = true) (inputDirectory outputDirectory : Text)
    (sources : List ParsedFile) (files : List OutputFile) :
    request.finish inputDirectory outputDirectory sources files =
      Output.plan outputDirectory files >>= fun _ =>
        request.settle inputDirectory outputDirectory sources files [] [] := by
  rw [finish_eq, if_pos hdry]

theorem finish_of_not_dry (hdry : request.dryRun = false) (inputDirectory outputDirectory : Text)
    (sources : List ParsedFile) (files : List OutputFile) :
    request.finish inputDirectory outputDirectory sources files =
      Output.write request.host.faults outputDirectory files >>= fun paths =>
        request.settle inputDirectory outputDirectory sources files paths.1 paths.2 := by
  rw [finish_eq, if_neg (by rw [hdry]; exact Bool.false_ne_true)]

theorem clear_cases {outputDirectory : Text} {paths : List Text} {r : Except Failure PUnit}
    (h : (request.clear outputDirectory paths).result session = (r, session')) :
    ∃ start done, Cleanup.Readies (request.backupTo outputDirectory) session.tree start ∧
      done <+: paths ∧
      Steps (Cleanup.Clears (request.backupTo outputDirectory)) done start session'.tree ∧
      (r = .ok ⟨⟩ → done = paths) ∧ (paths.Nodup → done.Sublist (Cleanup.handled paths r)) := by
  unfold clear at h
  unfold backupTo
  split at h
  · split at h
    · obtain ⟨start, done, rest, hready, rfl, hdone, hall, hhandled⟩ := Cleanup.backUp_cases h
      rw [if_pos ‹_›]
      refine ⟨start, done, hready, List.prefix_append _ _, hdone, fun hok => ?_, hhandled⟩
      rw [hall hok, List.append_nil]
    · obtain ⟨done, rest, rfl, hdone, hall, hhandled⟩ := Cleanup.removeAll_cases h
      rw [if_neg ‹_›]
      refine ⟨session.tree, done, .inl rfl, List.prefix_append _ _, hdone, fun hok => ?_, hhandled⟩
      rw [hall hok, List.append_nil]
  · next hnone =>
    cases h
    have hpaths : paths = [] := by simpa using hnone
    exact ⟨session.tree, [], .inl rfl, List.nil_prefix, .nil, fun _ => hpaths.symm,
      fun _ => List.nil_sublist _⟩

/-- What is cleared is nothing, or all stale sources of a run in place that is not dry. -/
theorem cleared_cases (request : Request) (inPlace : Bool) (stale : List Text) :
    request.cleared inPlace stale = [] ∨
      request.cleared inPlace stale = stale ∧ request.dryRun = false ∧ inPlace = true := by
  unfold cleared
  split
  · next h =>
    rw [Bool.and_eq_true, Bool.not_eq_true'] at h
    exact .inr ⟨rfl, h⟩
  · exact .inl rfl

theorem isConfined_clear (request : Request) (outputDirectory : Text) (paths : List Text) :
    IsConfined Session.announced Failure.IsOfCleaning (request.clear outputDirectory paths) := by
  have hset (tree : Tree) : IsConfined Session.announced Failure.IsOfCleaning (Run.setTree tree) :=
    isConfined_setTree (fun _ _ => rfl) tree
  unfold clear
  refine isConfined_ite (isConfined_ite ?_ ?_) (isConfined_pure _)
  · unfold Cleanup.backUp
    refine isConfined_tree.bind fun tree => ?_
    split
    · exact (hset _).bind fun _ =>
        isConfined_throw (Failure.isOfCleaning_ofFile .noBackupDirectory _)
    · refine (hset _).bind fun _ => isConfined_forM fun path => ?_
      exact isConfined_tree.bind fun tree =>
        (isConfined_require (Failure.isOfCleaning_ofFile (.notBackedUp path)) _).bind fun _ =>
          (hset _).bind fun _ => isConfined_emit_of_none rfl
  · refine isConfined_forM fun path => ?_
    exact isConfined_tree.bind fun tree =>
      (isConfined_require (Failure.isOfCleaning_ofFile (.notRemoved path)) _).bind fun _ =>
        (hset _).bind fun _ => isConfined_emit_of_none rfl

theorem isConfined_settle (inputDirectory outputDirectory : Text) (sources : List ParsedFile)
    (files : List OutputFile) (written unchanged : List Text) :
    IsConfined Session.announced Failure.IsOfCleaning
      (request.settle inputDirectory outputDirectory sources files written unchanged) := by
  unfold settle
  refine isConfined_tree.bind fun tree => (Cleanup.isConfined_staleSources _ _ _).bind fun stale =>
    (isConfined_clear _ _ _).bind fun _ => (isConfined_emit_of_none ?_).bind fun _ =>
      isConfined_pure _
  split <;> rfl

/-- Settling clears a front of the stale sources, and nothing in a dry run or elsewhere than in the
directory of the input. -/
theorem settle_cases {inputDirectory outputDirectory : Text} {sources : List ParsedFile}
    {files : List OutputFile} {written unchanged : List Text} {r : Except Failure Report}
    (h : (request.settle inputDirectory outputDirectory sources files written unchanged).result
      session = (r, session')) :
    (∀ failure, r = .error failure → failure.IsOfCleaning) ∧
    ∃ stale start done, stale = (sources.map ParsedFile.name).filter (fun path =>
        Cleanup.isStale session.tree path outputDirectory (files.map OutputFile.name)) ∧
      Cleanup.Readies (request.backupTo outputDirectory) session.tree start ∧ done <+: stale ∧
      (stale.Nodup → done.Sublist (Cleanup.handled stale r)) ∧
      Steps (Cleanup.Clears (request.backupTo outputDirectory)) done start session'.tree ∧
      (request.dryRun = true ∨ session.tree.samePlace outputDirectory inputDirectory = false →
        session'.tree = session.tree) := by
  refine ⟨(isConfined_settle _ _ _ _ _ _ h).2, ?_⟩
  unfold settle at h
  rw [result_bind_of_ok (result_tree _)] at h
  have hreading := Cleanup.isReading_staleSources (sources.map ParsedFile.name) outputDirectory
    (files.map OutputFile.name)
  obtain ⟨failure, hstale, -⟩ | ⟨stale, between, hstale, h⟩ := result_bind_cases h
  · have htree : session'.tree = session.tree := by rw [← hreading.tree session, hstale]
    refine ⟨_, session.tree, [], rfl, .inl rfl, List.nil_prefix, fun _ => List.nil_sublist _, ?_,
      fun _ => htree⟩
    rw [htree]
    exact .nil
  · have htree : between.tree = session.tree := by rw [← hreading.tree session, hstale]
    obtain ⟨r', final, hclear, hfinal, hends⟩ : ∃ r' final, (request.clear outputDirectory
        (request.cleared (session.tree.samePlace outputDirectory inputDirectory) stale)).result
          between = (r', final) ∧ session'.tree = final.tree ∧
            Cleanup.handled stale r' = Cleanup.handled stale r := by
      obtain ⟨failure, hclear, rfl⟩ | ⟨⟨⟩, after, hclear, hreport⟩ := result_bind_cases h
      · exact ⟨_, _, hclear, rfl, Cleanup.handled_error stale failure⟩
      · cases hreport
        exact ⟨_, _, hclear, rfl, rfl⟩
    rw [hfinal]
    obtain ⟨start, done, hready, hfront, hdone, -, hhandled⟩ := clear_cases hclear
    rw [htree] at hready
    refine ⟨stale, start, done, Cleanup.staleSources_ok hstale, hready, ?_⟩
    obtain hcleared | ⟨hcleared, hdry, hplace⟩ := request.cleared_cases
      (session.tree.samePlace outputDirectory inputDirectory) stale
    · rw [hcleared] at hfront hclear
      cases hclear
      exact ⟨hfront.trans List.nil_prefix, fun _ =>
        (List.prefix_nil.mp hfront) ▸ List.nil_sublist _, hdone, fun _ => htree⟩
    · rw [hcleared, hends] at hhandled
      rw [hcleared] at hfront
      refine ⟨hfront, hhandled, hdone, ?_⟩
      rw [hdry, hplace]
      rintro (hnone | hnone) <;> cases hnone

/-- Settling that succeeds has cleared what it reports: the stale sources, of a run in place that is
not dry. -/
theorem settle_clears {inputDirectory outputDirectory : Text} {sources : List ParsedFile}
    {files : List OutputFile} {written unchanged : List Text} {report : Report}
    (h : (request.settle inputDirectory outputDirectory sources files written unchanged).result
      session = (.ok report, session')) :
    report.cleaned = request.cleared (session.tree.samePlace outputDirectory inputDirectory)
        ((sources.map ParsedFile.name).filter fun path =>
          Cleanup.isStale session.tree path outputDirectory (files.map OutputFile.name)) ∧
      ∃ start, Cleanup.Readies (request.backupTo outputDirectory) session.tree start ∧
        Steps (Cleanup.Clears (request.backupTo outputDirectory)) report.cleaned start
          session'.tree := by
  unfold settle at h
  rw [result_bind_of_ok (result_tree _)] at h
  obtain ⟨stale, events, hstale, h⟩ := (Cleanup.isReading_staleSources (sources.map ParsedFile.name)
    outputDirectory (files.map OutputFile.name)).bind_ok h
  obtain ⟨⟨⟩, after, hclear, h⟩ := result_bind_ok h
  cases h
  obtain ⟨start, done, hready, -, hdone, hdoneAll, -⟩ := clear_cases hclear
  rw [hdoneAll rfl] at hdone
  exact ⟨by rw [← Cleanup.staleSources_ok hstale], start, hready, hdone⟩

/-- Settling succeeds and leaves the tree as it is when there is nothing to clear. -/
theorem settle_idle {inputDirectory outputDirectory : Text} {sources : List ParsedFile}
    {files : List OutputFile} {written unchanged : List Text} {stale : List Text}
    (hstale : (Cleanup.staleSources (sources.map ParsedFile.name) outputDirectory
      (files.map OutputFile.name)).value session.tree = .ok stale)
    (hidle : request.cleared (session.tree.samePlace outputDirectory inputDirectory) stale = []) :
    ∃ report after, (request.settle inputDirectory outputDirectory sources files written
      unchanged).result session = (.ok report, after) ∧ report.cleaned = [] ∧
        after.tree = session.tree := by
  obtain ⟨events, hresult⟩ := (Cleanup.isReading_staleSources _ _ _).result_eq session
  rw [hstale] at hresult
  unfold settle
  rw [result_bind_of_ok (result_tree _), result_bind_of_ok hresult, hidle]
  exact ⟨_, _, rfl, rfl, rfl⟩

section

variable {inputDirectory outputDirectory : Text} {sources : List ParsedFile} {files : List OutputFile}
  {r : Except Failure Report}

/-- The last part of a dry run leaves the tree as it is. -/
theorem finish_dry (hdry : request.dryRun = true)
    (h : (request.finish inputDirectory outputDirectory sources files).result session = (r, session')) :
    session'.tree = session.tree := by
  have hplan := Output.isReading_plan outputDirectory files
  rw [finish_of_dry hdry] at h
  obtain ⟨failure, hproduce, rfl⟩ | ⟨⟨⟩, between, hproduce, hsettle⟩ := result_bind_cases h
  · rw [← hplan.tree session, hproduce]
  · obtain ⟨-, -, -, -, -, -, -, -, -, htree⟩ := settle_cases hsettle
    rw [htree (.inl hdry), ← hplan.tree session, hproduce]

/-- The last part of a run that is not dry fails in writing its files or goes on to settle. -/
theorem finish_writes (hdry : request.dryRun = false)
    (h : (request.finish inputDirectory outputDirectory sources files).result session = (r, session')) :
    (∃ error, r = .error (.ofFile (fun e => .write (.noDirectory e)) error) ∧
        session'.tree = Output.opened request.host.faults session.tree outputDirectory) ∨
      (∃ failure done rest between, r = .error failure ∧ files = done ++ rest ∧
        Steps (Output.Writes outputDirectory) done
          (Output.opened request.host.faults session.tree outputDirectory) between ∧
        Output.Interrupts outputDirectory rest failure between session'.tree) ∨
      ∃ written unchanged between,
        Steps (Output.Writes outputDirectory) files
            (Output.opened request.host.faults session.tree outputDirectory) between.tree ∧
          (request.settle inputDirectory outputDirectory sources files written unchanged).result
            between = (r, session') := by
  rw [finish_of_not_dry hdry] at h
  obtain ⟨failure, hwrite, rfl⟩ | ⟨⟨written, unchanged⟩, between, hwrite, hsettle⟩ :=
    result_bind_cases h
  · obtain ⟨error, hfailure, htree⟩ | ⟨_, done, rest, between, hfailure, hsteps⟩ | ⟨-, _, hok⟩ :=
      Output.write_cases hwrite
    · cases hfailure
      exact .inl ⟨error, rfl, htree⟩
    · cases hfailure
      exact .inr (.inl ⟨failure, done, rest, between, rfl, hsteps⟩)
    · cases hok
  · obtain ⟨_, hfailure, -⟩ | ⟨_, _, _, _, hfailure, -⟩ | ⟨hdone, -⟩ := Output.write_cases hwrite
    · cases hfailure
    · cases hfailure
    · exact .inr (.inr ⟨written, unchanged, between, hdone, hsettle⟩)

/-- What the last part of a run has done to the tree, whether it has succeeded or not. -/
theorem finish_cases
    (h : (request.finish inputDirectory outputDirectory sources files).result session = (r, session')) :
    Finishes request outputDirectory (sources.map ParsedFile.name) files r session.tree
      session'.tree := by
  cases hdry : request.dryRun with
  | true =>
    rw [finish_dry hdry h]
    exact .unchanged hdry
  | false =>
    have hgains := Output.opened_gains request.host.faults session.tree outputDirectory
    obtain ⟨error, rfl, htree⟩ | ⟨failure, done, rest, between, rfl, hfiles, hdone, hbreaks⟩ |
      ⟨written, unchanged, between, hdone, hsettle⟩ := finish_writes hdry h
    · exact .unopened (htree ▸ hgains)
    · exact .interrupted hgains hfiles hdone hbreaks
    · obtain ⟨hfails, stale, start', cleared, hstale, hready, hfront, hhandled, hcleared, -⟩ :=
        settle_cases hsettle
      exact .settled hfails hgains hdone hstale hready.gains hfront hhandled hcleared

end

end Finish

section Execute

variable {request : Request} {session session' : Session}

theorem value_sources {tree : Tree} {files : List ParsedFile}
    (h : (Source.readInput request.host.faults request.input (tree.isDirectory request.input)
      request.recursive).value tree = .ok files) : request.sources tree = files := by
  rw [sources, h]
  rfl

theorem group_ok {config : Config} {blocks : List Block} {files : List OutputFile}
    (h : (group config blocks).result session = (.ok files, session')) :
    Grouping.ofBlocks config blocks = .ok files := by
  unfold group at h
  rw [result_bind_of_ok (result_emitDetails _ _)] at h
  split at h
  · next hfiles =>
    cases h
    exact hfiles
  · cases h

theorem outputs_eq {tree : Tree} {config : Config} {sources : List ParsedFile} {files : List OutputFile}
    (hconfig : request.loadConfig.value tree = .ok config) (hsources : request.sources tree = sources)
    (hfiles : Grouping.ofBlocks config (sources.flatMap ParsedFile.blocks) = .ok files) :
    request.outputs tree = files := by
  rw [outputs, hconfig, hsources]
  change ((Grouping.ofBlocks config _).toOption).getD [] = files
  rw [hfiles]
  rfl

/-- The part of a run that only reads: its sources and, when these have blocks, its output files. -/
def prepare (request : Request) : Run (List ParsedFile × Option (List OutputFile)) := do
  let tree ← Run.tree
  if !tree.exists? request.input then throw (.organize (.noInput request.input))
  let config ← request.loadConfig
  let sources ← Source.readInput request.host.faults request.input (tree.isDirectory request.input)
    request.recursive
  if (sources.flatMap ParsedFile.blocks).isEmpty then
    Run.emit .nothingFound
    pure (sources, none)
  else
    let files ← group config (sources.flatMap ParsedFile.blocks)
    pure (sources, some files)

/-- The part of a run on a tree behind that. -/
def conclude (request : Request) (tree : Tree) :
    List ParsedFile × Option (List OutputFile) → Run Report
  | (sources, none) =>
    pure ⟨sources.length, 0, 0, request.outputOn tree, request.dryRun, [], [], []⟩
  | (sources, some files) =>
    request.finish (request.inputOn tree) (request.outputOn tree) sources files

theorem execute_eq (request : Request) (session : Session) :
    request.execute.result session =
      (request.prepare >>= request.conclude session.tree).result session := by
  unfold execute prepare
  rw [bind_assoc, result_bind_of_ok (result_tree _), result_bind_of_ok (result_tree _)]
  dsimp only
  by_cases hmissing : (!session.tree.exists? request.input) = true
  · rw [if_pos hmissing, if_pos hmissing]
    rfl
  · rw [if_neg hmissing, if_neg hmissing, bind_assoc]
    refine congrArg (fun next => (request.loadConfig >>= next).result session) ?_
    funext config
    rw [bind_assoc]
    refine congrArg _ ?_
    funext sources
    split
    · rfl
    · rw [bind_assoc]
      rfl

theorem isReading_prepare (request : Request) : IsReading request.prepare := by
  unfold prepare
  refine isReading_tree.bind fun tree => ?_
  have hread : IsReading (request.loadConfig >>= fun config => do
      let sources ← Source.readInput request.host.faults request.input
        (tree.isDirectory request.input) request.recursive
      if (sources.flatMap ParsedFile.blocks).isEmpty then
        Run.emit .nothingFound
        pure (sources, none)
      else
        let files ← group config (sources.flatMap ParsedFile.blocks)
        pure (sources, some files)) :=
    request.isReading_loadConfig.bind fun config =>
      (Source.isReading_readInput _ _ _).bind fun sources =>
        Source.isReading_ite ((isReading_emit _).bind fun _ => isReading_pure _)
          ((isReading_group _ _).bind fun _ => isReading_pure _)
  exact Source.isReading_ite ((isReading_throw _).bind fun _ => hread) hread

/-- What has been prepared are the sources and the output files of the run. -/
theorem prepare_ok {tree : Tree} {prepared : List ParsedFile × Option (List OutputFile)}
    (h : request.prepare.value tree = .ok prepared) :
    prepared.1 = request.sources tree ∧
      ∃ config, request.loadConfig.value tree = .ok config ∧
        Grouping.ofBlocks config ((request.sources tree).flatMap ParsedFile.blocks) =
          .ok (request.outputs tree) ∧
        (prepared.2 = none ∧ request.outputs tree = [] ∨
          prepared.2 = some (request.outputs tree)) := by
  obtain ⟨session', h⟩ := result_of_value h
  unfold prepare at h
  rw [result_bind_of_ok (result_tree _)] at h
  dsimp only at h
  split at h
  · cases h
  obtain ⟨config, events, hconfig, h⟩ := request.isReading_loadConfig.bind_ok h
  obtain ⟨sources, events, hsources, h⟩ := (Source.isReading_readInput _ _ _).bind_ok h
  have hconfig := request.isReading_loadConfig.value_of_result hconfig
  have hread : (Source.readInput request.host.faults request.input (tree.isDirectory request.input)
      request.recursive).value tree = .ok sources :=
    (Source.isReading_readInput _ _ _).value_of_result hsources
  have hvalue := value_sources hread
  split at h
  · next hnone =>
    cases h
    have hgroups : Grouping.ofBlocks config (sources.flatMap ParsedFile.blocks) = .ok [] := by
      rw [List.isEmpty_iff.mp hnone]
      exact congrArg Except.ok List.mergeSort_nil
    have houtputs := outputs_eq hconfig hvalue hgroups
    rw [hvalue, houtputs]
    exact ⟨rfl, config, hconfig, hgroups, .inl ⟨rfl, rfl⟩⟩
  · obtain ⟨files, between, hfiles, h⟩ := result_bind_ok h
    cases h
    have hgroups := group_ok hfiles
    rw [hvalue, outputs_eq hconfig hvalue hgroups]
    exact ⟨rfl, config, hconfig, hgroups, .inr rfl⟩

/-- A run only reads up to its last part, which it does not come to when it fails there or finds no
blocks. -/
theorem execute_reaches {r : Except Failure Report}
    (h : request.execute.result session = (r, session')) :
    (session'.tree = session.tree ∧ ∀ report, r = .ok report →
        request.outputs session.tree = [] ∧ report.written = [] ∧ report.unchanged = [] ∧
          report.cleaned = []) ∨
      ∃ config between, request.loadConfig.value session.tree = .ok config ∧
        Grouping.ofBlocks config ((request.sources session.tree).flatMap ParsedFile.blocks) =
          .ok (request.outputs session.tree) ∧
        between.tree = session.tree ∧
        (request.finish (request.inputOn session.tree) (request.outputOn session.tree)
          (request.sources session.tree) (request.outputs session.tree)).result between =
            (r, session') := by
  rw [execute_eq] at h
  obtain ⟨htree, failure, rfl⟩ | ⟨⟨sources, files⟩, events, hprepare, h⟩ :=
    request.isReading_prepare.bind_cases h
  · exact .inl ⟨htree, fun _ hok => by cases hok⟩
  obtain ⟨rfl, config, hconfig, hgroups, ⟨rfl, hnone⟩ | rfl⟩ := prepare_ok hprepare
  · cases h
    refine .inl ⟨rfl, fun _ hok => ?_⟩
    cases hok
    exact ⟨hnone, rfl, rfl, rfl⟩
  · refine .inr ⟨config, _, hconfig, hgroups, ?_, h⟩
    rfl

/-- What a run has done to the tree, whether it has succeeded or not: nothing, or what its last part
does with the output files that its blocks are distributed over. -/
theorem execute_cases {r : Except Failure Report}
    (h : request.execute.result session = (r, session')) :
    (session'.tree = session.tree ∧
        ((∃ report, r = .ok report) → request.outputs session.tree = [])) ∨
      ∃ config, request.loadConfig.value session.tree = .ok config ∧
        Grouping.ofBlocks config ((request.sources session.tree).flatMap ParsedFile.blocks) =
          .ok (request.outputs session.tree) ∧
        Finishes request (request.outputOn session.tree)
          ((request.sources session.tree).map ParsedFile.name) (request.outputs session.tree) r
          session.tree session'.tree := by
  obtain ⟨htree, hnone⟩ | ⟨config, between, hconfig, hgroups, htree, hfinish⟩ := execute_reaches h
  · exact .inl ⟨htree, fun ⟨report, hok⟩ => (hnone report hok).1⟩
  · have hfinishes := finish_cases hfinish
    rw [htree] at hfinishes
    exact .inr ⟨config, hconfig, hgroups, hfinishes⟩

/-- A run whose blocks can be distributed ends as its last part does. -/
theorem execute_eq_finish {config : Config} {files : List OutputFile}
    (hinput : session.tree.exists? request.input = true)
    (hconfig : request.loadConfig.value session.tree = .ok config)
    (hsources : (Source.readInput request.host.faults request.input
      (session.tree.isDirectory request.input) request.recursive).value session.tree =
        .ok (request.sources session.tree))
    (hblocks : (request.sources session.tree).flatMap ParsedFile.blocks ≠ [])
    (hfiles : Grouping.ofBlocks config ((request.sources session.tree).flatMap ParsedFile.blocks) =
      .ok files) :
    request.execute.result session =
      (request.finish (request.inputOn session.tree) (request.outputOn session.tree)
        (request.sources session.tree) files).result
          ⟨session.tree, .grouped files.length ::
            (((Grouping.notices config ((request.sources session.tree).flatMap
              ParsedFile.blocks)).map Event.detail).reverse ++
              ((Source.readInput request.host.faults request.input
                (session.tree.isDirectory request.input) request.recursive).result
                  (request.loadConfig.result session).2).2.events)⟩ := by
  have hloaded := request.isReading_loadConfig.tree session
  have hload : request.loadConfig.result session = (.ok config, (request.loadConfig.result session).2) :=
    Prod.ext ((request.isReading_loadConfig.value session).trans hconfig) rfl
  have hreading : IsReading (Source.readInput request.host.faults request.input
      (session.tree.isDirectory request.input) request.recursive) := Source.isReading_readInput _ _ _
  have hread := hreading.value (request.loadConfig.result session).2
  have htree := hreading.tree (request.loadConfig.result session).2
  rw [hloaded] at hread htree
  unfold execute
  rw [result_bind_of_ok (result_tree _)]
  dsimp only
  rw [if_neg (by rw [hinput]; exact Bool.false_ne_true), result_bind_of_ok hload,
    result_bind_of_ok (Prod.ext (hread.trans hsources) rfl),
    if_neg (by rwa [List.isEmpty_iff])]
  unfold group
  rw [bind_assoc, result_bind_of_ok (result_emitDetails _ _), hfiles]
  dsimp only
  rw [bind_assoc, result_bind_of_ok (result_emit _ _), pure_bind, htree]
  rfl

end Execute

end Request

end HclTidy
