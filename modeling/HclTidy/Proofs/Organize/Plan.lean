import HclTidy.Proofs.Organize.Outputs

/-!
# The plan of a run

A dry run reads all that the run reads, announces the files that the run would write and changes
nothing. It succeeds when the run does, with the same counts, and the run divides the paths that it
has announced into written and unchanged ones. A run that fails while it reads has changed nothing,
either.
-/

set_option autoImplicit false

namespace HclTidy

open Run

/-! ## Reading announces nothing -/

namespace Request

theorem isSilent_loadConfig (request : Request) : IsSilent request.loadConfig := by
  unfold loadConfig
  refine isConfined_tree.bind fun tree => ?_
  extract_lets path
  clear_value path
  refine isConfined_ite (isConfined_pure _) ((isConfined_emit_of_none rfl).bind fun _ => ?_)
  split
  · exact (isConfined_emitDetails_announced _).bind fun _ => isConfined_pure _
  · exact isConfined_throw trivial

theorem isSilent_group (config : Config) (blocks : List Block) : IsSilent (group config blocks) := by
  unfold group
  refine (isConfined_emitDetails_announced _).bind fun _ => ?_
  split
  · exact (isConfined_emit_of_none rfl).bind fun _ => isConfined_pure _
  · exact isConfined_throw trivial

theorem isSilent_prepare (request : Request) : IsSilent request.prepare := by
  unfold prepare
  refine isConfined_tree.bind fun tree => ?_
  have hread : IsSilent (request.loadConfig >>= fun config => do
      let sources ← Source.readInput request.host.faults request.input (tree.isDirectory request.input)
        request.recursive
      if (sources.flatMap ParsedFile.blocks).isEmpty then
        Run.emit .nothingFound
        pure (sources, none)
      else
        let files ← group config (sources.flatMap ParsedFile.blocks)
        pure (sources, some files)) :=
    request.isSilent_loadConfig.bind fun config =>
      (Source.isSilent_readInput _ _ _).bind fun sources =>
        isConfined_ite ((isConfined_emit_of_none rfl).bind fun _ => isConfined_pure _)
          ((isSilent_group _ _).bind fun _ => isConfined_pure _)
  exact isConfined_ite ((isConfined_throw trivial).bind fun _ => hread) hread

end Request

/-! ## Settling -/

/-- The failure is one of reading and grouping: an error of the configuration, of a source or of two
blocks with one address. -/
def Failure.isOfReading : Failure → Bool
  | .config _ | .source _ | .duplicate _ => true
  | _ => false

/-- The failure is none of reading and grouping. -/
abbrev Failure.IsLate (failure : Failure) : Prop := failure.isOfReading = false

theorem Failure.isLate_ofFile {wrap : FileError → Failure} (h : ∀ error, (wrap error).IsLate)
    (error : FileError) : (Failure.ofFile wrap error).IsLate := by
  unfold ofFile
  split
  · exact h error
  · rfl

theorem Failure.isLate_of_isOfCleaning {failure : Failure} (h : failure.IsOfCleaning) :
    failure.IsLate := by
  cases failure with
  | organize error => rfl
  | breakdown cause => rfl
  | _ => exact h.elim

theorem Output.Interrupts.isLate {directory : Text} {files : List OutputFile} {failure : Failure}
    {tree tree' : Tree} (h : Interrupts directory files failure tree tree') : failure.IsLate := by
  cases h with
  | refused => exact Failure.isLate_ofFile (fun _ => rfl) _
  | brokenOff => rfl

namespace Cleanup

section Judge

variable {outputDirectory : Text} {generated : List Text}

/-- Whether a source can be judged depends on its path alone. -/
theorem judge_isOk {tree other : Tree} {path : Text} {stale : Bool}
    (h : (judge outputDirectory generated tree path).value tree = .ok stale) :
    ∃ stale', (judge outputDirectory generated other path).value other = .ok stale' := by
  obtain ⟨session', h⟩ := result_of_value h
  unfold judge at h ⊢
  dsimp only at h ⊢
  by_cases hnul : ((directoryOf path).contains '\x00' || outputDirectory.contains '\x00') = true
  · rw [if_pos hnul] at h
    cases h
  · rw [if_neg hnul]
    split <;> exact ⟨_, rfl⟩

theorem staleSources_isOk {tree : Tree} {paths stale : List Text}
    (h : (staleSources paths outputDirectory generated).value tree = .ok stale) (other : Tree) :
    ∃ stale', (staleSources paths outputDirectory generated).value other = .ok stale' := by
  have hvalue (t : Tree) : (staleSources paths outputDirectory generated).value t =
      (paths.filterM (judge outputDirectory generated t)).value t := by
    rw [staleSources_eq, isReading_tree.value_bind fun _ => isReading_filterM fun _ => isReading_judge]
    rfl
  rw [hvalue] at h ⊢
  exact filterM_isOk (fun _ => isReading_judge) (fun _ => isReading_judge) (fun _ _ => judge_isOk) h

end Judge

end Cleanup

namespace Request

section Settle

variable {request : Request} {inputDirectory outputDirectory : Text} {sources : List ParsedFile}
  {files : List OutputFile} {written unchanged : List Text} {session session' : Session}

/-- Settling a dry run succeeds when the sources can be judged. -/
theorem settle_dry (hdry : request.dryRun = true) {tree : Tree} {stale : List Text}
    (hstale : (Cleanup.staleSources (sources.map ParsedFile.name) outputDirectory
      (files.map OutputFile.name)).value tree = .ok stale) :
    ∃ report after, (request.settle inputDirectory outputDirectory sources files written
      unchanged).result session = (.ok report, after) := by
  obtain ⟨stale', hstale'⟩ := Cleanup.staleSources_isOk hstale session.tree
  obtain ⟨report, after, hresult, -⟩ := settle_idle hstale' (by rw [cleared, hdry]; rfl)
  exact ⟨report, after, hresult⟩

end Settle

end Request

/-- Planning announces the paths of the files. -/
theorem Output.plan_ok (directory : Text) (files : List OutputFile) (session : Session) :
    ∃ after, (plan directory files).result session = (.ok ⟨⟩, after) ∧ after.tree = session.tree ∧
      after.announced = session.announced ++ files.map fun file => Path.join directory file.name := by
  induction files generalizing session with
  | nil => exact ⟨session, rfl, rfl, (List.append_nil _).symm⟩
  | cons file files ih =>
    obtain ⟨after, hresult, htree, hannounced⟩ := ih { session with
      events := .wouldCreate (Path.join directory file.name) file.blockType file.subType
        file.blocks.length :: session.events }
    refine ⟨after, ?_, htree, ?_⟩
    · rw [← hresult]
      rfl
    · rw [hannounced, Session.announced_emit, List.append_assoc]
      rfl

/-! ## A run and its plan -/

/-- Two reports count the same files, blocks and output files. -/
structure Report.SameCounts (report other : Report) : Prop where
  processedFiles : report.processedFiles = other.processedFiles
  totalBlocks : report.totalBlocks = other.totalBlocks
  outputFiles : report.outputFiles = other.outputFiles

namespace Request

/-- The request as a dry run or as one that is not dry. -/
def withDryRun (request : Request) (dry : Bool) : Request := { request with dryRun := dry }

section Agree

variable {request : Request} {inputDirectory outputDirectory : Text} {sources : List ParsedFile}
  {files : List OutputFile} {session session' : Session} {report : Report}

/-- When the last part of a run succeeds, that of its dry run does, and has announced the paths that
the run divides. -/
theorem finish_agrees
    (h : ((request.withDryRun false).finish inputDirectory outputDirectory sources files).result
      session = (.ok report, session')) :
    ∃ plan after,
      ((request.withDryRun true).finish inputDirectory outputDirectory sources files).result
        session = (.ok plan, after) ∧ plan.SameCounts report ∧
      after.announced =
        session.announced ++ files.map fun file => Path.join outputDirectory file.name := by
  rw [finish_of_not_dry rfl] at h
  obtain ⟨paths, between, -, hsettle⟩ := result_bind_ok h
  have hreport := settle_ok hsettle
  unfold settle at hsettle
  rw [result_bind_of_ok (result_tree _)] at hsettle
  obtain ⟨stale, judged, hstale, -⟩ := result_bind_ok hsettle
  have hvalue := (Cleanup.isReading_staleSources _ _ _).value_of_result hstale
  obtain ⟨planned, hplan, -, hannounced⟩ := Output.plan_ok outputDirectory files session
  obtain ⟨plan, after, hdry⟩ : ∃ plan after, ((request.withDryRun true).settle inputDirectory
      outputDirectory sources files [] []).result planned = (.ok plan, after) :=
    settle_dry rfl hvalue
  refine ⟨plan, after, ?_, ?_, ?_⟩
  · rw [finish_of_dry rfl, result_bind_of_ok hplan, hdry]
  · rw [settle_ok hdry, hreport]
    exact ⟨rfl, rfl, rfl⟩
  · rw [(isConfined_settle _ _ _ _ _ _ hdry).1, hannounced]

/-- The last part of a run does not fail as reading does. -/
theorem isLate_of_finish {failure : Failure}
    (h : (request.finish inputDirectory outputDirectory sources files).result session =
      (.error failure, session')) : failure.IsLate := by
  have hsettles {written unchanged : List Text} {between : Session}
      (h : (request.settle inputDirectory outputDirectory sources files written unchanged).result
        between = (.error failure, session')) : failure.IsLate :=
    Failure.isLate_of_isOfCleaning ((isConfined_settle _ _ _ _ _ _ h).2 failure rfl)
  rw [finish_eq] at h
  split at h
  · obtain ⟨planned, hplan, -⟩ := Output.plan_ok outputDirectory files session
    rw [result_bind_of_ok hplan] at h
    exact hsettles h
  · obtain ⟨_, hwrite, hfailure⟩ | ⟨paths, between, -, hsettle⟩ := result_bind_cases h
    · cases hfailure
      obtain ⟨error, hfailure, -⟩ | ⟨_, _, _, _, hfailure, -, -, hinterrupts⟩ | ⟨-, _, hok⟩ :=
        Output.write_cases hwrite
      · cases hfailure
        exact Failure.isLate_ofFile (fun _ => rfl) error
      · cases hfailure
        exact hinterrupts.isLate
      · cases hok
    · exact hsettles hsettle

end Agree

/-- A dry run leaves the tree as it is. When the run on the same tree succeeds, the dry run does,
with the same counts, and has announced the paths of the output files in the order in which the run
divides them into written and unchanged ones. A run of either kind that fails while it reads leaves
the tree as it is, too. -/
theorem execute_agrees_withDryRun (request : Request) (session : Session) :
    ((request.withDryRun true).execute.result session).2.tree = session.tree ∧
      (∀ report session',
        (request.withDryRun false).execute.result session = (.ok report, session') →
          ∃ plan after, (request.withDryRun true).execute.result session = (.ok plan, after) ∧
            plan.SameCounts report ∧
            ∃ paths, after.announced = session.announced ++ paths ∧
              paths = (request.outputs session.tree).map (fun file =>
                Path.join (request.outputOn session.tree) file.name) ∧
              Divides paths report.written report.unchanged) ∧
      ∀ dry failure session',
        (request.withDryRun dry).execute.result session = (.error failure, session') →
          failure.isOfReading = true → session'.tree = session.tree := by
  refine ⟨?_, fun report session' hrun => ?_, fun dry failure session' hrun hreading => ?_⟩
  · obtain ⟨htree, -⟩ | ⟨config, between, -, -, hbetween, hfinish⟩ :=
      execute_reaches (Prod.mk.eta (p := (request.withDryRun true).execute.result session)).symm
    · exact htree
    · exact (finish_dry rfl hfinish).trans hbetween
  · have hdivides := execute_reports hrun rfl
    rw [execute_eq] at hrun ⊢
    obtain ⟨⟨sources, files⟩, events, hprepare, hrun⟩ := request.isReading_prepare.bind_ok hrun
    have hannounced := (request.isSilent_prepare hprepare).1
    rw [result_bind_of_ok (show (request.withDryRun true).prepare.result session = _ from hprepare)]
    obtain ⟨rfl, -, -, -, ⟨rfl, hnone⟩ | rfl⟩ :=
      prepare_ok (request.isReading_prepare.value_of_result hprepare)
    · cases hrun
      rw [hnone]
      exact ⟨_, _, rfl, ⟨rfl, rfl, rfl⟩, [], hannounced.trans (List.append_nil _).symm, rfl, .nil⟩
    · obtain ⟨plan, after, hdry, hcounts, hpaths⟩ := finish_agrees hrun
      exact ⟨plan, after, hdry, hcounts, _, hannounced ▸ hpaths, rfl, hdivides⟩
  · obtain ⟨htree, -⟩ | ⟨config, between, -, -, -, hfinish⟩ := execute_reaches hrun
    · exact htree
    · rw [isLate_of_finish hfinish] at hreading
      cases hreading

/-- Two files to organize. The first one is as it will be written. -/
def halfTidy : Tree :=
  ⟨[([], .directory 0o755),
    (["locals.tf".toList], .file (Utf8.encode "locals \x7b\n\x7d\n".toList) 0o644),
    (["main.tf".toList], .file (Utf8.encode "variable a \x7b\x7d\n".toList) 0o644)], []⟩

theorem endsInOrder_halfTidy :
    tidying.EndsInOrder halfTidy ["./locals.tf".toList, "./main.tf".toList]
      (Yields (fun run => (run.1.written, run.1.unchanged))
        (["./variables.tf".toList], ["./locals.tf".toList])) :=
  .of_enumerates (by cbv) (by decide +kernel)

/-- The plan of a run that leaves one file as it is and writes another, and a run on a file that cannot
be parsed. -/
theorem execute_agrees_halfTidy :
    (∃ report plan after,
      ((tidying.withDryRun false).execute.result ⟨halfTidy, []⟩).1 = .ok report ∧
        report.unchanged = ["./locals.tf".toList] ∧ report.written = ["./variables.tf".toList] ∧
        (tidying.withDryRun true).execute.result ⟨halfTidy, []⟩ = (.ok plan, after) ∧
        after.tree = halfTidy ∧ plan.SameCounts report ∧
        after.announced = ["./locals.tf".toList, "./variables.tf".toList] ∧
        Divides ["./locals.tf".toList, "./variables.tf".toList] report.written report.unchanged) ∧
      ∃ failure session',
        ((ofFile "other.tf".toList).withDryRun false).execute.result ⟨.siblings, []⟩ =
            (.error failure, session') ∧
          failure.isOfReading = true ∧ session'.tree = .siblings := by
  constructor
  · obtain ⟨⟨report, _⟩, session', -, hrun, -, hreport⟩ := exists_of_outcome? endsInOrder_halfTidy.outcome_eq
    obtain ⟨hwritten, hunchanged⟩ := Prod.mk.inj hreport
    have hpaths : (tidying.outputs halfTidy).map (fun file =>
        Path.join (tidying.outputOn halfTidy) file.name) =
          ["./locals.tf".toList, "./variables.tf".toList] := by
      rw [endsInOrder_halfTidy.outputs_eq]
      decide +kernel
    obtain ⟨htree, hagrees, -⟩ := execute_agrees_withDryRun tidying ⟨halfTidy, []⟩
    obtain ⟨plan, after, hplan, hcounts, paths, hannounced, hall, hdivides⟩ :=
      hagrees report session' hrun
    rw [hplan] at htree
    obtain rfl : paths = ["./locals.tf".toList, "./variables.tf".toList] := hall.trans hpaths
    exact ⟨report, plan, after, congrArg Prod.fst hrun, hunchanged, hwritten, hplan, htree, hcounts,
      hannounced, hdivides⟩
  · have hfailed : (((ofFile "other.tf".toList).withDryRun false).execute.result
        ⟨.siblings, []⟩).1.mapError Failure.isOfReading = .error true := by decide +kernel
    cases hrun : ((ofFile "other.tf".toList).withDryRun false).execute.result ⟨.siblings, []⟩ with
    | mk outcome session' =>
      rw [hrun] at hfailed
      cases outcome with
      | ok report => cases hfailed
      | error failure =>
        have hreading : failure.isOfReading = true := Except.error.inj hfailed
        exact ⟨failure, session', rfl, hreading,
          (execute_agrees_withDryRun (ofFile "other.tf".toList) ⟨.siblings, []⟩).2.2 false failure
            session' hrun hreading⟩

end Request

end HclTidy
