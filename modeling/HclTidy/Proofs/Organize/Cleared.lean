import HclTidy.Proofs.Organize.Backup
import HclTidy.Proofs.Organize.Outputs

/-!
# What stays of a source that is cleared

A run in place clears a source when no output file is written to its path. The blocks of such a
source are in the output files of the run by then, with the comments above them and inside them.
Comments elsewhere belong to no block and are gone with the source.
-/

set_option autoImplicit false

namespace HclTidy

open Run

namespace Request

variable {request : Request}

/-- Every block of the sources of a run is in an output file. -/
theorem exists_output {tree : Tree} {config : Config}
    (hgroups : Grouping.ofBlocks config ((request.sources tree).flatMap ParsedFile.blocks) =
      .ok (request.outputs tree)) {source : ParsedFile} (hsource : source ∈ request.sources tree)
    {b : Block} (hb : b ∈ source.blocks) :
    ∃ file ∈ request.outputs tree, b.IsIn (Output.content file) := by
  have hdistributes := Grouping.distributes_of_ofBlocks hgroups
  obtain ⟨file, hfile, hmem⟩ :=
    hdistributes.exists_file (List.mem_flatMap.mpr ⟨source, hsource, hb⟩)
  exact ⟨file, hfile, Output.isIn_content (fun b hb =>
    writable_of_mem_blocks b ((hdistributes.routed file hfile b).mp hb).1) hmem⟩

/-- Every block of a source that a run has cleared is, but for its layout, in an output file of the
run, which is reported and there afterwards. No link or device may be at the paths of the output
files and no link at that of the backup directory. -/
theorem execute_keeps_cleared_blocks {session session' : Session} {report : Report}
    (hwell : session.tree.WellFormed)
    (hrun : request.execute.result session = (.ok report, session')) (hdry : request.dryRun = false)
    (houtput : ∀ file ∈ request.outputs session.tree, Output.Plain session.tree
      (session.tree.spot (Path.join (request.outputOn session.tree) file.name)))
    (hbackup : request.backup = true → session.tree.linkAt?
      (session.tree.spot (Path.join (request.outputOn session.tree) Source.backupName)) = none) :
    ∀ path ∈ report.cleaned, ∃ source ∈ request.sources session.tree, source.name = path ∧
      ∀ b ∈ source.blocks, ∃ file ∈ request.outputs session.tree, b.IsIn (Output.content file) ∧
        Path.join (request.outputOn session.tree) file.name ∈ report.written ++ report.unchanged ∧
        ∃ mode, session'.tree.get? (session.tree.spot
          (Path.join (request.outputOn session.tree) file.name)) =
            some (.file (Output.content file) mode) := by
  obtain ⟨hholds, -, hpaths⟩ := execute_leaves_outputs hwell hrun hdry houtput hbackup
  intro path hpath
  obtain ⟨_, _, hcleans, -⟩ :=
    execute_cleans hwell.closed hrun (.inl (List.ne_nil_of_mem hpath))
  obtain ⟨source, hsource, hname⟩ := hcleans.exists_source hpath
  obtain ⟨-, hnone⟩ | ⟨config, _, -, hgroups, -⟩ := execute_reaches hrun
  · rw [(hnone report rfl).2.2.2] at hpath
    cases hpath
  · refine ⟨source, hsource, hname, fun b hb => ?_⟩
    obtain ⟨file, hfile, hin⟩ := exists_output hgroups hsource hb
    exact ⟨file, hfile, hin, List.mem_append.mpr ((hpaths _).mpr ⟨file, hfile, rfl⟩),
      hholds file hfile⟩

/-- The comments of a text are in the text of an output file of a run. -/
def KeepsComments (request : Request) (tree : Tree) (text : Text) : Prop :=
  ∀ stream, TokenStream.ofText text = .ok stream → ∀ t ∈ stream.tokens, t.kind = .comment →
    ∃ file ∈ request.outputs tree, ∃ stream', TokenStream.ofText file.text = .ok stream' ∧
      ∃ t' ∈ stream'.tokens, t'.kind = .comment ∧ t'.text = t.text

/-- A file with a comment behind its last block. -/
def commented : Tree :=
  ⟨[([], .directory 0o755),
    (["main.tf".toList], .file (Utf8.encode "locals \x7b\x7d\n# the end\n".toList) 0o644)], []⟩

/-- A comment behind the last block of a source is lost when the source is cleared. -/
theorem execute_loses_comment :
    ¬∀ (request : Request) (session session' : Session) (report : Report),
      session.tree.WellFormed → request.dryRun = false →
      request.execute.result session = (.ok report, session') →
      ∀ path ∈ report.cleaned, ∀ text, Source.readText .none session.tree path = .ok text →
        request.KeepsComments session.tree text := by
  intro h
  have hwell : commented.WellFormed :=
    (by decide)
  have hcleaned : (((ofFile "main.tf".toList).execute.result ⟨commented, []⟩).1.toOption.map
      Report.cleaned) = some ["main.tf".toList] := by decide +kernel
  have htext : Source.readText .none commented "main.tf".toList =
      .ok "locals \x7b\x7d\n# the end\n".toList := rfl
  have hcomment : ((TokenStream.ofText "locals \x7b\x7d\n# the end\n".toList).toOption.any
      fun stream => stream.tokens.any fun t => t.kind = .comment) = true := by decide +kernel
  have hnone : ((ofFile "main.tf".toList).outputs commented).all (fun file =>
      (TokenStream.ofText file.text).toOption.all fun stream =>
        stream.tokens.all fun t => t.kind ≠ .comment) = true := by decide +kernel
  cases hrun : (ofFile "main.tf".toList).execute.result ⟨commented, []⟩ with
  | mk outcome session' =>
    rw [hrun] at hcleaned
    cases outcome with
    | error failure => cases hcleaned
    | ok report =>
      have hkeeps := h _ _ _ report hwell rfl hrun "main.tf".toList
        (by rw [Option.some.inj hcleaned]; exact List.mem_singleton_self _) _ htext
      cases hstream : TokenStream.ofText "locals \x7b\x7d\n# the end\n".toList with
      | error error =>
        rw [hstream] at hcomment
        cases hcomment
      | ok stream =>
        rw [hstream] at hcomment
        obtain ⟨t, ht, hkind⟩ := List.any_eq_true.mp hcomment
        obtain ⟨file, hfile, stream', hstream', t', ht', hkind', -⟩ :=
          hkeeps stream hstream t ht (of_decide_eq_true hkind)
        have hall := List.all_eq_true.mp hnone file hfile
        rw [hstream'] at hall
        exact of_decide_eq_true (List.all_eq_true.mp hall t' ht') hkind'

end Request

end HclTidy
