import HclTidy.Proofs.Organize.Kept

/-!
# What a run reports of its output files

A run that succeeds reports the path of each of its output files once, as written or as unchanged.
No output file is lost again while the sources are cleared, when the paths of the output files name
no links: files are written through links, whereas a source is kept for its own path only.
-/

set_option autoImplicit false

namespace HclTidy

open Run

/-- A list is divided into two, each of them in the order of the whole. -/
inductive Divides {α : Type} : List α → List α → List α → Prop
  | nil : Divides [] [] []
  | left {a l first second} : Divides l first second → Divides (a :: l) (a :: first) second
  | right {a l first second} : Divides l first second → Divides (a :: l) first (a :: second)

theorem Divides.perm {α : Type} {l first second : List α} (h : Divides l first second) :
    (first ++ second).Perm l := by
  induction h with
  | nil => exact .refl _
  | left _ ih => exact ih.cons _
  | right _ ih => exact List.perm_middle.trans (ih.cons _)

namespace Output

section Stages

variable {faults : Faults} {directory : Text} {files : List OutputFile}
  {written unchanged : List Text} {session session' : Session}

/-- The path of every output file is reported once, in the order of the files. -/
theorem writeFiles_ok
    (h : (writeFiles faults directory files).result session = (.ok (written, unchanged), session')) :
    Divides (files.map fun file => Path.join directory file.name) written unchanged := by
  induction files generalizing written unchanged session session' with
  | nil =>
    cases h
    exact .nil
  | cons file files ih =>
    obtain ⟨changed, between, -, h⟩ := result_bind_ok h
    obtain ⟨⟨written', unchanged'⟩, after, hrest, h⟩ := result_bind_ok h
    have hdivides := ih hrest
    cases changed with
    | true =>
      cases h
      exact .left hdivides
    | false =>
      cases h
      exact .right hdivides

theorem write_ok
    (h : (write faults directory files).result session = (.ok (written, unchanged), session')) :
    Divides (files.map fun file => Path.join directory file.name) written unchanged := by
  unfold write at h
  rw [result_bind_of_ok (result_tree _)] at h
  split at h
  · cases h
  · rw [result_bind_of_ok (result_setTree _ _)] at h
    exact writeFiles_ok h

end Stages

/-- The paths of output files that have names of their own are different in every directory. -/
theorem Apart.nodup_paths {tree : Tree} {directory other : Text} {files : List OutputFile}
    (h : Apart tree directory files) :
    (files.map fun file => Path.join other file.name).Nodup := by
  have hnames : (files.map fun file => Path.join other file.name).map Path.baseName =
      files.map OutputFile.name := by
    rw [List.map_map]
    exact List.map_congr_left fun file hfile => Path.baseName_join other (h.no_slash file hfile)
  refine .of_map Path.baseName ?_
  rw [hnames]
  exact h.distinct

end Output

namespace Request

section Reports

variable {request : Request} {inputDirectory outputDirectory : Text} {sources : List ParsedFile}
  {files : List OutputFile} {written unchanged : List Text} {session session' : Session}
  {report : Report}

/-- Settling reports what it is told and what it has cleaned. -/
theorem settle_ok
    (h : (request.settle inputDirectory outputDirectory sources files written unchanged).result
      session = (.ok report, session')) :
    report = ⟨sources.length, (sources.flatMap ParsedFile.blocks).length, files.length,
      outputDirectory, request.dryRun, written, unchanged, report.cleaned⟩ := by
  unfold settle at h
  obtain ⟨tree, between, -, h⟩ := result_bind_ok h
  obtain ⟨stale, between, -, h⟩ := result_bind_ok h
  obtain ⟨⟨⟩, between, -, h⟩ := result_bind_ok h
  obtain ⟨⟨⟩, between, -, h⟩ := result_bind_ok h
  cases h
  rfl

/-- The last part of a run that is not dry reports each of its output files once. -/
theorem finish_ok (hdry : request.dryRun = false)
    (h : (request.finish inputDirectory outputDirectory sources files).result session =
      (.ok report, session')) :
    Divides (files.map fun file => Path.join outputDirectory file.name) report.written
      report.unchanged := by
  rw [finish_of_not_dry hdry] at h
  obtain ⟨paths, between, hwrite, hsettle⟩ := result_bind_ok h
  rw [settle_ok hsettle]
  exact Output.write_ok hwrite

end Reports

variable {request : Request}

/-- A run that succeeds and is not dry reports each of its output files once, in their order. -/
theorem execute_reports {session session' : Session} {report : Report}
    (hrun : request.execute.result session = (.ok report, session')) (hdry : request.dryRun = false) :
    Divides ((request.outputs session.tree).map fun file =>
      Path.join (request.outputOn session.tree) file.name) report.written report.unchanged := by
  obtain ⟨-, hnone⟩ | ⟨config, between, -, -, -, hfinish⟩ := execute_reaches hrun
  · obtain ⟨houtputs, hwritten, hunchanged, -⟩ := hnone report rfl
    rw [houtputs, hwritten, hunchanged]
    exact .nil
  · exact finish_ok hdry hfinish

/-- What is where the output files of a run belong, when the run has succeeded. -/
theorem Finishes.holdsOutputs {outputDirectory : Text} {paths : List Text} {files : List OutputFile}
    {report : Report} {tree tree' : Tree}
    (h : Finishes request outputDirectory paths files (.ok report) tree tree')
    (hdry : request.dryRun = false) (hclosed : tree.Closed) (hpaths : tree.AreSources paths)
    (hapart : Output.Apart tree outputDirectory files)
    (hbackup : request.backup = true →
      tree.linkAt? (tree.spot (Path.join outputDirectory Source.backupName)) = none) :
    ∀ file ∈ files, ∃ mode, tree'.get? (tree.spot (Path.join outputDirectory file.name)) =
      some (.file (Output.content file) mode) := by
  intro file hfile
  cases h with
  | unchanged hdryRun =>
    rw [hdryRun] at hdry
    cases hdry
  | settled _ hgains hdone hstale hgains' hfront _ hcleared =>
    have hmem {path : Text} (hpath : path ∈ _) := List.mem_filter.mp (hstale ▸ hfront.subset hpath)
    obtain ⟨hname, hholds⟩ := Output.holds_of_clears hclosed hpaths hapart hbackup hgains hdone
      (hfront.sublist.trans (hstale ▸ List.filter_sublist)) (fun path hpath => (hmem hpath).2)
      hgains' hcleared file hfile
    rwa [Tree.spot_join tree outputDirectory hname]

/-- After a run that succeeds and is not dry, every output file is at its path with its text, and
its path is in one of the two lists of the report, and there once. No link or device may be at the
paths of the output files and no link at that of the backup directory. -/
theorem execute_leaves_outputs {session session' : Session} {report : Report}
    (hwell : session.tree.WellFormed)
    (hrun : request.execute.result session = (.ok report, session')) (hdry : request.dryRun = false)
    (houtput : ∀ file ∈ request.outputs session.tree, Output.Plain session.tree
      (session.tree.spot (Path.join (request.outputOn session.tree) file.name)))
    (hbackup : request.backup = true → session.tree.linkAt?
      (session.tree.spot (Path.join (request.outputOn session.tree) Source.backupName)) = none) :
    (∀ file ∈ request.outputs session.tree, ∃ mode,
        session'.tree.get? (session.tree.spot
          (Path.join (request.outputOn session.tree) file.name)) =
            some (.file (Output.content file) mode)) ∧
      (report.written ++ report.unchanged).Nodup ∧
      ∀ path, path ∈ report.written ∨ path ∈ report.unchanged ↔
        ∃ file ∈ request.outputs session.tree,
          Path.join (request.outputOn session.tree) file.name = path := by
  have hreports := (execute_reports hrun hdry).perm
  have hmem (path : Text) : path ∈ report.written ∨ path ∈ report.unchanged ↔
      ∃ file ∈ request.outputs session.tree,
        Path.join (request.outputOn session.tree) file.name = path := by
    rw [← List.mem_append, hreports.mem_iff, List.mem_map]
  obtain ⟨-, hnone⟩ | ⟨config, hconfig, hgroups, hfinishes⟩ := execute_cases hrun
  · rw [hnone ⟨report, rfl⟩] at hreports hmem ⊢
    exact ⟨List.forall_mem_nil _, hreports.nodup_iff.mpr .nil, hmem⟩
  · have hapart := apart_outputs hconfig hgroups houtput
    exact ⟨hfinishes.holdsOutputs hdry hwell.closed (areSources hwell) hapart hbackup,
      hreports.nodup_iff.mpr hapart.nodup_paths, hmem⟩

/-- A file to organize, and a link to it at the path that its block goes to. -/
def linked : Tree :=
  ⟨[([], .directory 0o755),
    (["main.tf".toList], .file (Utf8.encode "locals \x7b\n  a = 1\n\x7d\n".toList) 0o644),
    (["locals.tf".toList], .link "main.tf".toList)], []⟩

theorem wellFormed_linked : linked.WellFormed := by decide

/-- An output file whose path is a link to a source does not stay: it is in the source that it has
been written to, which is cleared under its own path. -/
theorem execute_loses_output :
    ¬∀ (request : Request) (session session' : Session) (report : Report),
      session.tree.WellFormed → request.dryRun = false →
      request.execute.result session = (.ok report, session') →
      ∀ file ∈ request.outputs session.tree,
        session'.tree.readFile (Path.join (request.outputOn session.tree) file.name) =
          .ok (Output.content file) := by
  intro h
  have hok : ((ofFile "main.tf".toList).execute.result ⟨linked, []⟩).1.toOption.isSome = true := by
    decide +kernel
  have hlost : ∃ file ∈ (ofFile "main.tf".toList).outputs linked,
      ((ofFile "main.tf".toList).execute.result ⟨linked, []⟩).2.tree.readFile
        (Path.join ((ofFile "main.tf".toList).outputOn linked) file.name) ≠
          .ok (Output.content file) := by
    decide +kernel
  obtain ⟨file, hfile, hread⟩ := hlost
  cases hrun : (ofFile "main.tf".toList).execute.result ⟨linked, []⟩ with
  | mk outcome session' =>
    rw [hrun] at hok hread
    cases outcome with
    | error failure => cases hok
    | ok report => exact hread (h _ _ _ report wellFormed_linked rfl hrun file hfile)

end Request

end HclTidy
