import HclTidy.Proofs.Organize.Stage
import HclTidy.Proofs.Tree.Paths

/-!
# What writing the output files does

Output files are written one after the other. Each write changes the tree at the place that the
path of its file leads to and nowhere else, so that after a run of writes every output file that
lies at a place of its own has its content there. A write that is broken off leaves a front of the
content, and the files in front of it as they have been written.
-/

set_option autoImplicit false

namespace HclTidy

namespace Output

open Run

/-- The bytes of an output file. -/
def content (file : OutputFile) : Bytes := Utf8.encode file.text

/-- The place that the path of an output file leads to. -/
def place (tree : Tree) (directory : Text) (file : OutputFile) : Place :=
  tree.physical (Path.join directory file.name)

theorem place_of_sameLinks {tree tree' : Tree} (h : Tree.SameLinks tree tree') (directory : Text)
    (file : OutputFile) : place tree' directory file = place tree directory file :=
  h.physical _

/-- The tree when the output directory has been created, as far as it can be. -/
def opened (faults : Faults) (tree : Tree) (directory : Text) : Tree :=
  (tree.makeDirectories faults directory directoryMode).1

theorem opened_gains (faults : Faults) (tree : Tree) (directory : Text) :
    Tree.GainsDirectories tree (opened faults tree directory) :=
  Tree.makeDirectories_gains faults tree directory directoryMode

/-- An output file is written, or is there already. -/
inductive Writes (directory : Text) (file : OutputFile) : Tree → Tree → Prop
  | unchanged {tree} : tree.readFile (Path.join directory file.name) = .ok (content file) →
      Writes directory file tree tree
  | written {tree tree'} :
      tree.writeFile (Path.join directory file.name) fileMode (content file) = .ok tree' →
      Writes directory file tree tree'

/-- The first of some output files is not written to the end: it is left as it is, or has been opened
and holds a front of its content. -/
inductive Interrupts (directory : Text) : List OutputFile → Failure → Tree → Tree → Prop
  | refused {file rest error tree} :
      Interrupts directory (file :: rest) (.ofFile (fun e => .write (.notWritten file.name e)) error)
        tree tree
  | brokenOff {file rest size fault tree tree'} :
      tree.writeFile (Path.join directory file.name) fileMode ((content file).take size) = .ok tree' →
      Interrupts directory (file :: rest) (.write (.brokenOff file.name fault)) tree tree'

/-- Something is written to an output file, or the file is there already. -/
inductive Touches (directory : Text) (file : OutputFile) : Tree → Tree → Prop
  | unchanged {bytes tree} : tree.readFile (Path.join directory file.name) = .ok bytes →
      Touches directory file tree tree
  | written {bytes tree tree'} :
      tree.writeFile (Path.join directory file.name) fileMode bytes = .ok tree' →
      Touches directory file tree tree'

theorem Writes.touches {directory : Text} {file : OutputFile} {tree tree' : Tree}
    (h : Writes directory file tree tree') : Touches directory file tree tree' := by
  cases h with
  | unchanged hread => exact .unchanged hread
  | written hwrite => exact .written hwrite

theorem steps_touches {directory : Text} {files : List OutputFile} {tree tree' : Tree}
    (h : Steps (Writes directory) files tree tree') : Steps (Touches directory) files tree tree' :=
  h.imp fun _ _ _ => Writes.touches

/-- Files that have been written and the one that has been opened last are touched. -/
theorem Interrupts.touches {directory : Text} {done rest : List OutputFile} {failure : Failure}
    {start between tree' : Tree} (h : Interrupts directory rest failure between tree')
    (hdone : Steps (Writes directory) done start between) :
    ∃ touched, touched <+: done ++ rest ∧ Steps (Touches directory) touched start tree' := by
  cases h with
  | refused => exact ⟨done, List.prefix_append _ _, steps_touches hdone⟩
  | @brokenOff file rest _ _ _ _ hwrite =>
    exact ⟨done ++ [file], ⟨rest, (List.append_cons _ _ _).symm⟩,
      (steps_touches hdone).append (.cons (.written hwrite) .nil)⟩

/-! ## How far writing has come -/

/-- The output files that have been written to the end when a run has ended with an outcome. It does
not tell when the run has broken down. -/
def completed {α : Type} (files : List OutputFile) : Except Failure α → List OutputFile
  | .error (.write (.noDirectory _)) | .error (.breakdown _) => []
  | .error (.write (.notWritten name _)) | .error (.write (.brokenOff name _)) =>
    files.takeWhile fun file => file.name ≠ name
  | _ => files

/-- The output files that may have been opened, to be written, when a run has ended with an outcome. -/
def begun {α : Type} (files : List OutputFile) : Except Failure α → List OutputFile
  | .error (.write (.brokenOff name _)) =>
    (files.takeWhile fun file => file.name ≠ name) ++ files.filter fun file => file.name = name
  | .error (.breakdown _) => files
  | r => completed files r

section Begun

variable {α : Type} {directory : Text} {files done rest : List OutputFile} {failure : Failure}
  {between tree' : Tree}

theorem completed_subset (files : List OutputFile) (r : Except Failure α) :
    completed files r ⊆ files := by
  unfold completed
  split
  · exact List.nil_subset _
  · exact List.nil_subset _
  · exact List.takeWhile_subset _
  · exact List.takeWhile_subset _
  · exact List.Subset.refl _

/-- When writing is interrupted, only files in front have been written to the end. -/
theorem Interrupts.completed_subset (h : Interrupts directory rest failure between tree')
    (hdistinct : ((done ++ rest).map OutputFile.name).Nodup) :
    completed (done ++ rest) (.error failure : Except Failure α) ⊆ done := by
  cases h with
  | @refused file rest error =>
    unfold Failure.ofFile
    split
    · exact (List.Perm.of_eq (takeWhile_key OutputFile.name hdistinct)).subset
    · exact List.nil_subset _
  | brokenOff => exact (List.Perm.of_eq (takeWhile_key OutputFile.name hdistinct)).subset

/-- When writing is interrupted, the files in front have been opened, and at most the one that has not
been written to the end. -/
theorem Interrupts.exists_begun (h : Interrupts directory rest failure between tree')
    (hdistinct : ((done ++ rest).map OutputFile.name).Nodup) :
    ∃ broken, broken <+: rest ∧ (done ++ broken).Sublist
        (begun (done ++ rest) (.error failure : Except Failure α)) ∧
      Steps (Touches directory) broken between tree' := by
  have hfront {file : OutputFile} {rest : List OutputFile}
      (hdistinct : ((done ++ file :: rest).map OutputFile.name).Nodup) :
      done.Sublist ((done ++ file :: rest).takeWhile fun other => other.name ≠ file.name) := by
    rw [takeWhile_key OutputFile.name hdistinct]
  cases h with
  | @refused file rest error =>
    refine ⟨[], List.nil_prefix, ?_, .nil⟩
    rw [List.append_nil]
    unfold Failure.ofFile
    split
    · exact hfront hdistinct
    · exact List.sublist_append_left _ _
  | @brokenOff file rest _ fault _ _ hwrite =>
    refine ⟨[file], ⟨rest, rfl⟩, (hfront hdistinct).append (List.singleton_sublist.mpr ?_),
      .cons (.written hwrite) .nil⟩
    exact List.mem_filter.mpr ⟨List.mem_append_right _ List.mem_cons_self, decide_eq_true rfl⟩

end Begun

/-! ## The stages -/

section Stages

variable {faults : Faults} {directory : Text} {session session' : Session}

theorem existing?_ok {tree : Tree} {path : Text} {bytes : Bytes}
    (h : existing? faults tree path = .ok (some bytes)) : tree.readFile path = .ok bytes := by
  unfold existing? at h
  split at h
  · next hread =>
    cases h
    exact Tree.ok_of_bind_guard hread
  · split at h <;> cases h

/-- Writing one file fails, or writes it. -/
theorem writeFile_cases {file : OutputFile} (rest : List OutputFile) {r : Except Failure Bool}
    (h : (writeFile faults directory file).result session = (r, session')) :
    (∃ failure, r = .error failure ∧
        Interrupts directory (file :: rest) failure session.tree session'.tree) ∨
      Writes directory file session.tree session'.tree ∧ ∃ changed, r = .ok changed := by
  unfold writeFile at h
  rw [result_bind_of_ok (result_emitDetails _ _), result_bind_of_ok (result_tree _)] at h
  dsimp only at h
  cases hthere : existing? faults session.tree (Path.join directory file.name) with
  | error error =>
    rw [hthere] at h
    cases h
    exact .inl ⟨_, rfl, .refused⟩
  | ok there =>
    rw [hthere] at h
    change ((if there = some (content file) then _ else _ : Run Bool)).result _ = _ at h
    split at h
    · next hsame =>
      rw [hsame] at hthere
      cases h
      exact .inr ⟨.unchanged (existing?_ok hthere), false, rfl⟩
    · cases hover : session.tree.overwrite faults (Path.join directory file.name) fileMode
          (Utf8.encode file.text) with
      | mk after fault =>
        rw [hover] at h
        obtain ⟨rfl, error, rfl⟩ | ⟨size, cause, rfl, hwrite⟩ | ⟨rfl, hwrite⟩ :=
          Tree.overwrite_cases hover
        · cases h
          exact .inl ⟨_, rfl, .refused⟩
        · cases h
          exact .inl ⟨_, rfl, .brokenOff hwrite⟩
        · cases h
          exact .inr ⟨.written hwrite, true, rfl⟩

/-- What has happened when the output files have been written, or one of them could not be. -/
theorem writeFiles_cases {files : List OutputFile} {r : Except Failure (List Text × List Text)}
    (h : (writeFiles faults directory files).result session = (r, session')) :
    (∃ failure done rest between, r = .error failure ∧ files = done ++ rest ∧
        Steps (Writes directory) done session.tree between ∧
        Interrupts directory rest failure between session'.tree) ∨
      Steps (Writes directory) files session.tree session'.tree ∧ ∃ paths, r = .ok paths := by
  induction files generalizing session session' r with
  | nil =>
    cases h
    exact .inr ⟨.nil, _, rfl⟩
  | cons file files ih =>
    obtain ⟨failure, hfile, rfl⟩ | ⟨changed, between, hfile, h⟩ := result_bind_cases h
    · obtain ⟨_, hfailure, hbreaks⟩ | ⟨-, changed, hchanged⟩ := writeFile_cases files hfile
      · cases hfailure
        exact .inl ⟨failure, [], _, _, rfl, rfl, .nil, hbreaks⟩
      · cases hchanged
    · obtain ⟨failure, hfailure, -⟩ | ⟨hwrites, -⟩ := writeFile_cases files hfile
      · cases hfailure
      · obtain ⟨failure, hrest, rfl⟩ | ⟨⟨written, unchanged⟩, after, hrest, hpaths⟩ :=
          result_bind_cases h
        · obtain ⟨_, done, rest, reached, hfailure, hfiles, hdone, hbreaks⟩ | ⟨-, _, hok⟩ := ih hrest
          · cases hfailure
            exact .inl ⟨failure, file :: done, rest, reached, rfl, congrArg _ hfiles,
              .cons hwrites hdone, hbreaks⟩
          · cases hok
        · obtain ⟨_, -, -, -, hfailure, -⟩ | ⟨hdone, -⟩ := ih hrest
          · cases hfailure
          · cases hpaths
            exact .inr ⟨.cons hwrites hdone, _, rfl⟩

/-- What has happened when the output directory has been created and the files been written into it,
or one of these stages has failed. -/
theorem write_cases {files : List OutputFile} {r : Except Failure (List Text × List Text)}
    (h : (write faults directory files).result session = (r, session')) :
    (∃ error, r = .error (.ofFile (fun e => .write (.noDirectory e)) error) ∧
        session'.tree = opened faults session.tree directory) ∨
      (∃ failure done rest between, r = .error failure ∧ files = done ++ rest ∧
        Steps (Writes directory) done (opened faults session.tree directory) between ∧
        Interrupts directory rest failure between session'.tree) ∨
      Steps (Writes directory) files (opened faults session.tree directory) session'.tree ∧
        ∃ paths, r = .ok paths := by
  unfold write at h
  rw [result_bind_of_ok (result_tree _)] at h
  rw [opened]
  split at h
  · next tree error heq =>
    rw [heq]
    cases h
    exact .inl ⟨error, rfl, rfl⟩
  · next tree heq =>
    rw [heq]
    rw [result_bind_of_ok (result_setTree _ _)] at h
    exact .inr (writeFiles_cases h)

end Stages

/-! ## What is where afterwards -/

section Places

variable {directory : Text} {tree tree' : Tree}

theorem Touches.closed {file : OutputFile} (h : Touches directory file tree tree')
    (hclosed : tree.Closed) : tree'.Closed := by
  cases h with
  | unchanged => exact hclosed
  | written hwrite => exact Tree.closed_writeFile hclosed hwrite

theorem Touches.sameLinks {file : OutputFile} (h : Touches directory file tree tree')
    (hclosed : tree.Closed) : Tree.SameLinks tree tree' := by
  cases h with
  | unchanged => exact .refl _
  | written hwrite => exact Tree.sameLinks_writeFile hclosed hwrite

/-- What has been written has a name that an entry can have. -/
theorem Touches.isName {file : OutputFile} (h : Touches directory file tree tree')
    (hclosed : tree.Closed) (hslash : '/' ∉ file.name) : IsName file.name := by
  rw [← Path.baseName_join directory hslash]
  cases h with
  | unchanged hread =>
    obtain ⟨entry, hentry, -, hkind⟩ := Tree.readFile_ok hread
    refine Tree.isName_baseName hclosed hentry ?_
    obtain ⟨mode, rfl⟩ | ⟨-, -, hdirectory⟩ := hkind
    · rfl
    · exact hdirectory
  | written hwrite => exact Tree.isName_baseName_of_writeFile hclosed hwrite

/-- Writing a file changes nothing elsewhere. -/
theorem Touches.get?_of_ne {file : OutputFile} (h : Touches directory file tree tree')
    (hclosed : tree.Closed) {other : Place} (hother : other ≠ place tree directory file) :
    tree'.get? other = tree.get? other := by
  cases h with
  | unchanged => rfl
  | written hwrite => exact Tree.get?_writeFile hclosed hwrite hother

/-- Nothing but a file or a directory is at a place. -/
def Plain (tree : Tree) (place : Place) : Prop :=
  ∀ entry, tree.get? place = some entry → entry.isFile = true ∨ entry.isDirectory = true

instance (tree : Tree) (place : Place) : Decidable (Plain tree place) :=
  decidable_of_iff ((tree.get? place).all (fun entry => entry.isFile || entry.isDirectory) = true) <| by
    rw [Option.all_eq_true]
    simp only [Bool.or_eq_true, Plain]

/-- A file that is written to a place where no link or device is has its content there. -/
theorem Writes.holds {file : OutputFile} (h : Writes directory file tree tree')
    (hclosed : tree.Closed) (hplain : Plain tree (place tree directory file)) :
    ∃ mode, tree'.get? (place tree directory file) = some (.file (content file) mode) := by
  have hother {entry : Entry} (hentry : tree.get? (place tree directory file) = some entry)
      (hfile : entry.isFile = false) (hdirectory : entry.isDirectory = false) : False := by
    obtain h | h := hplain entry hentry
    · rw [hfile] at h
      cases h
    · rw [hdirectory] at h
      cases h
  cases h with
  | unchanged hread =>
    obtain ⟨entry, -, hentry, ⟨mode, rfl⟩ | ⟨-, hfile, hdirectory⟩⟩ := Tree.readFile_ok hread
    · exact ⟨mode, hentry⟩
    · exact (hother hentry hfile hdirectory).elim
  | written hwrite =>
    obtain ⟨mode, rfl, -⟩ | ⟨-, entry, hentry, hfile, hdirectory⟩ := Tree.writeFile_ok hclosed hwrite
    · exact ⟨mode, Tree.get?_set_self _ _ _⟩
    · exact (hother hentry hfile hdirectory).elim

theorem steps_closed {files : List OutputFile} (h : Steps (Touches directory) files tree tree')
    (hclosed : tree.Closed) : tree'.Closed := by
  induction h with
  | nil => exact hclosed
  | cons hfile _ ih => exact ih (hfile.closed hclosed)

theorem steps_sameLinks {files : List OutputFile} (h : Steps (Touches directory) files tree tree')
    (hclosed : tree.Closed) : Tree.SameLinks tree tree' := by
  induction h with
  | nil => exact .refl _
  | cons hfile _ ih => exact (hfile.sameLinks hclosed).trans (ih (hfile.closed hclosed))

theorem steps_isName {files : List OutputFile} (h : Steps (Touches directory) files tree tree')
    (hclosed : tree.Closed) (hslash : ∀ file ∈ files, '/' ∉ file.name) :
    ∀ file ∈ files, IsName file.name := by
  induction h with
  | nil => exact List.forall_mem_nil _
  | cons hfile _ ih =>
    obtain ⟨hfirst, hrest⟩ := List.forall_mem_cons.mp hslash
    exact List.forall_mem_cons.mpr ⟨hfile.isName hclosed hfirst, ih (hfile.closed hclosed) hrest⟩

/-- A place that no output file leads to is left as it is. -/
theorem steps_get?_of_ne {files : List OutputFile} (h : Steps (Touches directory) files tree tree')
    (hclosed : tree.Closed) {other : Place} (hother : ∀ file ∈ files, other ≠ place tree directory file) :
    tree'.get? other = tree.get? other := by
  induction h with
  | nil => rfl
  | @cons file files tree between tree' hfile hfiles ih =>
    have hlinks := hfile.sameLinks hclosed
    rw [ih (hfile.closed hclosed) fun f hf => ?_, hfile.get?_of_ne hclosed (hother _ List.mem_cons_self)]
    rw [place_of_sameLinks hlinks]
    exact hother f (List.mem_cons_of_mem _ hf)

/-- A file that is written has its content at the place that its path leads to, when no link or device
is there and no file that is written later leads to it. -/
theorem steps_holds {files : List OutputFile} (h : Steps (Writes directory) files tree tree')
    (hclosed : tree.Closed) {file : OutputFile} (hfile : file ∈ files)
    (hplain : Plain tree (place tree directory file))
    (hlater : files.Pairwise fun earlier later => earlier = file →
      place tree directory later ≠ place tree directory earlier) :
    ∃ mode, tree'.get? (place tree directory file) = some (.file (content file) mode) := by
  induction h with
  | nil => cases hfile
  | @cons first files tree between tree' hfirst hfiles ih =>
    have hlinks := hfirst.touches.sameLinks hclosed
    have hclosed' := hfirst.touches.closed hclosed
    simp only [place_of_sameLinks hlinks] at ih
    rw [List.pairwise_cons] at hlater
    by_cases hmem : file ∈ files
    · refine ih hclosed' hmem (fun entry hentry => ?_) hlater.2
      by_cases hplace : place tree directory first = place tree directory file
      · obtain ⟨mode, hmode⟩ := hfirst.holds hclosed (hplace ▸ hplain)
        rw [← hplace, hmode] at hentry
        cases hentry
        exact .inl rfl
      · rw [hfirst.touches.get?_of_ne hclosed (Ne.symm hplace)] at hentry
        exact hplain entry hentry
    · obtain rfl := (List.mem_cons.mp hfile).resolve_right hmem
      obtain ⟨mode, hmode⟩ := hfirst.holds hclosed hplain
      refine ⟨mode, ?_⟩
      rw [steps_get?_of_ne (steps_touches hfiles) hclosed' fun other hother => ?_, hmode]
      rw [place_of_sameLinks hlinks]
      exact (hlater.1 other hother rfl).symm

end Places

end Output

end HclTidy
