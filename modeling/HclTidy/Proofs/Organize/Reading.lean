import HclTidy.Proofs.Block.Sound
import HclTidy.Proofs.Organize.Stage
import HclTidy.Proofs.Tree.Paths

/-!
# What a run reads

Enumerating, parsing, configuring and grouping leave the tree as it is. Every source file of a run
is what the tree holds under its name, and the entries that a directory run enumerates are no links.
-/

set_option autoImplicit false

namespace HclTidy

open Run

/-- The blocks of a file are those of the text that the tree holds under its name. -/
def ParsedFile.ReadFrom (tree : Tree) (file : ParsedFile) : Prop :=
  ∃ bytes text events, tree.readFile file.name = .ok bytes ∧ Utf8.readText bytes = .ok text ∧
    ParsedFile.ofText file.name true text = .ok (file, events)

namespace Source

variable {faults : Faults}

/-! ## Reading stages -/

theorem isReading_parse (path : Text) (keepSource : Bool) : IsReading (parse faults path keepSource) := by
  unfold parse
  refine isReading_tree.bind fun tree => ?_
  split
  · exact isReading_throw _
  · exact isReading_throw _
  · split
    · exact (isReading_emitDetails _).bind fun _ => isReading_pure _
    · exact (isReading_emitDetails _).bind fun _ => isReading_throw _

theorem isReading_listDirectory (directory : Text) : IsReading (listDirectory faults directory) := by
  unfold listDirectory
  refine isReading_tree.bind fun tree => (isReading_require _ _).bind fun children => ?_
  refine isReading_filterMapM fun (name, entry) => ?_
  cases entry with
  | link target => exact (isReading_emit _).bind fun _ => isReading_pure _
  | _ => exact isReading_pure _

theorem isReading_unlessLink (path : Text) (isLink : Bool) :
    IsReading (if isLink then do
        Run.emit (.skippedLink path)
        pure none
      else pure (some path) : Run (Option Text)) := by
  split
  · exact (isReading_emit _).bind fun _ => isReading_pure _
  · exact isReading_pure _

theorem isReading_ite {α : Type} {condition : Prop} [Decidable condition] {stage stage' : Run α}
    (h : IsReading stage) (h' : IsReading stage') :
    IsReading (if condition then stage else stage') := by
  split
  · exact h
  · exact h'

theorem isReading_walkDirectory (skipped : Text) (depth : Nat) (directory : Text) :
    IsReading (walkDirectory faults skipped depth directory) := by
  induction depth generalizing directory with
  | zero => exact isReading_pure _
  | succ depth ih =>
    unfold walkDirectory
    refine isReading_tree.bind fun tree => (isReading_require _ _).bind fun children => ?_
    exact (isReading_filterMapM fun (name, entry) =>
        isReading_ite (isReading_pure _) (isReading_unlessLink _ _)).bind fun inner =>
      (isReading_filterMapM fun (name, entry) => isReading_unlessLink _ _).bind fun own =>
        (isReading_mapM ih).bind fun below => isReading_pure _

theorem isReading_process (path : Text) : IsReading (process faults path) := by
  unfold process
  refine isReading_tree.bind fun tree => ?_
  split
  · exact (isReading_emit _).bind fun _ => isReading_pure _
  · refine (((isReading_parse path true).map some).tryCatch fun failure => ?_).bind fun parsed => ?_
    · cases failure with
      | source error => exact (isReading_emit _).bind fun _ => isReading_pure _
      | _ => exact isReading_throw _
    · cases parsed with
      | some file => exact (isReading_emit _).bind fun _ => isReading_pure _
      | none => exact isReading_pure _

/-- The source files in a directory, or in it and below it. -/
def enumerate (faults : Faults) (directory : Text) (recursive : Bool) : Run (List Text) :=
  if recursive then do
    walkDirectory faults (Path.join directory backupName) ((← Run.tree).entries.length + 1) directory
  else listDirectory faults directory

theorem isReading_enumerate (directory : Text) (recursive : Bool) :
    IsReading (enumerate faults directory recursive) := by
  unfold enumerate
  split
  · exact isReading_tree.bind fun tree => isReading_walkDirectory _ _ _
  · exact isReading_listDirectory _

theorem readInput_directory (input : Text) (recursive : Bool) :
    readInput faults input true recursive = (do
      Run.emit (.scanning recursive input)
      let paths ← enumerate faults input recursive
      let files ← paths.filterMapM (process faults)
      Run.emit (.foundFiles files.length (files.flatMap ParsedFile.blocks).length)
      pure files) := by
  cases recursive with
  | false => rfl
  | true =>
    unfold readInput enumerate
    simp only [Bool.not_true, Bool.false_eq_true, if_false, if_true, bind_assoc]

theorem isReading_readInput (input : Text) (isDirectory recursive : Bool) :
    IsReading (readInput faults input isDirectory recursive) := by
  cases isDirectory with
  | false =>
    exact (isReading_emit _).bind fun _ => (isReading_parse _ _).bind fun file =>
      (isReading_emit _).bind fun _ => isReading_pure _
  | true =>
    rw [readInput_directory]
    exact (isReading_emit _).bind fun _ => (isReading_enumerate _ _).bind fun paths =>
      (isReading_filterMapM isReading_process).bind fun files =>
        (isReading_emit _).bind fun _ => isReading_pure _

/-! ## What files are read as -/

/-- What a text is parsed to. -/
def parsed (path : Text) : Except ReadFailure Text → Except Failure ParsedFile
  | .error (.refused error) => .error (.ofFile (fun e => .source (.unreadable path e)) error)
  | .error (.notText fault) => .error (.source (.notText path fault))
  | .ok text =>
    match ParsedFile.ofText path true text with
    | .ok (file, _) => .ok file
    | .error failure => .error (.ofParse path failure.error)

theorem value_parse (path : Text) (tree : Tree) :
    (parse faults path true).value tree = parsed path (readText faults tree path) := by
  unfold parse parsed
  rw [value_tree_bind]
  cases readText faults tree path with
  | error failure => cases failure <;> rfl
  | ok text =>
    dsimp only
    cases ParsedFile.ofText path true text <;> rfl

/-- A file that cannot be used is left out. -/
def skipping : Except Failure ParsedFile → Except Failure (Option ParsedFile)
  | .ok file => .ok (some file)
  | .error (.source _) => .ok none
  | .error failure => .error failure

theorem value_process (path : Text) (tree : Tree) : (process faults path).value tree =
    match PathCheck.check (PathCheck.currentPath tree) path with
    | .error _ => .ok none
    | .ok () => skipping ((parse faults path true).value tree) := by
  unfold process
  rw [value_tree_bind]
  cases PathCheck.check (PathCheck.currentPath tree) path with
  | error error => rfl
  | ok _ =>
    dsimp only
    obtain ⟨events, hresult⟩ := (isReading_parse path true).result_eq ⟨tree, []⟩
    have hmap : (some <$> parse faults path true).result ⟨tree, []⟩ =
        (((parse faults path true).value tree).map some, ⟨tree, events⟩) := by
      rw [map_eq_pure_bind]
      cases hvalue : (parse faults path true).value tree with
      | ok file =>
        rw [hvalue] at hresult
        exact result_bind_of_ok hresult
      | error failure =>
        rw [hvalue] at hresult
        exact result_bind_of_error hresult
    cases hvalue : (parse faults path true).value tree with
    | ok file =>
      rw [hvalue] at hmap
      rw [value, result_bind_of_ok (result_tryCatch_of_ok hmap)]
      rfl
    | error failure =>
      rw [hvalue] at hmap
      cases failure with
      | source error =>
        rw [value, result_bind_of_ok ((result_tryCatch_of_error hmap).trans rfl)]
        rfl
      | _ =>
        rw [value, result_bind_of_error ((result_tryCatch_of_error hmap).trans rfl)]
        rfl

/-! ## What has been read -/

theorem readText_ok {tree : Tree} {path text : Text} (h : readText faults tree path = .ok text) :
    ∃ bytes, tree.readFile path = .ok bytes ∧ Utf8.readText bytes = .ok text := by
  unfold readText at h
  split at h
  · cases h
  · next bytes hbytes =>
    split at h
    · next htext =>
      cases h
      exact ⟨bytes, Tree.ok_of_bind_guard hbytes, htext⟩
    · cases h

theorem name_of_ofText {path text : Text} {keepSource : Bool} {file : ParsedFile}
    {events : List ParseEvent} (h : ParsedFile.ofText path keepSource text = .ok (file, events)) :
    file.name = path := by
  unfold ParsedFile.ofText at h
  split at h
  · cases h
  · obtain ⟨⟨blocks, events'⟩, -, h⟩ := Reading.bind_ok h
    cases h
    rfl

variable {tree : Tree} {path : Text} {file : ParsedFile}

theorem parse_value_ok_iff : (parse faults path true).value tree = .ok file ↔
    ∃ text events, readText faults tree path = .ok text ∧
      ParsedFile.ofText path true text = .ok (file, events) := by
  rw [value_parse]
  constructor
  · intro h
    cases htext : readText faults tree path with
    | error failure =>
      rw [htext] at h
      cases failure <;> cases h
    | ok text =>
      rw [htext, parsed] at h
      split at h
      · next read events hparsed =>
        cases h
        exact ⟨text, events, rfl, hparsed⟩
      · cases h
  · rintro ⟨text, events, htext, hparsed⟩
    rw [htext, parsed, hparsed]

theorem process_value_ok_iff : (process faults path).value tree = .ok (some file) ↔
    PathCheck.check (PathCheck.currentPath tree) path = .ok () ∧
      (parse faults path true).value tree = .ok file := by
  rw [value_process]
  cases PathCheck.check (PathCheck.currentPath tree) path with
  | error error => simp
  | ok _ =>
    cases (parse faults path true).value tree with
    | ok read => simp [skipping]
    | error failure => cases failure <;> simp [skipping]

/-- What a file is used as depends on its content and the current directory only. -/
theorem value_process_congr {tree' : Tree} (hcurrent : tree'.current = tree.current)
    (hread : tree'.readFile path = tree.readFile path) :
    (process faults path).value tree' = (process faults path).value tree := by
  rw [value_process, value_process, value_parse, value_parse, PathCheck.currentPath,
    PathCheck.currentPath, hcurrent, readText, readText, hread]

theorem readFrom_of_parse (h : (parse faults path true).value tree = .ok file) :
    file.name = path ∧ file.ReadFrom tree := by
  obtain ⟨text, events, htext, hparsed⟩ := parse_value_ok_iff.mp h
  obtain ⟨bytes, hbytes, hread⟩ := readText_ok htext
  obtain rfl := name_of_ofText hparsed
  exact ⟨rfl, bytes, text, events, hbytes, hread, hparsed⟩

theorem readFrom_of_process (h : (process faults path).value tree = .ok (some file)) :
    file.name = path ∧ file.ReadFrom tree :=
  readFrom_of_parse (process_value_ok_iff.mp h).2

/-- The files of an input are what the tree holds under their names. -/
theorem readFrom_of_readInput {input : Text} {isDirectory recursive : Bool} {files : List ParsedFile}
    (h : (readInput faults input isDirectory recursive).value tree = .ok files) :
    ∀ file ∈ files, file.ReadFrom tree := by
  obtain ⟨session', h⟩ := result_of_value h
  intro file hfile
  cases isDirectory with
  | false =>
    obtain ⟨⟨⟩, events, -, h⟩ := (isReading_emit _).bind_ok h
    obtain ⟨parsed, events, hparsed, h⟩ := (isReading_parse _ _).bind_ok h
    cases h
    obtain rfl := List.mem_singleton.mp hfile
    exact (readFrom_of_parse ((isReading_parse _ _).value_of_result hparsed)).2
  | true =>
    rw [readInput_directory] at h
    obtain ⟨⟨⟩, events, -, h⟩ := (isReading_emit _).bind_ok h
    obtain ⟨paths, events, -, h⟩ := (isReading_enumerate _ _).bind_ok h
    obtain ⟨files, events, hfiles, h⟩ := (isReading_filterMapM isReading_process).bind_ok h
    cases h
    obtain ⟨used, hused, rfl⟩ := filterMapM_value_ok isReading_process
      ((isReading_filterMapM isReading_process).value_of_result hfiles)
    obtain ⟨path, hpath, hfound⟩ := List.mem_filterMap.mp hfile
    exact (readFrom_of_process ((hused path hpath).trans (congrArg _ hfound))).2

/-! ## What a directory run enumerates -/

/-- The path of an entry that is no link in a directory. -/
def Lists (tree : Tree) (directory path : Text) : Prop :=
  ∃ name entry, (name, entry) ∈ tree.children (tree.physical directory) ∧ entry.isLink = false ∧
    path = Path.join directory name

section Lists

variable {directory : Text}

theorem Lists.spot (h : Lists tree directory path) (hwell : tree.WellFormed) :
    ∃ name, tree.spot path = name :: tree.physical directory := by
  obtain ⟨name, entry, hchild, -, rfl⟩ := h
  exact ⟨name, Tree.spot_join tree directory (hwell.name_child hchild)⟩

/-- The path of an entry that a directory lists names that entry. -/
theorem Lists.linkAt? (h : Lists tree directory path) (hwell : tree.WellFormed) :
    tree.linkAt? (tree.spot path) = none := by
  obtain ⟨name, entry, hchild, hlink, rfl⟩ := h
  rw [Tree.spot_join tree directory (hwell.name_child hchild)]
  exact Tree.linkAt?_of_not_link (hwell.get?_child hchild) hlink

/-- The path of an entry that a directory lists is made of the directory and the name of the entry,
and leads to it. -/
theorem Lists.exists_name (h : Lists tree directory path) (hwell : tree.WellFormed) :
    ∃ name, IsName name ∧ path = Path.join directory name ∧
      tree.spot path = name :: tree.physical directory ∧
      tree.physical path = name :: tree.physical directory := by
  have hlink := h.linkAt? hwell
  obtain ⟨name, entry, hchild, -, rfl⟩ := h
  have hname := hwell.name_child hchild
  have hspot := Tree.spot_join tree directory hname
  exact ⟨name, hname, rfl, hspot, (Tree.physical_eq_spot hlink).trans hspot⟩

end Lists

theorem Lists.physical_suffix {directory inner : Text} (h : Lists tree directory inner)
    (hwell : tree.WellFormed) : tree.physical directory <:+ tree.physical inner := by
  obtain ⟨last, -, -, -, hlast⟩ := h.exists_name hwell
  rw [hlast]
  exact List.suffix_cons _ _

/-! ## Files of an input -/

/-- The files of a directory run are those that it enumerates, as far as they can be used. -/
theorem value_readInput {input : Text} {recursive : Bool} {paths : List Text} {files : List ParsedFile}
    (hpaths : (enumerate faults input recursive).value tree = .ok paths)
    (hfiles : (paths.filterMapM (process faults)).value tree = .ok files) :
    (readInput faults input true recursive).value tree = .ok files := by
  obtain ⟨events, henumerate⟩ :=
    (isReading_enumerate input recursive).result_eq ⟨tree, [.scanning recursive input]⟩
  rw [hpaths] at henumerate
  obtain ⟨events', hprocess⟩ := (isReading_filterMapM isReading_process).result_eq ⟨tree, events⟩
  rw [hfiles] at hprocess
  rw [readInput_directory, value, result_bind_of_ok (result_emit _ _), result_bind_of_ok henumerate,
    result_bind_of_ok hprocess]
  rfl

theorem readInput_single {input : Text} {recursive : Bool} {files : List ParsedFile}
    (h : (readInput faults input false recursive).value tree = .ok files) :
    ∃ file, files = [file] ∧ file.name = input := by
  obtain ⟨session', h⟩ := result_of_value h
  obtain ⟨⟨⟩, events, -, h⟩ := (isReading_emit _).bind_ok h
  obtain ⟨parsed, events, hparsed, h⟩ := (isReading_parse _ _).bind_ok h
  cases h
  exact ⟨parsed, rfl, (readFrom_of_parse ((isReading_parse _ _).value_of_result hparsed)).1⟩

end Source

end HclTidy
