import HclTidy.Proofs.Organize.Reading
import HclTidy.Proofs.PathCheck
import HclTidy.Proofs.Tree.Reach

/-!
# What a directory run enumerates

The paths of a directory run are a function of the tree: those of the source files in the directory
and, when the run is recursive, of those in the directories below it. No path comes twice. How deep a
walk may go plays no part, since no directory lies deeper than there are entries.
-/

set_option autoImplicit false

namespace HclTidy

open Run

namespace Source

/-- Whether an entry of a directory is a source: a file with the name of one or, in a recursive run,
anything with such a name that is neither a link nor leads to a directory. -/
def isOwn (tree : Tree) (recursive : Bool) (directory : Text) (child : Text × Entry) : Bool :=
  if recursive then
    !tree.isDirectory (Path.join directory child.1) && isSourceName child.1 && !child.2.isLink
  else isSourceName child.1 && child.2.isFile

/-- Whether a walk goes on in an entry of a directory. -/
def isInner (tree : Tree) (skipped directory : Text) (child : Text × Entry) : Bool :=
  tree.isDirectory (Path.join directory child.1) &&
    (!(child.1.head? = some '.' || Path.join directory child.1 = skipped) && !child.2.isLink)

/-- The paths of some entries of a directory. -/
def paths (tree : Tree) (directory : Text) (keep : Text × Entry → Bool) : List Text :=
  ((tree.children (tree.physical directory)).filter keep).map fun c => Path.join directory c.1

/-- The sources in a directory and below it. -/
def walked (tree : Tree) (skipped : Text) : Nat → Text → List Text
  | 0, _ => []
  | depth + 1, directory =>
    paths tree directory (isOwn tree true directory) ++
      (paths tree directory (isInner tree skipped directory)).flatMap (walked tree skipped depth)

/-- The sources of a directory run. -/
def enumerated (tree : Tree) (recursive : Bool) (directory : Text) : List Text :=
  if recursive then
    walked tree (Path.join directory backupName) (tree.entries.length + 1) directory
  else paths tree directory (isOwn tree false directory)

variable {faults : Faults} {tree : Tree} {recursive : Bool} {skipped directory path : Text}

theorem mem_paths {keep : Text × Entry → Bool} : path ∈ paths tree directory keep ↔
    ∃ name entry, (name, entry) ∈ tree.children (tree.physical directory) ∧
      keep (name, entry) = true ∧ Path.join directory name = path := by
  simp only [paths, List.mem_map, List.mem_filter, Prod.exists, and_assoc]

theorem children_of_isDirectory (h : tree.isDirectory directory = true) :
    children faults tree directory = Faults.guard (faults.listing directory) directory none
      (tree.children (tree.physical directory)) := by
  obtain ⟨hlocate, mode, hmode⟩ := Tree.locate_of_isDirectory h
  have hentry : tree.entryAt true directory = .ok (tree.physical directory, .directory mode) := by
    rw [Tree.entryAt, hlocate]
    dsimp only
    rw [hmode]
  rw [children, Tree.list, hentry]
  rfl

/-- Some directory cannot be listed. -/
def HasUnlisted (faults : Faults) : Prop := ∃ directory, (faults.listing directory).isSome = true

theorem not_hasUnlisted_none : ¬HasUnlisted .none := by
  rintro ⟨directory, hsome⟩
  cases hsome

theorem gives_children (wrap : FileError → Failure) (h : tree.isDirectory directory = true) :
    Gives (HasUnlisted faults) (Run.require wrap (children faults tree directory)) tree
      (tree.children (tree.physical directory)) := by
  rw [children_of_isDirectory h]
  cases hfault : faults.listing directory with
  | none => exact .inl rfl
  | some fault => exact .inr ⟨⟨directory, by rw [hfault]; rfl⟩, _, rfl⟩

theorem filterMap_filter_ite {α β : Type} (l : List α) (p q : α → Bool) (f : α → β) :
    (l.filter p).filterMap (fun a => if q a = true then some (f a) else none) =
      (l.filter fun a => p a && q a).map f := by
  induction l with
  | nil => rfl
  | cons a l ih => by_cases hp : p a = true <;> by_cases hq : q a = true <;> simp [hp, hq, ih]

theorem gives_listDirectory (h : tree.isDirectory directory = true) :
    Gives (HasUnlisted faults) (listDirectory faults directory) tree
      (paths tree directory (isOwn tree false directory)) := by
  unfold listDirectory
  refine .bind (.inl rfl) isReading_tree (fun t => ?_) ((gives_children _ h).bind (isReading_require _ _)
    (fun children => isReading_filterMapM fun (name, entry) => ?_) ?_)
  · refine (isReading_require _ _).bind fun children => isReading_filterMapM fun (name, entry) => ?_
    cases entry with
    | link target => exact (isReading_emit _).bind fun _ => isReading_pure _
    | _ => exact isReading_pure _
  · cases entry with
    | link target => exact (isReading_emit _).bind fun _ => isReading_pure _
    | _ => exact isReading_pure _
  · refine .inl ((value_filterMapM (fun (name, entry) => ?_) (g := fun c =>
      if c.2.isFile = true then some (Path.join directory c.1) else none) fun (name, entry) _ => ?_).trans
        (congrArg _ (filterMap_filter_ite _ _ _ _)))
    · cases entry with
      | link target => exact (isReading_emit _).bind fun _ => isReading_pure _
      | _ => exact isReading_pure _
    · cases entry <;> rfl

theorem value_unlessLink (path : Text) (isLink : Bool) :
    (if isLink then do
        Run.emit (.skippedLink path)
        pure none
      else pure (some path) : Run (Option Text)).value tree =
        .ok (if (!isLink) = true then some path else none) := by
  cases isLink <;> rfl

theorem gives_walkDirectory {depth : Nat} (h : tree.isDirectory directory = true) :
    Gives (HasUnlisted faults) (walkDirectory faults skipped depth directory) tree
      (walked tree skipped depth directory) := by
  induction depth generalizing directory with
  | zero => exact .inl rfl
  | succ depth ih =>
    have hbelow (inner own : List Text) :
        IsReading (inner.mapM (walkDirectory faults skipped depth) >>= fun below =>
          pure (own ++ below.flatten)) :=
      (isReading_mapM (isReading_walkDirectory _ _)).bind fun _ => isReading_pure _
    unfold walkDirectory
    refine .bind (.inl rfl) isReading_tree (fun t => ?_) ((gives_children _ h).bind
      (isReading_require _ _) (fun children => ?_) (.bind
        (a := paths tree directory (isInner tree skipped directory)) (.inl ?_) ?_ (fun inner => ?_)
          (.bind (a := paths tree directory (isOwn tree true directory)) (.inl ?_) ?_ (hbelow _)
            (.bind (gives_mapM (isReading_walkDirectory _ _)
              (g := walked tree skipped depth) fun inner hinner => ?_)
              (isReading_mapM (isReading_walkDirectory _ _)) (fun _ => isReading_pure _) (.inl ?_)))))
    · exact (isReading_require _ _).bind fun children => (isReading_filterMapM fun _ =>
        isReading_ite (isReading_pure _) (isReading_unlessLink _ _)).bind fun inner =>
          (isReading_filterMapM fun _ => isReading_unlessLink _ _).bind (hbelow inner)
    · exact (isReading_filterMapM fun _ =>
        isReading_ite (isReading_pure _) (isReading_unlessLink _ _)).bind fun inner =>
          (isReading_filterMapM fun _ => isReading_unlessLink _ _).bind (hbelow inner)
    · rw [value_filterMapM (fun _ =>
        isReading_ite (isReading_pure _) (isReading_unlessLink _ _)) (g := fun c =>
          if (!(c.1.head? = some '.' || Path.join directory c.1 = skipped) && !c.2.isLink) = true then
            some (Path.join directory c.1) else none), filterMap_filter_ite]
      · exact rfl
      · rintro ⟨name, entry⟩ -
        dsimp only
        cases (decide (List.head? name = some '.') || decide (Path.join directory name = skipped)) with
        | true => rfl
        | false => exact value_unlessLink _ _
    · exact isReading_filterMapM fun _ =>
        isReading_ite (isReading_pure _) (isReading_unlessLink _ _)
    · exact (isReading_filterMapM fun _ => isReading_unlessLink _ _).bind (hbelow inner)
    · rw [value_filterMapM (fun _ => isReading_unlessLink _ _) (g := fun c =>
          if (!c.2.isLink) = true then some (Path.join directory c.1) else none),
        filterMap_filter_ite]
      · exact rfl
      · rintro ⟨name, entry⟩ -
        exact value_unlessLink _ _
    · exact isReading_filterMapM fun _ => isReading_unlessLink _ _
    · obtain ⟨c, hc, rfl⟩ := List.mem_map.mp hinner
      exact ih (Bool.and_eq_true_iff.mp (List.mem_filter.mp hc).2).1
    · exact congrArg Except.ok (congrArg _ List.flatMap_def.symm)

theorem gives_enumerate (h : tree.isDirectory directory = true) :
    Gives (HasUnlisted faults) (enumerate faults directory recursive) tree
      (enumerated tree recursive directory) := by
  unfold enumerate enumerated
  cases recursive with
  | true =>
    exact .bind (.inl rfl) isReading_tree (fun t => isReading_walkDirectory _ _ _)
      (gives_walkDirectory h)
  | false => exact gives_listDirectory h

/-! ## Each path once -/

section Distinct

theorem lists_of_mem_paths {keep : Text × Entry → Bool} (hkeep : ∀ c, keep c = true → c.2.isLink = false)
    (h : path ∈ paths tree directory keep) : Lists tree directory path := by
  obtain ⟨name, entry, hchild, hkept, hpath⟩ := mem_paths.mp h
  exact ⟨name, entry, hchild, hkeep _ hkept, hpath.symm⟩

theorem isLink_of_isOwn {child : Text × Entry} (h : isOwn tree recursive directory child = true) :
    child.2.isLink = false := by
  obtain ⟨name, entry⟩ := child
  cases entry with
  | link target => cases recursive <;> simp [isOwn, Entry.isLink, Entry.isFile] at h
  | _ => rfl

theorem isInner_iff {child : Text × Entry} : isInner tree skipped directory child = true ↔
    tree.isDirectory (Path.join directory child.1) = true ∧ child.1.head? ≠ some '.' ∧
      Path.join directory child.1 ≠ skipped ∧ child.2.isLink = false := by
  simp [isInner, and_assoc]

/-- What holds of a directory and of the directories that a walk goes on in holds of the directory of
everything that the walk finds. -/
theorem exists_directory_of_mem_walked {p : Text → Prop}
    (hinner : ∀ directory name entry, p directory →
      (name, entry) ∈ tree.children (tree.physical directory) →
      isInner tree skipped directory (name, entry) = true → p (Path.join directory name))
    {depth : Nat} (hself : p directory) (h : path ∈ walked tree skipped depth directory) :
    ∃ inner, p inner ∧ path ∈ paths tree inner (isOwn tree true inner) := by
  induction depth generalizing directory with
  | zero => cases h
  | succ depth ih =>
    obtain h | h := List.mem_append.mp h
    · exact ⟨directory, hself, h⟩
    · obtain ⟨inner, hmem, hpath⟩ := List.mem_flatMap.mp h
      obtain ⟨name, entry, hchild, hkept, rfl⟩ := mem_paths.mp hmem
      exact ih (hinner directory name entry hself hchild hkept) hpath

theorem lists_of_isInner {name : Text} {entry : Entry}
    (hchild : (name, entry) ∈ tree.children (tree.physical directory))
    (hinner : isInner tree skipped directory (name, entry) = true) :
    Lists tree directory (Path.join directory name) :=
  ⟨name, entry, hchild, (isInner_iff.mp hinner).2.2.2, rfl⟩

theorem isSourceName_of_isOwn {child : Text × Entry} (h : isOwn tree recursive directory child = true) :
    isSourceName child.1 = true := by
  cases recursive with
  | true =>
    simp only [isOwn, if_true, Bool.and_eq_true] at h
    exact h.1.2
  | false =>
    simp only [isOwn, Bool.false_eq_true, if_false, Bool.and_eq_true] at h
    exact h.1

theorem lists_of_mem_own (h : path ∈ paths tree directory (isOwn tree recursive directory)) :
    Lists tree directory path :=
  lists_of_mem_paths (fun _ => isLink_of_isOwn) h

/-- What a walk finds lies in the directory or below it. -/
theorem lists_of_mem_walked (hwell : tree.WellFormed) {depth : Nat}
    (h : path ∈ walked tree skipped depth directory) :
    ∃ inner, tree.physical directory <:+ tree.physical inner ∧ Lists tree inner path := by
  obtain ⟨inner, hsuffix, hown⟩ := exists_directory_of_mem_walked
    (p := fun inner => tree.physical directory <:+ tree.physical inner)
    (fun _ _ _ hsuffix hchild hkept =>
      hsuffix.trans ((lists_of_isInner hchild hkept).physical_suffix hwell)) List.suffix_rfl h
  exact ⟨inner, hsuffix, lists_of_mem_own hown⟩

theorem nodup_paths (hwell : tree.WellFormed) (keep : Text × Entry → Bool) :
    (paths tree directory keep).Nodup := by
  refine .of_map Path.baseName ?_
  have hnames : (paths tree directory keep).map Path.baseName =
      ((tree.children (tree.physical directory)).filter keep).map Prod.fst := by
    rw [paths, List.map_map]
    refine List.map_congr_left fun c hc => ?_
    exact Path.baseName_join directory (hwell.name_child (List.mem_filter.mp hc).1).no_slash
  rw [hnames]
  exact (List.filter_sublist.map Prod.fst).nodup (hwell.nodup_children _)

theorem nodup_walked (hwell : tree.WellFormed) {depth : Nat} :
    (walked tree skipped depth directory).Nodup := by
  induction depth generalizing directory with
  | zero => exact .nil
  | succ depth ih =>
    have hplace {inner : Text} (hinner : inner ∈ paths tree directory (isInner tree skipped directory)) :
        ∃ name, inner = Path.join directory name ∧
          tree.physical inner = name :: tree.physical directory := by
      obtain ⟨_, _, hchild, hkept, rfl⟩ := mem_paths.mp hinner
      obtain ⟨name, -, hpath, -, hphysical⟩ := (lists_of_isInner hchild hkept).exists_name hwell
      exact ⟨name, hpath, hphysical⟩
    have hbelow {inner path : Text} (hpath : path ∈ walked tree skipped depth inner) :
        ∃ name rest, tree.spot path = name :: rest ∧ tree.physical inner <:+ rest := by
      obtain ⟨deeper, hsuffix, hlists⟩ := lists_of_mem_walked hwell hpath
      obtain ⟨name, hname⟩ := hlists.spot hwell
      exact ⟨name, _, hname, hsuffix⟩
    refine List.Nodup.append (nodup_paths hwell _) (List.nodup_flatMap.mpr ⟨fun inner _ => ih, ?_⟩) ?_
    · refine (nodup_paths hwell _).imp_of_mem fun hfirst hsecond hne path hpath hpath' => hne ?_
      obtain ⟨name, rest, hspot, hsuffix⟩ := hbelow hpath
      obtain ⟨name', rest', hspot', hsuffix'⟩ := hbelow hpath'
      obtain ⟨first, rfl, hfirstPlace⟩ := hplace hfirst
      obtain ⟨second, rfl, hsecondPlace⟩ := hplace hsecond
      rw [hspot] at hspot'
      rw [hfirstPlace] at hsuffix
      rw [hsecondPlace, ← (List.cons.inj hspot').2] at hsuffix'
      have hsame := (List.suffix_of_suffix_length_le hsuffix hsuffix' le_rfl).eq_of_length rfl
      rw [(List.cons.inj hsame).1]
    · intro path hown hfound
      obtain ⟨inner, hinner, hpath⟩ := List.mem_flatMap.mp hfound
      obtain ⟨name, hname⟩ := (lists_of_mem_own hown).spot hwell
      obtain ⟨other, rest, hspot, hsuffix⟩ := hbelow hpath
      obtain ⟨last, -, hlast⟩ := hplace hinner
      rw [hname] at hspot
      rw [← (List.cons.inj hspot).2, hlast] at hsuffix
      exact absurd hsuffix.length_le (by simp)

theorem nodup_enumerated (hwell : tree.WellFormed) : (enumerated tree recursive directory).Nodup := by
  cases recursive with
  | false => exact nodup_paths hwell _
  | true => exact nodup_walked hwell

/-- A run on a directory enumerates the sources that lie directly in it. -/
theorem mem_enumerated_of_own (h : path ∈ paths tree directory (isOwn tree recursive directory)) :
    path ∈ enumerated tree recursive directory := by
  cases recursive with
  | false => exact h
  | true => exact List.mem_append_left _ h

end Distinct

/-! ## The files of a directory run -/

section Files

variable {input : Text} {files : List ParsedFile}

/-- The path of an entry that is no link in a directory or, in a recursive run, below it. -/
def Enumerates (tree : Tree) (recursive : Bool) (directory path : Text) : Prop :=
  ∃ inner, (inner = directory ∨
    recursive = true ∧ tree.physical directory <:+ tree.physical inner) ∧ Lists tree inner path

/-- A directory that a run on another one comes to: that one, or one that lies strictly below it and
not in its backup directory. -/
structure Visits (tree : Tree) (directory inner : Text) : Prop where
  isDirectory : tree.isDirectory inner = true
  below : inner = directory ∨
    tree.physical directory <:+ tree.physical inner ∧ tree.physical inner ≠ tree.physical directory
  outside : ¬backupName :: tree.physical directory <:+ tree.physical inner

theorem Visits.refl (h : tree.isDirectory directory = true) : Visits tree directory directory :=
  ⟨h, .inl rfl, fun hsuffix => absurd hsuffix.length_le (by simp)⟩

/-- What is enumerated is a source, and no link, in a directory that the run comes to. -/
theorem exists_visits_of_mem_enumerated (hwell : tree.WellFormed)
    (hdirectory : tree.isDirectory directory = true) (h : path ∈ enumerated tree recursive directory) :
    ∃ inner, Visits tree directory inner ∧ path ∈ paths tree inner (isOwn tree recursive inner) := by
  cases recursive with
  | false => exact ⟨directory, .refl hdirectory, h⟩
  | true =>
    refine exists_directory_of_mem_walked (p := Visits tree directory)
      (fun inner name entry hinner hchild hkept => ?_) (.refl hdirectory) h
    obtain ⟨hisDirectory, -, hskipped, hlink⟩ := isInner_iff.mp hkept
    have hname := hwell.name_child hchild
    have hplace : tree.physical (Path.join inner name) = name :: tree.physical inner := by
      rw [Tree.physical_eq_spot ((lists_of_isInner hchild hkept).linkAt? hwell),
        Tree.spot_join tree inner hname]
    have hsuffix : tree.physical directory <:+ tree.physical inner := by
      obtain rfl | ⟨hsuffix, -⟩ := hinner.below
      · exact List.suffix_rfl
      · exact hsuffix
    refine ⟨hisDirectory, .inr ⟨?_, ?_⟩, ?_⟩ <;> rw [hplace]
    · exact hsuffix.trans (List.suffix_cons _ _)
    · intro heq
      rw [← heq] at hsuffix
      exact absurd hsuffix.length_le (by simp)
    · intro hbackup
      obtain heq | hbackup := List.suffix_cons_iff.mp hbackup
      · obtain ⟨rfl, hsame⟩ := List.cons.inj heq
        obtain rfl | ⟨-, hne⟩ := hinner.below
        · exact hskipped rfl
        · exact hne hsame.symm
      · exact hinner.outside hbackup

theorem enumerates_of_mem (hwell : tree.WellFormed) (h : path ∈ enumerated tree recursive directory) :
    Enumerates tree recursive directory path := by
  cases recursive with
  | false => exact ⟨directory, .inl rfl, lists_of_mem_own h⟩
  | true =>
    obtain ⟨inner, hsuffix, hlists⟩ := lists_of_mem_walked hwell h
    exact ⟨inner, .inr ⟨rfl, hsuffix⟩, hlists⟩

theorem sublist_map_filterMap {α β : Type} {g : α → Option β} {f : β → α} {l : List α}
    (h : ∀ a ∈ l, ∀ b, g a = some b → f b = a) : ((l.filterMap g).map f).Sublist l := by
  induction l with
  | nil => exact .slnil
  | cons a l ih =>
    rw [List.forall_mem_cons] at h
    cases ha : g a with
    | none =>
      rw [List.filterMap_cons_none ha]
      exact (ih h.2).cons a
    | some b =>
      rw [List.filterMap_cons_some ha, List.map_cons, h.1 b ha]
      exact (ih h.2).cons_cons a

/-- The files of a directory run are what is made of the paths that it enumerates, as far as they can
be used. -/
theorem readInput_ok (hinput : tree.isDirectory input = true)
    (h : (readInput faults input true recursive).value tree = .ok files) :
    ∃ used : Text → Option ParsedFile,
      (∀ path ∈ enumerated tree recursive input, (process faults path).value tree = .ok (used path)) ∧
        files = (enumerated tree recursive input).filterMap used := by
  obtain ⟨session', h⟩ := result_of_value h
  rw [readInput_directory] at h
  obtain ⟨⟨⟩, events, -, h⟩ := (isReading_emit _).bind_ok h
  obtain ⟨paths, events, hpaths, h⟩ := (isReading_enumerate _ _).bind_ok h
  obtain ⟨files, events, hfiles, h⟩ := (isReading_filterMapM isReading_process).bind_ok h
  cases h
  obtain rfl := (gives_enumerate hinput).of_ok ((isReading_enumerate _ _).value_of_result hpaths)
  exact filterMapM_value_ok isReading_process
    ((isReading_filterMapM isReading_process).value_of_result hfiles)

/-- The files of a directory run have paths that it enumerates, in the same order. -/
theorem sublist_enumerated_of_readInput (hinput : tree.isDirectory input = true)
    (h : (readInput faults input true recursive).value tree = .ok files) :
    (files.map ParsedFile.name).Sublist (enumerated tree recursive input) := by
  obtain ⟨used, hused, rfl⟩ := readInput_ok hinput h
  refine sublist_map_filterMap fun path hpath file hfound => ?_
  have hprocess := hused path hpath
  rw [hfound] at hprocess
  exact (readFrom_of_process hprocess).1

theorem mem_enumerated_of_readInput (hinput : tree.isDirectory input = true)
    (h : (readInput faults input true recursive).value tree = .ok files) :
    ∀ file ∈ files, file.name ∈ enumerated tree recursive input :=
  fun _ hfile => (sublist_enumerated_of_readInput hinput h).subset (List.mem_map_of_mem hfile)

/-- The files of a directory run lie in the directory, or below it when the run is recursive. -/
theorem enumerates_of_readInput (hwell : tree.WellFormed) (hinput : tree.isDirectory input = true)
    (h : (readInput faults input true recursive).value tree = .ok files) :
    ∀ file ∈ files, Enumerates tree recursive input file.name :=
  fun file hfile => enumerates_of_mem hwell (mem_enumerated_of_readInput hinput h file hfile)

/-- The files of a directory run are no links. -/
theorem linkAt?_of_readInput (hwell : tree.WellFormed) (hinput : tree.isDirectory input = true)
    (h : (readInput faults input true recursive).value tree = .ok files) :
    ∀ file ∈ files, tree.linkAt? (tree.spot file.name) = none := by
  intro file hfile
  obtain ⟨directory, -, hlists⟩ := enumerates_of_readInput hwell hinput h file hfile
  exact hlists.linkAt? hwell

/-- No file of a directory run lies directly in the backup directory of its input. -/
theorem outside_of_readInput (hwell : tree.WellFormed) (hinput : tree.isDirectory input = true)
    (h : (readInput faults input true recursive).value tree = .ok files) :
    ∀ file ∈ files, ∃ inner, Lists tree inner file.name ∧
      tree.physical inner ≠ backupName :: tree.physical input := by
  intro file hfile
  obtain ⟨inner, hinner, hown⟩ := exists_visits_of_mem_enumerated hwell hinput
    (mem_enumerated_of_readInput hinput h file hfile)
  exact ⟨inner, lists_of_mem_own hown, fun heq => hinner.outside (heq ▸ List.suffix_rfl)⟩

end Files

/-! ## Looking again -/

section Again

variable {tree' : Tree} {entry : Entry}

/-- What a walk finds in a tree, one in an earlier tree has found when the same entry was there. -/
theorem mem_walked_of_same (hclosed : tree.Closed) (hwell : tree'.WellFormed)
    (hkeeps : Tree.KeepsDirectories tree tree')
    (hentry : tree.get? (tree.spot path) = some entry)
    (hsame : tree'.get? (tree.spot path) = some entry) {depth depth' : Nat}
    (hdirectory : tree.isDirectory directory = true)
    (hdepth : (tree.spot path).length ≤ (tree.physical directory).length + depth)
    (h : path ∈ walked tree' skipped depth' directory) : path ∈ walked tree skipped depth directory := by
  induction depth' generalizing directory depth with
  | zero => cases h
  | succ depth' ih =>
    have hbelow {inner : Text} {depth : Nat} (h : path ∈ walked tree' skipped depth inner) :
        ∃ name rest, tree.spot path = name :: rest ∧ tree.physical inner <:+ rest := by
      obtain ⟨deeper, hsuffix, hlists⟩ := lists_of_mem_walked hwell h
      obtain ⟨name, hname⟩ := hlists.spot hwell
      rw [hkeeps.links.physical, hkeeps.links.physical] at hsuffix
      rw [hkeeps.links.spot, hkeeps.links.physical] at hname
      exact ⟨name, _, hname, hsuffix⟩
    obtain ⟨depth, rfl⟩ : ∃ n, depth = n + 1 := by
      obtain ⟨name, rest, hspot, hsuffix⟩ := hbelow h
      have hlength := hsuffix.length_le
      rw [hspot, List.length_cons] at hdepth
      exact ⟨depth - 1, by omega⟩
    have hlisted {name : Text} {e : Entry} (hchild : (name, e) ∈ tree'.children (tree'.physical directory)) :
        IsName name ∧ tree'.get? (name :: tree.physical directory) = some e := by
      rw [hkeeps.links.physical] at hchild
      exact ⟨hwell.name_child hchild, hwell.get?_child hchild⟩
    obtain h | h := List.mem_append.mp h
    · obtain ⟨name, e, hchild, hown, rfl⟩ := mem_paths.mp h
      obtain ⟨hname, hget⟩ := hlisted hchild
      rw [Tree.spot_join tree directory hname] at hentry hsame
      rw [hsame] at hget
      cases hget
      refine List.mem_append_left _ (mem_paths.mpr ⟨name, entry, Tree.mem_children_of_get? hentry, ?_, rfl⟩)
      simp only [isOwn, if_true, Bool.and_eq_true, Bool.not_eq_true'] at hown ⊢
      refine ⟨⟨?_, hown.1.2⟩, hown.2⟩
      refine Bool.of_not_eq_true fun hdirectory' => ?_
      rw [hkeeps.isDirectory hdirectory'] at hown
      cases hown.1.1
    · obtain ⟨inner, hinner, hpath⟩ := List.mem_flatMap.mp h
      obtain ⟨last, rest, hspot, hsuffix⟩ := hbelow hpath
      obtain ⟨name, e, hchild, hkept, rfl⟩ := mem_paths.mp hinner
      obtain ⟨hisDirectory, hhidden, hskipped, hlink⟩ := isInner_iff.mp hkept
      have hname := (hlisted hchild).1
      have hplace : tree.physical (Path.join directory name) = name :: tree.physical directory := by
        have hnone := (lists_of_isInner hchild hkept).linkAt? hwell
        rw [← hkeeps.links.physical, Tree.physical_eq_spot hnone, Tree.spot_join tree' directory hname,
          hkeeps.links.physical]
      -- The directory has been there before: an entry below it has.
      rw [hspot] at hentry
      obtain ⟨mode, hmode⟩ := hclosed.hasDirectory_of_suffix hentry hsuffix
      rw [hplace] at hmode
      have hjoin := (Tree.canJoin_of_locate hname (Tree.ne_nil_of_isDirectory hdirectory)
        (Tree.locate_of_isDirectory hisDirectory).1).1
      have hinnerDirectory : tree.isDirectory (Path.join directory name) = true := by
        obtain ⟨hlocate, hget⟩ :=
          Tree.locate_of_entryAt (Tree.entryAt_join (.refl tree) hdirectory hjoin hmode rfl)
        exact Tree.isDirectory_iff.mpr ⟨_, hlocate, mode, hget⟩
      refine List.mem_append_right _ (List.mem_flatMap.mpr ⟨_, mem_paths.mpr ⟨name, .directory mode,
        Tree.mem_children_of_get? hmode, isInner_iff.mpr ⟨hinnerDirectory, hhidden, hskipped, rfl⟩, rfl⟩,
        ih hinnerDirectory ?_ hpath⟩)
      rw [hplace, List.length_cons]
      omega

/-- What a directory run enumerates in a tree, one in an earlier tree has enumerated when the same
entry was there. -/
theorem mem_enumerated_of_same (hclosed : tree.Closed) (hwell : tree'.WellFormed)
    (hkeeps : Tree.KeepsDirectories tree tree') (hdirectory : tree.isDirectory directory = true)
    (hentry : tree.get? (tree.spot path) = some entry)
    (hsame : tree'.get? (tree.spot path) = some entry)
    (h : path ∈ enumerated tree' recursive directory) : path ∈ enumerated tree recursive directory := by
  cases recursive with
  | false =>
    obtain ⟨name, e, hchild, hown, rfl⟩ := mem_paths.mp h
    rw [hkeeps.links.physical] at hchild
    rw [Tree.spot_join tree directory (hwell.name_child hchild)] at hentry hsame
    rw [hwell.get?_child hchild] at hsame
    cases hsame
    exact mem_paths.mpr ⟨name, entry, Tree.mem_children_of_get? hentry, hown, rfl⟩
  | true =>
    have hdepth := hclosed.length_lt_of_get? hentry
    exact mem_walked_of_same hclosed hwell hkeeps hentry hsame hdirectory (by omega) h

/-- An enumerated file reads as it has read in an earlier tree when the same entry was there. -/
theorem readFile_of_same (hwell : tree.WellFormed) (hkeeps : Tree.KeepsDirectories tree tree')
    (hdirectory : tree.isDirectory directory = true) (hentry : tree.get? (tree.spot path) = some entry)
    (hsame : tree'.get? (tree.spot path) = some entry)
    (h : path ∈ enumerated tree recursive directory) : tree'.readFile path = tree.readFile path := by
  obtain ⟨inner, hinner, hown⟩ := exists_visits_of_mem_enumerated hwell hdirectory h
  obtain ⟨name, e, hchild, hlink, rfl⟩ := lists_of_mem_own hown
  have hname := hwell.name_child hchild
  rw [Tree.spot_join tree inner hname] at hentry hsame
  rw [hwell.get?_child hchild] at hentry
  cases hentry
  rw [Tree.readFile, Tree.readFile,
    Tree.entryAt_join_eq hkeeps hinner.isDirectory hname (hwell.get?_child hchild) hlink hsame]

end Again

/-- A directory is safe when something that is enumerated in it is. -/
theorem isSafe_of_mem_enumerated {current : Text} (hcurrent : Path.isAbsolute current = true)
    (hwell : tree.WellFormed) (hdirectory : tree.isDirectory directory = true)
    (h : path ∈ enumerated tree recursive directory) (hsafe : PathCheck.isSafe current path = true) :
    PathCheck.isSafe current directory = true := by
  have hjoin {inner name : Text} {e : Entry} (hinner : tree.isDirectory inner = true)
      (hchild : (name, e) ∈ tree.children (tree.physical inner))
      (hsafe : PathCheck.isSafe current (Path.join inner name) = true) :
      PathCheck.isSafe current inner = true :=
    PathCheck.isSafe_of_isSafe_join hcurrent (Tree.ne_nil_of_isDirectory hinner)
      (hwell.name_child hchild) hsafe
  cases recursive with
  | false =>
    obtain ⟨name, e, hchild, -, rfl⟩ := mem_paths.mp h
    exact hjoin hdirectory hchild hsafe
  | true =>
    obtain ⟨inner, ⟨hinner, hall⟩, hown⟩ := exists_directory_of_mem_walked
      (p := fun inner => tree.isDirectory inner = true ∧
        (PathCheck.isSafe current inner = true → PathCheck.isSafe current directory = true))
      (fun _ _ _ habove hchild hkept => ⟨(isInner_iff.mp hkept).1, fun hsafe =>
        habove.2 (hjoin habove.1 hchild hsafe)⟩) ⟨hdirectory, id⟩ h
    obtain ⟨name, e, hchild, -, rfl⟩ := mem_paths.mp hown
    exact hall (hjoin hinner hchild hsafe)

end Source

end HclTidy
