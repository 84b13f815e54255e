import HclTidy.Proofs.Organize.Course
import HclTidy.Yaml.Reader

/-!
# What a run leaves alone

A run changes the tree at the places of its output files, of its sources and of their backups, and
nowhere else, whether it succeeds or fails. In particular every file that it has neither parsed nor
written to, and that does not lie in the backup directory, is kept.
-/

set_option autoImplicit false

namespace HclTidy

open Run

namespace Tree

/-- Something is at a place that is neither a directory nor a link. -/
def HasLeaf (tree : Tree) (place : Place) : Prop :=
  ∃ entry, tree.get? place = some entry ∧ entry.isDirectory = false ∧ entry.isLink = false

theorem HasLeaf.gains {tree tree' : Tree} {place : Place} (h : tree.HasLeaf place)
    (hgains : GainsDirectories tree tree') : tree'.HasLeaf place := by
  obtain ⟨entry, hentry, hkind⟩ := h
  exact ⟨entry, hgains.kept _ _ hentry, hkind⟩

theorem HasLeaf.writeFile {tree tree' : Tree} {place : Place} (h : tree.HasLeaf place)
    (hclosed : tree.Closed) {path : Text} {mode : Nat} {content : Bytes}
    (hwrite : tree.writeFile path mode content = .ok tree') : tree'.HasLeaf place := by
  obtain ⟨kept, rfl, -⟩ | ⟨rfl, -⟩ := writeFile_ok hclosed hwrite
  · obtain ⟨entry, hentry, hkind⟩ := h
    by_cases hplace : place = tree.physical path
    · exact ⟨_, by rw [hplace, get?_set_self], rfl, rfl⟩
    · exact ⟨entry, by rw [get?_set_of_ne _ _ hplace, hentry], hkind⟩
  · exact h

/-- The place lies strictly below a directory. -/
def IsInside (directory place : Place) : Prop := place ≠ directory ∧ directory <:+ place

theorem isInside_cons (directory : Place) (name : Text) : IsInside directory (name :: directory) :=
  ⟨List.cons_ne_self _ _, List.suffix_cons _ _⟩

end Tree

theorem Output.steps_hasLeaf {directory : Text} {files : List OutputFile} {tree tree' : Tree}
    (h : Steps (Touches directory) files tree tree') (hclosed : tree.Closed) {place : Place}
    (hleaf : tree.HasLeaf place) : tree'.HasLeaf place := by
  induction h with
  | nil => exact hleaf
  | cons hfile _ ih =>
    refine ih (hfile.closed hclosed) ?_
    cases hfile with
    | unchanged => exact hleaf
    | written hwrite => exact hleaf.writeFile hclosed hwrite

/-- Paths of sources: they end with names, and one that another follows names no link. -/
structure Tree.AreSources (tree : Tree) (paths : List Text) : Prop where
  name : ∀ path ∈ paths, IsName (Path.baseName path)
  leaf : paths.Pairwise fun path _ => tree.HasLeaf (tree.spot path)

theorem Tree.AreSources.sublist {tree : Tree} {paths paths' : List Text} (h : tree.AreSources paths)
    (hsublist : paths'.Sublist paths) : tree.AreSources paths' :=
  ⟨fun path hpath => h.name path (hsublist.subset hpath), h.leaf.sublist hsublist⟩

namespace Request

/-! ## The sources of a run -/

section Sources

variable {request : Request} {tree : Tree}

theorem value_of_sources_ne_nil (h : request.sources tree ≠ []) :
    (Source.readInput request.host.faults request.input (tree.isDirectory request.input)
      request.recursive).value tree = .ok (request.sources tree) := by
  unfold sources at h ⊢
  cases hvalue : (Source.readInput request.host.faults request.input
      (tree.isDirectory request.input) request.recursive).value tree with
  | error failure =>
    rw [hvalue] at h
    exact absurd rfl h
  | ok files => rfl

theorem readFrom_of_mem_sources {file : ParsedFile} (h : file ∈ request.sources tree) :
    file.ReadFrom tree :=
  Source.readFrom_of_readInput (value_of_sources_ne_nil (List.ne_nil_of_mem h)) file h

/-- What has been read through a path that names no link is neither a directory nor a link. -/
theorem hasLeaf_of_readFrom {file : ParsedFile} (h : file.ReadFrom tree)
    (hlink : tree.linkAt? (tree.spot file.name) = none) : tree.HasLeaf (tree.spot file.name) := by
  obtain ⟨bytes, text, events, hbytes, -⟩ := h
  obtain ⟨entry, -, hentry, hkind⟩ := Tree.readFile_ok hbytes
  rw [Tree.physical_eq_spot hlink] at hentry
  refine ⟨entry, hentry, ?_, ?_⟩
  · obtain ⟨mode, rfl⟩ | hkind := hkind
    · rfl
    · exact hkind.2.2
  · cases entry with
    | link target =>
      rw [Tree.linkAt?_of_link hentry] at hlink
      cases hlink
    | _ => rfl

theorem areSources (hwell : tree.WellFormed) :
    tree.AreSources ((request.sources tree).map ParsedFile.name) := by
  refine ⟨fun path hpath => ?_, ?_⟩
  · obtain ⟨file, hfile, rfl⟩ := List.mem_map.mp hpath
    obtain ⟨bytes, text, events, hbytes, -⟩ := readFrom_of_mem_sources hfile
    obtain ⟨entry, hentry, -, hkind⟩ := Tree.readFile_ok hbytes
    refine Tree.isName_baseName hwell.closed hentry ?_
    obtain ⟨mode, rfl⟩ | hkind := hkind
    · rfl
    · exact hkind.2.2
  · cases hsources : request.sources tree with
    | nil => exact .nil
    | cons file files =>
      have hvalue := value_of_sources_ne_nil (hsources ▸ List.cons_ne_nil file files)
      rw [← hsources]
      cases hdirectory : tree.isDirectory request.input with
      | false =>
        rw [hdirectory] at hvalue
        obtain ⟨single, hsingle, -⟩ := Source.readInput_single hvalue
        rw [hsingle]
        exact List.pairwise_singleton _ _
      | true =>
        rw [hdirectory] at hvalue
        refine List.pairwise_of_forall_mem_list fun path hpath _ _ => ?_
        obtain ⟨source, hsource, rfl⟩ := List.mem_map.mp hpath
        exact hasLeaf_of_readFrom (readFrom_of_mem_sources hsource)
          (Source.linkAt?_of_readInput hwell hdirectory hvalue source hsource)

/-- No source is read twice. -/
theorem nodup_sources (hwell : tree.WellFormed) :
    ((request.sources tree).map ParsedFile.name).Nodup := by
  cases hsources : request.sources tree with
  | nil => exact .nil
  | cons file files =>
    have hvalue := value_of_sources_ne_nil (hsources ▸ List.cons_ne_nil file files)
    rw [← hsources]
    cases hdirectory : tree.isDirectory request.input with
    | false =>
      rw [hdirectory] at hvalue
      obtain ⟨single, hsingle, -⟩ := Source.readInput_single hvalue
      rw [hsingle]
      exact List.nodup_singleton _
    | true =>
      rw [hdirectory] at hvalue
      exact (Source.sublist_enumerated_of_readInput hdirectory hvalue).nodup
        (Source.nodup_enumerated hwell)

end Sources

end Request

/-! ## What stays -/

section Finishes

variable {outputDirectory : Text} {backup : Option Text} {paths : List Text}
  {files done : List OutputFile} {tree tree' : Tree}

/-- Sources are what they have been while directories are created and files are written. -/
theorem Cleanup.pairwise_isLeaf {start between : Tree} (hgains : Tree.GainsDirectories between start)
    (hlinks : Tree.SameLinks tree between) (hpaths : tree.AreSources paths)
    (hleaf : ∀ place, tree.HasLeaf place → between.HasLeaf place) :
    paths.Pairwise fun path _ => IsLeaf start path := by
  refine hpaths.leaf.imp fun hpath => ?_
  intro entry hentry
  rw [(hlinks.trans hgains.sameLinks).spot] at hentry
  obtain ⟨other, hother, hkind⟩ := (hleaf _ hpath).gains hgains
  rw [hentry] at hother
  cases hother
  exact hkind

/-- Clearing sources leaves every other place alone but those of the backups. -/
theorem Cleanup.get?_of_clears {start between : Tree} (hgains : Tree.GainsDirectories between start)
    (hlinks : Tree.SameLinks tree between) (hpaths : tree.AreSources paths)
    (hleaf : ∀ place, tree.HasLeaf place → between.HasLeaf place) {cleared : List Text}
    (hcleared : cleared.Sublist paths)
    (h : Steps (Clears backup) cleared start tree') {place : Place}
    (hplace : ∀ path ∈ cleared, place ≠ tree.spot path ∧
      ∀ directory ∈ backup, place ≠ Path.baseName path :: tree.physical directory) :
    tree'.get? place = start.get? place := by
  have hlinks' := hlinks.trans hgains.sameLinks
  have hsources := hpaths.sublist hcleared
  refine steps_get?_of_ne h (.refl start) hsources.name (pairwise_isLeaf hgains hlinks hsources hleaf)
    fun path hpath => ?_
  rw [hlinks'.spot]
  refine ⟨(hplace path hpath).1, fun directory hdirectory => ?_⟩
  rw [hlinks'.physical]
  exact (hplace path hpath).2 directory hdirectory

section Written

variable {start between : Tree}

theorem Output.sameLinks_of_touches (hgains : Tree.GainsDirectories tree start)
    (h : Steps (Touches outputDirectory) done start between) (hclosed : tree.Closed) :
    Tree.SameLinks tree between :=
  hgains.sameLinks.trans (steps_sameLinks h (hgains.closed hclosed))

theorem Output.get?_of_touches (hgains : Tree.GainsDirectories tree start)
    (h : Steps (Touches outputDirectory) done start between) (hclosed : tree.Closed) {place : Place}
    {entry : Entry} (hentry : tree.get? place = some entry)
    (hplace : ∀ file ∈ done, place ≠ Output.place tree outputDirectory file) :
    between.get? place = some entry := by
  rw [steps_get?_of_ne h (hgains.closed hclosed) fun file hfile => ?_, hgains.kept _ _ hentry]
  rw [Output.place_of_sameLinks hgains.sameLinks]
  exact hplace file hfile

theorem Output.hasLeaf_of_touches (hgains : Tree.GainsDirectories tree start)
    (h : Steps (Touches outputDirectory) done start between) (hclosed : tree.Closed) (place : Place)
    (hleaf : tree.HasLeaf place) : between.HasLeaf place :=
  steps_hasLeaf h (hgains.closed hclosed) (hleaf.gains hgains)

end Written

/-- A run leaves every entry alone but those at the places of its output files, of its sources and
of their backups. -/
theorem Request.Finishes.get?_of_ne {request : Request} {r : Except Failure Report}
    (h : Finishes request outputDirectory paths files r tree tree') (hclosed : tree.Closed)
    (hpaths : tree.AreSources paths) {place : Place} {entry : Entry}
    (hentry : tree.get? place = some entry)
    (houtput : ∀ file ∈ files, place ≠ Output.place tree outputDirectory file)
    (hsource : ∀ path ∈ paths, place ≠ tree.spot path)
    (hbackup : ∀ path ∈ paths, ∀ directory ∈ request.backupTo outputDirectory,
      place ≠ Path.baseName path :: tree.physical directory) :
    tree'.get? place = some entry := by
  cases h with
  | unchanged => exact hentry
  | unopened hgains => exact hgains.kept _ _ hentry
  | interrupted hgains hfiles hdone hinterrupts =>
    obtain ⟨touched, hfront, htouched⟩ := hinterrupts.touches hdone
    exact Output.get?_of_touches hgains htouched hclosed hentry fun file hfile =>
      houtput file (hfiles ▸ hfront.subset hfile)
  | settled _ hgains hdone hstale hgains' hfront _ hcleared =>
    have htouched := Output.steps_touches hdone
    have hbetween := Output.get?_of_touches hgains htouched hclosed hentry houtput
    have hsublist := hfront.sublist.trans (hstale ▸ List.filter_sublist)
    rw [Cleanup.get?_of_clears hgains' (Output.sameLinks_of_touches hgains htouched hclosed) hpaths
      (Output.hasLeaf_of_touches hgains htouched hclosed) hsublist hcleared fun path hpath =>
        ⟨hsource path (hsublist.subset hpath), hbackup path (hsublist.subset hpath)⟩]
    exact hgains'.kept _ _ hbetween

theorem Request.backupTo_eq {request : Request} {directory : Text}
    (h : directory ∈ request.backupTo outputDirectory) :
    request.backup = true ∧ directory = Path.join outputDirectory Source.backupName := by
  unfold backupTo at h
  split at h
  · next hbackup => exact ⟨hbackup, (Option.mem_some.mp h).symm⟩
  · cases h

end Finishes

/-- A run keeps every file that it has neither parsed nor written to and that does not lie in the
backup directory, whether it succeeds or fails. -/
theorem Request.execute_keeps_file {request : Request} {session session' : Session}
    {r : Except Failure Report} (hwell : session.tree.WellFormed)
    (hrun : request.execute.result session = (r, session')) {place : Place} {content : Bytes}
    {mode : Nat} (hfile : session.tree.get? place = some (.file content mode))
    (hsource : ∀ file ∈ request.sources session.tree, place ≠ session.tree.physical file.name)
    (houtput : ∀ file ∈ request.outputs session.tree,
      place ≠ session.tree.physical (Path.join (request.outputOn session.tree) file.name))
    (hbackup : ¬Tree.IsInside (session.tree.physical
      (Path.join (request.outputOn session.tree) Source.backupName)) place) :
    session'.tree.get? place = some (.file content mode) := by
  obtain ⟨htree, -⟩ | ⟨_, -, -, hfinishes⟩ := execute_cases hrun
  · rw [htree, hfile]
  refine hfinishes.get?_of_ne hwell.closed (areSources hwell) hfile houtput (fun path hpath => ?_)
    fun path hpath directory hdirectory => ?_
  · obtain ⟨source, hsourceMem, rfl⟩ := List.mem_map.mp hpath
    rintro rfl
    -- A file is at the place that the path names, so no link is followed from there.
    refine hsource source hsourceMem (Tree.physical_eq_spot ?_).symm
    exact Tree.linkAt?_of_not_link hfile rfl
  · obtain ⟨-, rfl⟩ := backupTo_eq hdirectory
    rintro rfl
    exact hbackup (Tree.isInside_cons _ _)

/-- A file to organize, the file that its block goes to, and a file that is no source. -/
def Tree.siblings : Tree :=
  ⟨[([], .directory 0o755),
    (["main.tf".toList], .file (Utf8.encode "variable \"a\" \x7b\x7d\n".toList) 0o644),
    (["variables.tf".toList], .file (Utf8.encode "variable \"b\" \x7b\x7d\n".toList) 0o644),
    (["other.tf".toList], .file (Utf8.encode "variable \"c\" \x7b\n".toList) 0o644)], []⟩

/-- A system on which nothing fails but what the tree refuses. -/
def Host.undisturbed : Host := ⟨Yaml.reader, .none⟩

/-- A run in place on one file. -/
def Request.ofFile (path : Text) : Request := ⟨⟨path, [], [], false, false, false⟩, .undisturbed⟩

theorem Tree.wellFormed_siblings : siblings.WellFormed := by decide

/-- A file beside a single input is kept when no block goes to it. -/
theorem Request.execute_keeps_sibling :
    ((Request.ofFile "main.tf".toList).execute.result ⟨.siblings, []⟩).2.tree.get?
      ["other.tf".toList] =
        some (.file (Utf8.encode "variable \"c\" \x7b\n".toList) 0o644) := by
  have hrun : (Request.ofFile "main.tf".toList).execute.result ⟨.siblings, []⟩ = (_, _) :=
    Prod.mk.eta.symm
  exact execute_keeps_file Tree.wellFormed_siblings hrun (by decide +kernel) (by decide +kernel)
    (by decide +kernel) (by unfold Tree.IsInside; decide +kernel)

/-- A file beside a single input is not kept when a block goes to it: a run writes over every file
that has the name of an output file. -/
theorem Request.execute_overwrites_sibling :
    ¬∀ (request : Request) (session session' : Session) (report : Report),
      session.tree.WellFormed → request.dryRun = false →
      session.tree.samePlace (request.outputOn session.tree) (request.inputOn session.tree) = true →
      request.execute.result session = (.ok report, session') →
      ∀ place content mode, session.tree.get? place = some (.file content mode) →
        (∀ file ∈ request.sources session.tree, place ≠ session.tree.physical file.name) →
        ¬Tree.IsInside (session.tree.physical
          (Path.join (request.outputOn session.tree) Source.backupName)) place →
        ∃ mode', session'.tree.get? place = some (.file content mode') := by
  intro h
  have hok : ((Request.ofFile "main.tf".toList).execute.result
      ⟨.siblings, []⟩).1.toOption.isSome = true := by decide +kernel
  have hafter : ((Request.ofFile "main.tf".toList).execute.result ⟨.siblings, []⟩).2.tree.get?
      ["variables.tf".toList] =
        some (.file (Utf8.encode "variable \"a\" \x7b\n\x7d\n".toList) 0o644) := by decide +kernel
  cases hrun : (Request.ofFile "main.tf".toList).execute.result ⟨.siblings, []⟩ with
  | mk outcome session' =>
    rw [hrun] at hok hafter
    cases outcome with
    | error failure => cases hok
    | ok report =>
      obtain ⟨mode, hkept⟩ := h _ _ _ report Tree.wellFormed_siblings rfl (by decide) hrun
        ["variables.tf".toList] (Utf8.encode "variable \"b\" \x7b\x7d\n".toList) 0o644
        (by decide +kernel) (by decide +kernel) (by unfold Tree.IsInside; decide +kernel)
      rw [hafter] at hkept
      cases hkept

end HclTidy
