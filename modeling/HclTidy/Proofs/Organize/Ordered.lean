import HclTidy.Proofs.Grouping
import HclTidy.Proofs.Organize.Frame

/-!
# Runs whose blocks come in order

Sorting leaves alone what is in order. A run on a directory whose blocks come in the order in which
they are written therefore ends as its last part does with the files that are collected from them.
-/

set_option autoImplicit false

namespace HclTidy

open Run

namespace Request

/-- A run in place on the current directory. -/
def tidying : Request := ⟨⟨Path.current, [], [], false, false, false⟩, .undisturbed⟩

/-- A recursive one that makes backups. -/
def backingUp : Request := ⟨⟨Path.current, [], [], false, true, true⟩, .undisturbed⟩

variable {request : Request} {tree : Tree}

/-- The report of a run that succeeds, and the tree that it leaves. -/
def outcome? (request : Request) (tree : Tree) : Option (Report × Tree) :=
  match request.execute.result ⟨tree, []⟩ with
  | (.ok report, session') => some (report, session'.tree)
  | (.error _, _) => none

theorem result_of_outcome? {run : Report × Tree} (h : run ∈ request.outcome? tree) :
    ∃ session', request.execute.result ⟨tree, []⟩ = (.ok run.1, session') ∧ session'.tree = run.2 := by
  unfold outcome? at h
  split at h
  · next report session' hresult =>
    cases h
    exact ⟨session', hresult, rfl⟩
  · cases h

/-- What is known of the outcome of a run is known of a run that succeeds. -/
theorem exists_of_outcome? {α : Type} {f : Report × Tree → α} {a : α}
    (h : (request.outcome? tree).map f = some a) :
    ∃ run session', run ∈ request.outcome? tree ∧
      request.execute.result ⟨tree, []⟩ = (.ok run.1, session') ∧ session'.tree = run.2 ∧
        f run = a := by
  obtain ⟨run, hrun, hknown⟩ := Option.map_eq_some_iff.mp h
  obtain ⟨session', hresult, htree⟩ := result_of_outcome? hrun
  exact ⟨run, session', hrun, hresult, htree, hknown⟩

/-- What a run reads of files, as far as they can be used. -/
def readAt (faults : Faults) (tree : Tree) (paths : List Text) : List ParsedFile :=
  ((paths.filterMapM (Source.process faults)).value tree).toOption.getD []

/-- A run on a directory, without a configuration, comes to files. -/
structure ComesTo (request : Request) (tree : Tree) (paths : List Text) : Prop where
  isDirectory : tree.isDirectory request.input = true
  config : request.loadConfig.value tree = .ok .empty
  enumerates : (Source.enumerate request.host.faults request.input request.recursive).value tree =
    .ok paths
  read : ((paths.filterMapM (Source.process request.host.faults)).value tree).toOption.isSome = true

section ComesTo

variable {paths : List Text} {files : List OutputFile}

theorem ComesTo.value (h : request.ComesTo tree paths) :
    (Source.readInput request.host.faults request.input (tree.isDirectory request.input)
      request.recursive).value tree = .ok (readAt request.host.faults tree paths) := by
  have hread := h.read
  rw [h.isDirectory]
  refine Source.value_readInput h.enumerates ?_
  unfold readAt
  revert hread
  cases (paths.filterMapM (Source.process request.host.faults)).value tree with
  | error failure =>
    intro hread
    cases hread
  | ok files => exact fun _ => rfl

theorem ComesTo.sources_eq (h : request.ComesTo tree paths) :
    request.sources tree = readAt request.host.faults tree paths :=
  value_sources h.value

theorem ComesTo.outputs_eq (h : request.ComesTo tree paths)
    (hfiles : Grouping.ofBlocks .empty
      ((readAt request.host.faults tree paths).flatMap ParsedFile.blocks) = .ok files) :
    request.outputs tree = files :=
  Request.outputs_eq h.config h.sources_eq hfiles

/-- The last part of a run that has read files, with the output files of what it has read. -/
def ending (request : Request) (tree : Tree) (paths : List Text) (files : List OutputFile) :
    Except Failure Report × Session :=
  let sources := readAt request.host.faults tree paths
  let notices := Grouping.notices .empty (sources.flatMap ParsedFile.blocks)
  let reading := Source.readInput request.host.faults request.input (tree.isDirectory request.input)
    request.recursive
  let session := (reading.result (request.loadConfig.result ⟨tree, []⟩).2).2
  (request.finish (request.inputOn tree) (request.outputOn tree) sources files).result
    ⟨tree, .grouped files.length :: ((notices.map Event.detail).reverse ++ session.events)⟩

theorem ComesTo.execute_eq (h : request.ComesTo tree paths)
    (hfiles : Grouping.ofBlocks .empty
      ((readAt request.host.faults tree paths).flatMap ParsedFile.blocks) = .ok files)
    (hne : files ≠ []) :
    request.execute.result ⟨tree, []⟩ = request.ending tree paths files := by
  have hblocks := Grouping.ne_nil_of_ofBlocks hfiles hne
  have hvalue := h.value
  unfold ending
  rw [← h.sources_eq] at hfiles hblocks hvalue ⊢
  exact execute_eq_finish (Tree.exists?_of_isDirectory h.isDirectory) h.config hvalue hblocks hfiles

/-- The output files of what a run reads of files, before they are sorted. -/
def collected (faults : Faults) (tree : Tree) (paths : List Text) : List OutputFile :=
  Grouping.collect .empty ((readAt faults tree paths).flatMap ParsedFile.blocks)

/-- The files that a run comes to in a well-formed tree have blocks to write, and these are in order
as they come. -/
structure ComesInOrder (request : Request) (tree : Tree) (paths : List Text) : Prop
    extends request.ComesTo tree paths where
  wellFormed : tree.WellFormed
  unique :
    Grouping.findDuplicate? [] ((readAt request.host.faults tree paths).flatMap ParsedFile.blocks) = none
  names :
    (collected request.host.faults tree paths).Pairwise fun a b => a.name.le b.name
  blocks : ∀ file ∈ collected request.host.faults tree paths,
    file.blocks.Pairwise fun a b => a.sortKey.le b.sortKey
  ne_nil : collected request.host.faults tree paths ≠ []

/-- All but the paths that are enumerated, which can be computed at once. -/
def ReadsInOrder (request : Request) (tree : Tree) (paths : List Text) : Prop :=
  tree.isDirectory request.input = true ∧ request.loadConfig.value tree = .ok .empty ∧
    ((paths.filterMapM (Source.process request.host.faults)).value tree).toOption.isSome = true ∧
    tree.WellFormed ∧
    Grouping.findDuplicate? [] ((readAt request.host.faults tree paths).flatMap ParsedFile.blocks) =
      none ∧
    ((collected request.host.faults tree paths).Pairwise fun a b => a.name.le b.name) ∧
    (∀ file ∈ collected request.host.faults tree paths,
      file.blocks.Pairwise fun a b => a.sortKey.le b.sortKey) ∧
    collected request.host.faults tree paths ≠ []

instance : Decidable (request.ReadsInOrder tree paths) :=
  inferInstanceAs (Decidable (_ ∧ _ ∧ _ ∧ _ ∧ _ ∧ _ ∧ _ ∧ _))

theorem ComesInOrder.of_enumerates
    (henumerates : (Source.enumerate request.host.faults request.input request.recursive).value tree =
      .ok paths)
    (h : request.ReadsInOrder tree paths) : request.ComesInOrder tree paths :=
  have ⟨hdirectory, hconfig, hread, hwell, hunique, hnames, hblocks, hne⟩ := h
  ⟨⟨hdirectory, hconfig, henumerates, hread⟩, hwell, hunique, hnames, hblocks, hne⟩

theorem ComesInOrder.ofBlocks_eq (h : request.ComesInOrder tree paths) :
    Grouping.ofBlocks .empty ((readAt request.host.faults tree paths).flatMap ParsedFile.blocks) =
      .ok (collected request.host.faults tree paths) :=
  Grouping.ofBlocks_of_sorted h.unique h.names h.blocks

/-- The run ends as its last part does. -/
theorem ComesInOrder.execute_eq (h : request.ComesInOrder tree paths) :
    request.execute.result ⟨tree, []⟩ =
      request.ending tree paths (collected request.host.faults tree paths) :=
  h.toComesTo.execute_eq h.ofBlocks_eq h.ne_nil

theorem ComesInOrder.outputs_eq (h : request.ComesInOrder tree paths) :
    request.outputs tree = collected request.host.faults tree paths :=
  h.toComesTo.outputs_eq h.ofBlocks_eq

theorem ComesInOrder.outputs_ne_nil (h : request.ComesInOrder tree paths) :
    request.outputs tree ≠ [] :=
  h.outputs_eq ▸ h.ne_nil

end ComesTo

/-- A run whose blocks come in order, and how it ends. -/
structure EndsInOrder (request : Request) (tree : Tree) (paths : List Text)
    (Ends : Except Failure Report × Session → Prop) : Prop
    extends request.ComesInOrder tree paths where
  ends : Ends (request.execute.result ⟨tree, []⟩)

theorem EndsInOrder.of_enumerates {paths : List Text} {Ends : Except Failure Report × Session → Prop}
    (henumerates : (Source.enumerate request.host.faults request.input request.recursive).value tree =
      .ok paths)
    (h : request.ReadsInOrder tree paths ∧
      Ends (request.ending tree paths (collected request.host.faults tree paths))) :
    request.EndsInOrder tree paths Ends :=
  have hcomes : request.ComesInOrder tree paths := .of_enumerates henumerates h.1
  ⟨hcomes, hcomes.execute_eq ▸ h.2⟩

section Yields

variable {α : Type} {f : Report × Tree → α} {a : α}

/-- A run succeeds, and this is known of its report and of the tree that it leaves. -/
def Yields (f : Report × Tree → α) (a : α) (run : Except Failure Report × Session) : Prop :=
  run.1.toOption.map (fun report => f (report, run.2.tree)) = some a

instance [DecidableEq α] : DecidablePred (Yields f a) := fun _ => inferInstanceAs (Decidable (_ = _))

theorem EndsInOrder.outcome_eq {paths : List Text}
    (h : request.EndsInOrder tree paths (Yields f a)) : (request.outcome? tree).map f = some a := by
  have hends := h.ends
  unfold outcome?
  generalize request.execute.result ⟨tree, []⟩ = run at hends ⊢
  obtain ⟨report | failure, session'⟩ := run
  · cases hends
  · exact hends

end Yields

end Request

end HclTidy
