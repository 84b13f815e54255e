import Mathlib
import HclTidy.Grouping

/-!
# Groups of blocks

The output files have distinct names, and the blocks of each are those that are routed to its name.
-/

set_option autoImplicit false

namespace HclTidy.Grouping

theorem nodup_eraseDups {α : Type} [BEq α] [LawfulBEq α] (l : List α) : l.eraseDups.Nodup := by
  induction h : l.length using Nat.strong_induction_on generalizing l with
  | _ n ih =>
    subst h
    cases l with
    | nil => exact List.nodup_nil
    | cons a l =>
      rw [List.eraseDups_cons, List.nodup_cons, List.mem_eraseDups, List.mem_filter]
      refine ⟨fun hmem => ?_, ih _ (Nat.lt_succ_of_le (List.length_filter_le _ _)) _ rfl⟩
      rw [beq_self_eq_true] at hmem
      cases hmem.2

variable {config : Config} {blocks : List Block}

/-- The blocks that are routed to a file name. -/
def routed (config : Config) (blocks : List Block) (name : Text) : List Block :=
  blocks.filter fun b => config.fileFor b = name

theorem mem_routed {name : Text} {b : Block} :
    b ∈ routed config blocks name ↔ b ∈ blocks ∧ config.fileFor b = name := by
  rw [routed, List.mem_filter, decide_eq_true_eq]

theorem collect_eq (config : Config) (blocks : List Block) :
    collect config blocks = (blocks.map config.fileFor).eraseDups.filterMap fun name =>
      (routed config blocks name).head?.map fun first =>
        ⟨name, first.type, first.subType, routed config blocks name⟩ := by
  have hrouted (name : Text) :
      ((blocks.map fun b => (config.fileFor b, b)).filter fun r => r.1 = name).map Prod.snd =
        routed config blocks name := by
    rw [List.filter_map, List.map_map]
    exact List.map_id _
  unfold collect
  simp only [hrouted, List.map_map]
  rfl

/-- Every name that a block is routed to has a file with the blocks that are routed there. -/
theorem exists_of_mem_names {name : Text} (h : name ∈ (blocks.map config.fileFor).eraseDups) :
    ∃ file : OutputFile, file.name = name ∧ file.blocks = routed config blocks name ∧
      ((routed config blocks name).head?.map fun first =>
        (⟨name, first.type, first.subType, routed config blocks name⟩ : OutputFile)) = some file := by
  obtain ⟨b, hb, rfl⟩ := List.mem_map.mp (List.mem_eraseDups.mp h)
  cases hroute : routed config blocks (config.fileFor b) with
  | nil =>
    have hmem : b ∈ routed config blocks (config.fileFor b) := mem_routed.mpr ⟨hb, rfl⟩
    rw [hroute] at hmem
    cases hmem
  | cons first rest => exact ⟨_, rfl, rfl, rfl⟩

theorem names_collect (config : Config) (blocks : List Block) :
    (collect config blocks).map OutputFile.name = (blocks.map config.fileFor).eraseDups := by
  rw [collect_eq, List.map_filterMap]
  refine (List.filterMap_congr fun name hname => ?_).trans List.filterMap_some
  obtain ⟨file, hfile, -, hsome⟩ := exists_of_mem_names hname
  rw [hsome, Option.map_some, hfile]

theorem blocks_collect {file : OutputFile} (h : file ∈ collect config blocks) :
    file.blocks = routed config blocks file.name := by
  rw [collect_eq, List.mem_filterMap] at h
  obtain ⟨name, hname, hsome⟩ := h
  obtain ⟨other, rfl, hblocks, hother⟩ := exists_of_mem_names hname
  rw [hother] at hsome
  cases hsome
  exact hblocks

theorem mem_sort {files : List OutputFile} {file : OutputFile} :
    file ∈ sort files ↔ ∃ f ∈ files,
      { f with blocks := f.blocks.mergeSort fun a b => a.sortKey.le b.sortKey } = file := by
  rw [sort, List.mem_mergeSort, List.mem_map]

theorem names_sort (files : List OutputFile) :
    ((sort files).map OutputFile.name).Perm (files.map OutputFile.name) := by
  refine ((List.mergeSort_perm _ _).map _).trans ?_
  rw [List.map_map]
  exact .refl _

/-- Files that come in order, each with its blocks in order, are left as they are. -/
theorem sort_of_sorted {files : List OutputFile}
    (hnames : files.Pairwise fun a b => a.name.le b.name)
    (hblocks : ∀ file ∈ files, file.blocks.Pairwise fun a b => a.sortKey.le b.sortKey) :
    sort files = files := by
  have hsame : (files.map fun f =>
      { f with blocks := f.blocks.mergeSort fun a b => a.sortKey.le b.sortKey }) = files := by
    refine (List.map_congr_left fun f hf => ?_).trans (List.map_id files)
    rw [List.mergeSort_of_pairwise (hblocks f hf)]
    rfl
  rw [sort, hsame, List.mergeSort_of_pairwise hnames]

/-- Blocks that can be grouped are grouped as they are collected when that is in order. -/
theorem ofBlocks_of_sorted (hnone : findDuplicate? [] blocks = none)
    (hnames : (collect config blocks).Pairwise fun a b => a.name.le b.name)
    (hblocks : ∀ file ∈ collect config blocks,
      file.blocks.Pairwise fun a b => a.sortKey.le b.sortKey) :
    ofBlocks config blocks = .ok (collect config blocks) := by
  rw [ofBlocks, hnone]
  exact congrArg _ (sort_of_sorted hnames hblocks)

/-- The blocks are distributed over files with distinct names, each to the file it is routed to, and
no other files are there. -/
structure Distributes (config : Config) (blocks : List Block) (files : List OutputFile) : Prop where
  distinct : (files.map OutputFile.name).Nodup
  names : ∀ name, name ∈ files.map OutputFile.name ↔ name ∈ blocks.map config.fileFor
  routed : ∀ file ∈ files, ∀ b, b ∈ file.blocks ↔ b ∈ blocks ∧ config.fileFor b = file.name

theorem distributes_sort (config : Config) (blocks : List Block) :
    Distributes config blocks (sort (collect config blocks)) := by
  refine ⟨?_, fun name => ?_, fun file hfile b => ?_⟩
  · rw [(names_sort _).nodup_iff, names_collect]
    exact nodup_eraseDups _
  · rw [(names_sort _).mem_iff, names_collect, List.mem_eraseDups]
  · obtain ⟨f, hf, rfl⟩ := mem_sort.mp hfile
    rw [List.mem_mergeSort, blocks_collect hf, mem_routed]

theorem eq_of_ofBlocks {files : List OutputFile} (h : ofBlocks config blocks = .ok files) :
    files = sort (collect config blocks) := by
  unfold ofBlocks at h
  split at h
  · cases h
  · exact (Except.ok.inj h).symm

/-- The output files of a run distribute its blocks. -/
theorem distributes_of_ofBlocks {files : List OutputFile} (h : ofBlocks config blocks = .ok files) :
    Distributes config blocks files := by
  rw [eq_of_ofBlocks h]
  exact distributes_sort config blocks

theorem ne_nil_of_ofBlocks {files : List OutputFile} (h : ofBlocks config blocks = .ok files)
    (hne : files ≠ []) : blocks ≠ [] := by
  obtain ⟨file, hfile⟩ := List.exists_mem_of_ne_nil _ hne
  obtain ⟨b, hb, -⟩ := List.mem_map.mp
    (((distributes_of_ofBlocks h).names _).mp (List.mem_map_of_mem hfile))
  exact List.ne_nil_of_mem hb

namespace Distributes

variable {files : List OutputFile}

/-- Every block is in the file it is routed to. -/
theorem exists_file (h : Distributes config blocks files) {b : Block} (hb : b ∈ blocks) :
    ∃ file ∈ files, b ∈ file.blocks := by
  obtain ⟨file, hfile, hname⟩ := List.mem_map.mp ((h.names _).mpr (List.mem_map_of_mem hb))
  exact ⟨file, hfile, (h.routed file hfile b).mpr ⟨hb, hname.symm⟩⟩

/-- A property of all names that blocks are routed to is one of the names of the files. -/
theorem forall_name (h : Distributes config blocks files) {p : Text → Prop}
    (hp : ∀ b ∈ blocks, p (config.fileFor b)) : ∀ file ∈ files, p file.name := by
  intro file hfile
  obtain ⟨b, hb, hname⟩ := List.mem_map.mp ((h.names _).mp (List.mem_map_of_mem hfile))
  rw [← hname]
  exact hp b hb

end Distributes

end HclTidy.Grouping
