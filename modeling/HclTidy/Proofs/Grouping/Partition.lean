import HclTidy.Proofs.Grouping

/-!
# Groups as a sorted partition

Every block of the input is in exactly one output file, the one it is routed to. Files come in the
order of their names, blocks in a file in the order of their keys, and blocks with one key in the
order of the input.
-/

set_option autoImplicit false

namespace HclTidy

/-! ## Orders -/

theorem Text.le_iff {a b : Text} : a.le b = true ↔ a ≤ b := by
  rw [Text.le, Bool.not_eq_true', decide_eq_false_iff_not, not_lt]

namespace SortKey

/-- The key as a triple, in the lexicographic order of its parts. -/
def triple (k : SortKey) : Text ×ₗ Text ×ₗ Text :=
  toLex (k.name, toLex (k.rawBody, k.leadingComments))

theorem triple_inj {a b : SortKey} : a.triple = b.triple ↔ a = b := by
  rw [triple, triple, toLex_inj, Prod.mk.injEq, toLex_inj, Prod.mk.injEq, mk.injEq]

theorem le_iff {a b : SortKey} : a.le b = true ↔ a.triple ≤ b.triple := by
  rw [triple, triple, Prod.Lex.toLex_le_toLex, Prod.Lex.toLex_le_toLex, le]
  dsimp only
  split
  · next hname =>
    rw [hname]
    split
    · next hbody => simp [hbody, Text.le_iff]
    · next hbody => simp [hbody, Text.le_iff, le_iff_lt_or_eq]
  · next hname => simp [hname, Text.le_iff, le_iff_lt_or_eq]

end SortKey

namespace Grouping

section Keys

variable {α β : Type} [LinearOrder β] {le : α → α → Bool} {key : α → β}

theorem trans_of_key (h : ∀ a b, le a b = true ↔ key a ≤ key b) (a b c : α) (hab : le a b = true)
    (hbc : le b c = true) : le a c = true :=
  (h a c).mpr (((h a b).mp hab).trans ((h b c).mp hbc))

theorem total_of_key (h : ∀ a b, le a b = true ↔ key a ≤ key b) (a b : α) :
    (le a b || le b a) = true := by
  rw [Bool.or_eq_true, h, h]
  exact le_total _ _

end Keys

theorem name_le_iff (a b : OutputFile) : a.name.le b.name = true ↔ a.name ≤ b.name := Text.le_iff

theorem sortKey_le_iff (a b : Block) : a.sortKey.le b.sortKey = true ↔
    a.sortKey.triple ≤ b.sortKey.triple := SortKey.le_iff

/-! ## Parting a list -/

/-- A list is parted by different keys: the elements with the first, those with the second, and so
on. -/
theorem perm_flatMap_filter {α β : Type} [DecidableEq β] (f : α → β) {l : List α} {keys : List β}
    (hkeys : keys.Nodup) (hall : ∀ a ∈ l, f a ∈ keys) :
    (keys.flatMap fun key => l.filter fun a => f a = key).Perm l := by
  induction keys generalizing l with
  | nil =>
    rw [List.eq_nil_iff_forall_not_mem.mpr fun a ha => List.not_mem_nil (hall a ha)]
    exact .refl _
  | cons key keys ih =>
    obtain ⟨hkey, hkeys⟩ := List.nodup_cons.mp hkeys
    have hothers : ∀ a ∈ l.filter fun a => !decide (f a = key), f a ∈ keys := by
      intro a ha
      obtain ⟨ha, hne⟩ := List.mem_filter.mp ha
      refine (List.mem_cons.mp (hall a ha)).resolve_left fun heq => ?_
      rw [heq, decide_eq_true rfl] at hne
      cases hne
    have hsame : (keys.flatMap fun key => l.filter fun a => f a = key) = keys.flatMap fun other =>
        (l.filter fun a => !decide (f a = key)).filter fun a => f a = other := by
      refine List.flatMap_congr fun other hother => ?_
      rw [List.filter_filter]
      refine List.filter_congr fun a _ => ?_
      by_cases ha : f a = other
      · have hne : other ≠ key := fun heq => hkey (heq ▸ hother)
        simp [ha, hne]
      · simp [ha]
    rw [List.flatMap_cons, hsame]
    exact ((ih hkeys hothers).append_left _).trans (List.filter_append_perm _ _)

/-- A stable sort keeps the elements with one key in their order. -/
theorem filter_mergeSort {α β : Type} {le : α → α → Bool}
    {key : α → β} [LinearOrder β] (h : ∀ a b, le a b = true ↔ key a ≤ key b) (l : List α) (k : β) :
    (l.mergeSort le).filter (fun a => key a = k) = l.filter fun a => key a = k := by
  have hsorted : (l.filter fun a => key a = k).Pairwise fun a b => le a b = true := by
    refine List.pairwise_of_forall_mem_list fun a ha b hb => (h a b).mpr (le_of_eq ?_)
    rw [of_decide_eq_true (List.mem_filter.mp ha).2, of_decide_eq_true (List.mem_filter.mp hb).2]
  have hsublist := (List.sublist_mergeSort (trans_of_key h) (total_of_key h) hsorted
    List.filter_sublist).filter fun a => key a = k
  rw [List.filter_filter] at hsublist
  simp only [Bool.and_self] at hsublist
  have hlength := ((List.mergeSort_perm l le).filter fun a => key a = k).length_eq
  exact (hsublist.eq_of_length hlength.symm).symm

/-! ## The output files -/

section Files

variable {config : Config} {blocks : List Block}

/-- The blocks of the collected files are those that are routed to the names of the files. -/
theorem flatMap_collect (config : Config) (blocks : List Block) :
    (collect config blocks).flatMap OutputFile.blocks =
      (blocks.map config.fileFor).eraseDups.flatMap (routed config blocks) := by
  rw [← names_collect, List.flatMap_map]
  exact List.flatMap_congr fun file hfile => blocks_collect hfile

/-- Collecting loses no block and makes none. -/
theorem perm_collect (config : Config) (blocks : List Block) :
    ((collect config blocks).flatMap OutputFile.blocks).Perm blocks := by
  rw [flatMap_collect]
  exact perm_flatMap_filter config.fileFor (nodup_eraseDups _) fun b hb =>
    List.mem_eraseDups.mpr (List.mem_map_of_mem hb)

theorem perm_sort (files : List OutputFile) :
    ((sort files).flatMap OutputFile.blocks).Perm (files.flatMap OutputFile.blocks) := by
  refine ((List.mergeSort_perm _ _).flatMap_right _).trans ?_
  rw [List.flatMap_map]
  induction files with
  | nil => exact .refl _
  | cons file files ih => exact (List.mergeSort_perm _ _).append ih

/-- Grouping loses no block and makes none. -/
theorem perm_of_ofBlocks {files : List OutputFile} (h : ofBlocks config blocks = .ok files) :
    (files.flatMap OutputFile.blocks).Perm blocks := by
  rw [eq_of_ofBlocks h]
  exact (perm_sort _).trans (perm_collect _ _)

theorem pairwise_names_sort {files : List OutputFile} (h : (files.map OutputFile.name).Nodup) :
    (sort files).Pairwise fun a b => a.name < b.name := by
  have hsorted : (sort files).Pairwise fun a b => a.name.le b.name = true :=
    List.pairwise_mergeSort (trans_of_key name_le_iff) (total_of_key name_le_iff) _
  have hdistinct : (sort files).Pairwise fun a b => a.name ≠ b.name := by
    rw [← List.pairwise_map, ← List.nodup_iff_pairwise_ne]
    exact (names_sort files).nodup_iff.mpr h
  exact hsorted.imp₂ (fun a b hle hne => lt_of_le_of_ne (Text.le_iff.mp hle) hne) hdistinct

/-- The names of the output files depend only on those that blocks are routed to. -/
theorem names_eq_of_ofBlocks {config' : Config} {blocks' : List Block} {files files' : List OutputFile}
    (h : ofBlocks config blocks = .ok files) (h' : ofBlocks config' blocks' = .ok files')
    (hsame : (blocks'.map config'.fileFor).Perm (blocks.map config.fileFor)) :
    files'.map OutputFile.name = files.map OutputFile.name := by
  have hsorted {config : Config} {blocks : List Block} {files : List OutputFile}
      (h : ofBlocks config blocks = .ok files) : (files.map OutputFile.name).Pairwise (· < ·) := by
    rw [eq_of_ofBlocks h, List.pairwise_map]
    exact pairwise_names_sort (by rw [names_collect]; exact nodup_eraseDups _)
  have hdistributes := distributes_of_ofBlocks h
  have hdistributes' := distributes_of_ofBlocks h'
  refine List.Perm.eq_of_pairwise' (hsorted h') (hsorted h)
    ((List.perm_ext_iff_of_nodup hdistributes'.distinct hdistributes.distinct).mpr fun name => ?_)
  rw [hdistributes'.names, hdistributes.names, hsame.mem_iff]

/-- A file of sorted output files has the blocks routed to it, in the order of their keys. -/
theorem blocks_of_mem_sort {file : OutputFile} (h : file ∈ sort (collect config blocks)) :
    file.blocks = (routed config blocks file.name).mergeSort fun a b => a.sortKey.le b.sortKey := by
  obtain ⟨f, hf, rfl⟩ := mem_sort.mp h
  rw [blocks_collect hf]

/-- When blocks can be grouped, every block is in one file, the one that it is routed to. The files
are not empty and come in the order of their different names; the blocks of a file come in the order
of their keys, and those with one key in the order of the input. -/
theorem sortedPartition {sources : List ParsedFile} {files : List OutputFile}
    (h : ofBlocks config (sources.flatMap ParsedFile.blocks) = .ok files) :
    (files.flatMap OutputFile.blocks).Perm (sources.flatMap ParsedFile.blocks) ∧
      (∀ b ∈ sources.flatMap ParsedFile.blocks, ∃ file ∈ files,
        file.name = config.fileFor b ∧ b ∈ file.blocks) ∧
      (∀ file ∈ files, ∀ b ∈ file.blocks, config.fileFor b = file.name) ∧
      files.Pairwise (fun a b => a.name < b.name) ∧ (files.map OutputFile.name).Nodup ∧
      ∀ file ∈ files, file.blocks ≠ [] ∧
        file.blocks.Pairwise (fun a b => a.sortKey.triple ≤ b.sortKey.triple) ∧
        ∀ key, file.blocks.filter (fun b => b.sortKey = key) =
          (sources.flatMap ParsedFile.blocks).filter fun b =>
            config.fileFor b = file.name ∧ b.sortKey = key := by
  unfold ofBlocks at h
  split at h
  · cases h
  · have hdistributes := distributes_sort config (sources.flatMap ParsedFile.blocks)
    cases h
    refine ⟨(perm_sort _).trans (perm_collect _ _), fun b hb => ?_, fun file hfile b hb => ?_, ?_,
      hdistributes.distinct, fun file hfile => ⟨?_, ?_, fun key => ?_⟩⟩
    · obtain ⟨file, hfile, hb'⟩ := hdistributes.exists_file hb
      exact ⟨file, hfile, ((hdistributes.routed file hfile b).mp hb').2.symm, hb'⟩
    · exact ((hdistributes.routed file hfile b).mp hb).2
    · exact pairwise_names_sort (by rw [names_collect]; exact nodup_eraseDups _)
    · obtain ⟨b, hb, hname⟩ := List.mem_map.mp
        ((hdistributes.names _).mp (List.mem_map_of_mem hfile))
      exact List.ne_nil_of_mem ((hdistributes.routed file hfile b).mpr ⟨hb, hname⟩)
    · rw [blocks_of_mem_sort hfile]
      exact (List.pairwise_mergeSort (trans_of_key sortKey_le_iff) (total_of_key sortKey_le_iff)
        _).imp fun h => (sortKey_le_iff _ _).mp h
    · have hkept := filter_mergeSort sortKey_le_iff
        (routed config (sources.flatMap ParsedFile.blocks) file.name) key.triple
      simp only [SortKey.triple_inj] at hkept
      rw [blocks_of_mem_sort hfile, hkept, routed, List.filter_filter]
      exact List.filter_congr fun b _ => by rw [Bool.decide_and, Bool.and_comm]

end Files

/-- A block without a body, from a file. -/
def bare (type : String) (labels : List String) (file : String) : Block :=
  ⟨type.toList, labels.map String.toList, .empty, [], [], file.toList⟩

/-- Two files whose blocks come in the order neither of their files nor of their keys. -/
def unordered : List ParsedFile :=
  [⟨"a.tf".toList, [bare "variable" ["x"] "a.tf", bare "locals" [] "a.tf"]⟩,
    ⟨"b.tf".toList, [bare "locals" [] "b.tf", bare "variable" ["a"] "b.tf"]⟩]

def ordered : List OutputFile :=
  [⟨"locals.tf".toList, "locals".toList, [], [bare "locals" [] "a.tf", bare "locals" [] "b.tf"]⟩,
    ⟨"variables.tf".toList, "variable".toList, "x".toList,
      [bare "variable" ["a"] "b.tf", bare "variable" ["x"] "a.tf"]⟩]

theorem mergeSort_pair {α : Type} (le : α → α → Bool) (a b : α) :
    [a, b].mergeSort le = if le a b then [a, b] else [b, a] := by
  simp [List.mergeSort, List.MergeSort.Internal.splitInTwo, List.merge]

theorem ofBlocks_unordered :
    ofBlocks .empty (unordered.flatMap ParsedFile.blocks) = .ok ordered := by
  have hcollect : collect .empty (unordered.flatMap ParsedFile.blocks) =
      [⟨"variables.tf".toList, "variable".toList, "x".toList,
          [bare "variable" ["x"] "a.tf", bare "variable" ["a"] "b.tf"]⟩,
        ⟨"locals.tf".toList, "locals".toList, [],
          [bare "locals" [] "a.tf", bare "locals" [] "b.tf"]⟩] := rfl
  have hnone : findDuplicate? [] (unordered.flatMap ParsedFile.blocks) = none := rfl
  rw [ofBlocks, hnone, hcollect, sort, List.map_cons, List.map_cons, List.map_nil, mergeSort_pair,
    mergeSort_pair, mergeSort_pair]
  rfl

/-- Two blocks with one key stay in the order of the input, and so the first file has the block of
the first source first. -/
theorem sortedPartition_unordered :
    ofBlocks .empty (unordered.flatMap ParsedFile.blocks) = .ok ordered ∧
      (ordered.flatMap OutputFile.blocks).Perm (unordered.flatMap ParsedFile.blocks) ∧
      ordered.Pairwise (fun a b => a.name < b.name) ∧
      ∀ file ∈ ordered, ∀ key, file.blocks.filter (fun b => b.sortKey = key) =
        (unordered.flatMap ParsedFile.blocks).filter fun b =>
          Config.empty.fileFor b = file.name ∧ b.sortKey = key := by
  obtain ⟨hperm, -, -, hnames, -, hfiles⟩ := sortedPartition ofBlocks_unordered
  exact ⟨ofBlocks_unordered, hperm, hnames, fun file hfile => (hfiles file hfile).2.2⟩

end Grouping

end HclTidy
