import HclTidy.Proofs.Block.Sound
import HclTidy.Proofs.Grouping.Partition

/-!
# Groups and the order of the input

Neither the order in which blocks are read nor the files they are read from decides which output
files there are and which blocks are in each. The text of a file does not depend on them either when
its blocks with one key are written alike. Blocks of one type with the same labels are; the key joins
type and labels by underscores, and so blocks with other labels may have one key as well.
-/

set_option autoImplicit false

namespace HclTidy

namespace Block

/-- A block without the name of its file. -/
def unplaced (b : Block) : Block := { b with file := [] }

/-- Sound blocks of one type with the same labels are written alike when they have one key. -/
theorem render_eq_of_sortKey {a b : Block} (ha : a.Sound) (hb : b.Sound) (htype : a.type = b.type)
    (hlabels : a.labels = b.labels) (hkey : a.sortKey = b.sortKey) : a.render = b.render := by
  have hraw : a.rawBody = b.rawBody := congrArg SortKey.rawBody hkey
  have hcomments : a.leadingComments = b.leadingComments := congrArg SortKey.leadingComments hkey
  unfold render
  dsimp only
  rw [htype, hlabels, hraw, hcomments]
  by_cases hblank : Text.trim b.rawBody = []
  · rw [ha.empty (hraw ▸ hblank), hb.empty hblank]
  · rw [List.isEmpty_eq_false_iff.mpr hblank]
    rfl

end Block

namespace Grouping

variable {config : Config} {blocks blocks' : List Block} {files files' : List OutputFile}

theorem map_unplaced_routed (config : Config) (blocks : List Block) (name : Text) :
    (routed config blocks name).map Block.unplaced =
      routed config (blocks.map Block.unplaced) name := by
  rw [routed, routed, List.filter_map]
  rfl

theorem eq_sort_of_ofBlocks (h : ofBlocks config blocks = .ok files) :
    files = sort (collect config blocks) := by
  unfold ofBlocks at h
  split at h
  · cases h
  · exact (Except.ok.inj h).symm

theorem pairwise_names (h : ofBlocks config blocks = .ok files) :
    (files.map OutputFile.name).Pairwise (· < ·) := by
  rw [List.pairwise_map, eq_sort_of_ofBlocks h]
  exact pairwise_names_sort (by rw [names_collect]; exact nodup_eraseDups _)

/-- The files that the same blocks are grouped into have the same names. -/
theorem names_of_perm (hperm : (blocks.map Block.unplaced).Perm (blocks'.map Block.unplaced))
    (h : ofBlocks config blocks = .ok files) (h' : ofBlocks config blocks' = .ok files') :
    files.map OutputFile.name = files'.map OutputFile.name := by
  have hrouted : (blocks.map config.fileFor).Perm (blocks'.map config.fileFor) := by
    have hmap := hperm.map config.fileFor
    rw [List.map_map, List.map_map] at hmap
    exact hmap
  have hd := distributes_of_ofBlocks h
  have hd' := distributes_of_ofBlocks h'
  have hnames : (files.map OutputFile.name).Perm (files'.map OutputFile.name) :=
    (List.perm_ext_iff_of_nodup hd.distinct hd'.distinct).mpr fun name => by
      rw [hd.names, hd'.names, hrouted.mem_iff]
  exact hnames.eq_of_pairwise (fun _ _ _ _ hab hba => (lt_asymm hab hba).elim) (pairwise_names h)
    (pairwise_names h')

/-- A text is settled by the blocks of its file when those with one key are written alike. -/
theorem text_of_perm {f f' : OutputFile}
    (hsorted : f.blocks.Pairwise fun a b => a.sortKey.triple ≤ b.sortKey.triple)
    (hsorted' : f'.blocks.Pairwise fun a b => a.sortKey.triple ≤ b.sortKey.triple)
    (hperm : (f.blocks.map Block.unplaced).Perm (f'.blocks.map Block.unplaced))
    (halike : ∀ a ∈ f.blocks, ∀ b ∈ f.blocks, a.sortKey = b.sortKey → a.render = b.render) :
    f.text = f'.text := by
  let entry (b : Block) := (b.sortKey.triple, b.render)
  have hentries : (f.blocks.map entry).Perm (f'.blocks.map entry) := by
    have hmap := hperm.map entry
    rw [List.map_map, List.map_map] at hmap
    exact hmap
  have hordered : (f.blocks.map entry).Pairwise fun p q => p.1 ≤ q.1 := List.pairwise_map.mpr hsorted
  have hsame : f.blocks.map entry = f'.blocks.map entry := by
    refine hentries.eq_of_pairwise (fun p q hp hq hpq hqp => ?_) hordered
      (List.pairwise_map.mpr hsorted')
    obtain ⟨a, ha, rfl⟩ := List.mem_map.mp hp
    obtain ⟨b, hb, rfl⟩ := List.mem_map.mp (hentries.mem_iff.mpr hq)
    have hkey : a.sortKey = b.sortKey := SortKey.triple_inj.mp (le_antisymm hpq hqp)
    exact Prod.ext (le_antisymm hpq hqp) (halike a ha b hb hkey)
  have hrenders := congrArg (List.map Prod.snd) hsame
  rw [List.map_map, List.map_map] at hrenders
  exact congrArg (fun rows => Layout.format (Text.joinWith ['\n', '\n'] rows)) hrenders

/-- However the same blocks are ordered and spread over files, they are grouped into files of the
same names in the same order, each with the same blocks, and a file has the same text when its blocks
with one key are written alike. -/
theorem forall₂_of_perm (hperm : (blocks.map Block.unplaced).Perm (blocks'.map Block.unplaced))
    (h : ofBlocks config blocks = .ok files) (h' : ofBlocks config blocks' = .ok files') :
    List.Forall₂ (fun f f' => f.name = f'.name ∧
      (f.blocks.map Block.unplaced).Perm (f'.blocks.map Block.unplaced) ∧
      ((∀ a ∈ f.blocks, ∀ b ∈ f.blocks, a.sortKey = b.sortKey → a.render = b.render) →
        f.text = f'.text)) files files' := by
  have hnames : List.Forall₂ (fun f f' => f.name = f'.name) files files' := by
    have hmap := names_of_perm hperm h h'
    rwa [← List.forall₂_eq_eq_eq, List.forall₂_map_left_iff, List.forall₂_map_right_iff] at hmap
  have hsort {f : OutputFile} {blocks : List Block} {files : List OutputFile}
      (h : ofBlocks config blocks = .ok files) (hf : f ∈ files) :
      f.blocks.Perm (routed config blocks f.name) ∧
        f.blocks.Pairwise fun a b => a.sortKey.triple ≤ b.sortKey.triple := by
    rw [eq_sort_of_ofBlocks h] at hf
    rw [blocks_of_mem_sort hf]
    exact ⟨List.mergeSort_perm _ _, (List.pairwise_mergeSort (trans_of_key sortKey_le_iff)
      (total_of_key sortKey_le_iff) _).imp fun h => (sortKey_le_iff _ _).mp h⟩
  have hboth := (List.forall₂_and_left _ _).mpr ⟨fun f hf => hsort h hf, hnames⟩
  have hall := (List.forall₂_and_left _ _).mpr ⟨fun f' hf' => hsort h' hf', hboth.flip⟩
  refine hall.flip.imp fun f f' ⟨⟨hblocks', hsorted'⟩, ⟨hblocks, hsorted⟩, hname⟩ => ?_
  have hsame : (f.blocks.map Block.unplaced).Perm (f'.blocks.map Block.unplaced) := by
    refine (hblocks.map _).trans (.trans ?_ (hblocks'.map _).symm)
    rw [map_unplaced_routed, map_unplaced_routed, hname]
    exact hperm.filter _
  exact ⟨hname, hsame, text_of_perm hsorted hsorted' hsame⟩

/-- Sound blocks are written to the same files with the same texts, however they are ordered and
spread over files, when among those of one file a key stands for one type with its labels. -/
theorem texts_of_perm (hperm : (blocks.map Block.unplaced).Perm (blocks'.map Block.unplaced))
    (h : ofBlocks config blocks = .ok files) (h' : ofBlocks config blocks' = .ok files')
    (hsound : ∀ b ∈ blocks, b.Sound)
    (hkeys : ∀ a ∈ blocks, ∀ b ∈ blocks, config.fileFor a = config.fileFor b →
      a.sortKey = b.sortKey → a.type = b.type ∧ a.labels = b.labels) :
    files.map (fun f => (f.name, f.text)) = files'.map fun f => (f.name, f.text) := by
  have hall := (List.forall₂_and_left _ _).mpr ⟨fun f hf => hf, forall₂_of_perm hperm h h'⟩
  rw [← List.forall₂_eq_eq_eq, List.forall₂_map_left_iff, List.forall₂_map_right_iff]
  refine hall.imp fun f f' ⟨hf, hname, _, htext⟩ => Prod.ext hname (htext ?_)
  intro a ha b hb hkey
  obtain ⟨ha, hfile⟩ := ((distributes_of_ofBlocks h).routed f hf a).mp ha
  obtain ⟨hb, hfile'⟩ := ((distributes_of_ofBlocks h).routed f hf b).mp hb
  obtain ⟨htype, hlabels⟩ := hkeys a ha b hb (hfile.trans hfile'.symm) hkey
  exact Block.render_eq_of_sortKey (hsound a ha) (hsound b hb) htype hlabels hkey

/-- Two blocks with one key, one with a single label and one with two. -/
def oneLabel : Block := bare "foo" ["a_b"] "a.tf"

def twoLabels : Block := bare "foo" ["a", "b"] "b.tf"

/-- Blocks without an address that are routed to one file and have one key stay in their order. -/
theorem ofBlocks_pair {a b : Block} (name : Text) (hnone : findDuplicate? [] [a, b] = none)
    (hcollect : collect .empty [a, b] = [⟨name, a.type, a.subType, [a, b]⟩])
    (hkey : a.sortKey = b.sortKey) :
    ofBlocks .empty [a, b] = .ok [⟨name, a.type, a.subType, [a, b]⟩] := by
  rw [ofBlocks, hnone, hcollect, sort_of_sorted (List.pairwise_singleton _ _)]
  refine List.forall_mem_singleton.mpr (List.pairwise_pair.mpr ?_)
  exact (sortKey_le_iff a b).mpr (le_of_eq (congrArg SortKey.triple hkey))

/-- The text of a file depends on the order of the input when blocks with one key are not written
alike. -/
theorem not_texts_of_perm : ¬∀ (config : Config) (blocks blocks' : List Block)
    (files files' : List OutputFile), blocks.Perm blocks' → ofBlocks config blocks = .ok files →
    ofBlocks config blocks' = .ok files' →
    files.map (fun f => (f.name, f.text)) = files'.map fun f => (f.name, f.text) := by
  intro h
  have hone := ofBlocks_pair (a := oneLabel) (b := twoLabels) "foo.tf".toList rfl rfl rfl
  have htwo := ofBlocks_pair (a := twoLabels) (b := oneLabel) "foo.tf".toList rfl rfl rfl
  have hsame := h _ _ _ _ _ (.swap _ _ _) hone htwo
  have hdiffer : Block.renderAll [oneLabel, twoLabels] ≠ Block.renderAll [twoLabels, oneLabel] := by
    decide +kernel
  exact hdiffer (congrArg Prod.snd (List.singleton_inj.mp hsame))

end Grouping

end HclTidy
