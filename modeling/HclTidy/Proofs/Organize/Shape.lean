import HclTidy.Proofs.Organize.Backup

/-!
# What a run keeps of the tree

Whatever becomes of a run, it leaves a well-formed tree, and every directory is there still. The links
stay as well when no source is a link and none is where a backup goes.
-/

set_option autoImplicit false

namespace HclTidy

open Run

namespace Tree

variable {faults : Faults} {tree tree' : Tree} {place : Place}

theorem hasDirectory_writeFile (h : tree.Closed) {path : Text} {mode : Nat} {content : Bytes}
    (hwrite : tree.writeFile path mode content = .ok tree') (hplace : tree.HasDirectory place) :
    tree'.HasDirectory place := by
  obtain ⟨kept, rfl, hold⟩ | ⟨rfl, -⟩ := writeFile_ok h hwrite
  · refine hasDirectory_set (fun mode hmode => ?_) hplace
    obtain ⟨old, hfile⟩ | ⟨name, parent, -, -, hnone⟩ := hold
    · rw [hfile] at hmode
      cases hmode
    · rw [hnone] at hmode
      cases hmode
  · exact hplace

theorem GainsDirectories.hasDirectory (h : GainsDirectories tree tree')
    (hplace : tree.HasDirectory place) : tree'.HasDirectory place := by
  obtain ⟨mode, hmode⟩ := hplace
  exact ⟨mode, h.kept _ _ hmode⟩

theorem not_hasDirectory_iff : ¬tree.HasDirectory place ↔
    ∀ mode, tree.get? place ≠ some (.directory mode) := not_exists

theorem hasDirectory_rename {source target : Text}
    (hmove : tree.rename faults source target = .ok tree')
    (hsource : ∀ old, tree.locate false source = .ok (.found old) → ¬tree.HasDirectory old)
    (hplace : tree.HasDirectory place) : tree'.HasDirectory place := by
  obtain ⟨old, entry, d, hlocate, -, -, ⟨rfl, -⟩ | ⟨rfl, hnot⟩⟩ := rename_ok hmove
  · exact hplace
  · refine hasDirectory_set (fun mode hmode => ?_)
      (hasDirectory_erase (not_hasDirectory_iff.mp (hsource old hlocate)) hplace)
    rw [get?_erase] at hmode
    split at hmode
    · cases hmode
    · exact hnot mode hmode

theorem sameLinks_erase (h : tree.linkAt? place = none) : SameLinks tree (tree.erase place) := by
  refine ⟨fun other => ?_, rfl⟩
  by_cases hother : other = place
  · rw [hother, h, linkAt?_of_none (get?_erase_self tree place)]
  · rw [linkAt?, linkAt?, get?_erase_of_ne tree hother]

/-- Moving what is no link to where no link is leaves the links as they are. -/
theorem sameLinks_rename {source target : Text}
    (hmove : tree.rename faults source target = .ok tree')
    (hsource : tree.linkAt? (tree.spot source) = none)
    (htarget : tree.linkAt? (tree.spot target) = none) : SameLinks tree tree' := by
  obtain ⟨old, entry, d, hlocate, hentry, hlocate', ⟨rfl, -⟩ | ⟨rfl, -⟩⟩ := rename_ok hmove
  · exact .refl _
  · have hself : LinksOnward tree tree := fun _ _ _ _ => rfl
    have hold : old = tree.spot source := spot_of_locate hself rfl hlocate
    have hnew : d.place = tree.spot target := spot_of_locate hself rfl hlocate'
    rw [← hold] at hsource
    rw [← hnew] at htarget
    have herase := sameLinks_erase hsource
    refine herase.trans (sameLinks_set ((herase.link _).trans htarget) ?_)
    cases entry with
    | link target =>
      rw [linkAt?_of_link hentry] at hsource
      cases hsource
    | _ => rfl

end Tree

/-! ## Writing -/

namespace Output

variable {directory : Text} {file : OutputFile} {files : List OutputFile} {tree tree' : Tree}

theorem Touches.wellFormed (h : Touches directory file tree tree') (hwell : tree.WellFormed) :
    tree'.WellFormed := by
  cases h with
  | unchanged => exact hwell
  | written hwrite => exact Tree.wellFormed_writeFile hwell hwrite

theorem Touches.hasDirectory (h : Touches directory file tree tree') (hclosed : tree.Closed)
    {place : Place} (hplace : tree.HasDirectory place) : tree'.HasDirectory place := by
  cases h with
  | unchanged => exact hplace
  | written hwrite => exact Tree.hasDirectory_writeFile hclosed hwrite hplace

theorem steps_wellFormed (h : Steps (Touches directory) files tree tree') (hwell : tree.WellFormed) :
    tree'.WellFormed := by
  induction h with
  | nil => exact hwell
  | cons hfile _ ih => exact ih (hfile.wellFormed hwell)

theorem steps_hasDirectory (h : Steps (Touches directory) files tree tree') (hclosed : tree.Closed)
    {place : Place} (hplace : tree.HasDirectory place) : tree'.HasDirectory place := by
  induction h with
  | nil => exact hplace
  | cons hfile _ ih => exact ih (hfile.closed hclosed) (hfile.hasDirectory hclosed hplace)

end Output

/-! ## Clearing -/

namespace Cleanup

section Clears

variable {backup : Option Text} {path : Text} {paths : List Text} {start tree tree' : Tree}

/-- A path that names no directory does not lead to one while sources are cleared. -/
theorem not_hasDirectory_of_onward (honward : Onward start tree)
    (hsource : ¬start.HasDirectory (start.spot path)) {old : Place}
    (hold : tree.locate false path = .ok (.found old)) : ¬tree.HasDirectory old := by
  have hspot : old = start.spot path := spot_of_onward honward rfl hold
  rw [hspot]
  rintro ⟨mode, hmode⟩
  exact hsource ⟨mode, honward.kept _ _ hmode (.inl rfl)⟩

theorem Clears.wellFormed (h : Clears backup path tree tree') (honward : Onward start tree)
    (hsource : ¬start.HasDirectory (start.spot path)) (hwell : tree.WellFormed) : tree'.WellFormed := by
  cases h with
  | removed hremove => exact Tree.wellFormed_removeFile hwell hremove
  | moved hmove =>
    exact Tree.wellFormed_rename hwell hmove fun _ => not_hasDirectory_of_onward honward hsource

theorem Clears.hasDirectory (h : Clears backup path tree tree') (honward : Onward start tree)
    (hsource : ¬start.HasDirectory (start.spot path)) {place : Place}
    (hplace : tree.HasDirectory place) : tree'.HasDirectory place := by
  cases h with
  | removed hremove =>
    obtain ⟨old, entry, hlocate, -, -, rfl⟩ := Tree.removeFile_ok hremove
    exact Tree.hasDirectory_erase
      (Tree.not_hasDirectory_iff.mp (not_hasDirectory_of_onward honward hsource hlocate)) hplace
  | moved hmove =>
    exact Tree.hasDirectory_rename hmove (fun _ => not_hasDirectory_of_onward honward hsource) hplace

/-- Clearing sources, none of which is a directory, keeps a tree well-formed and its directories. -/
theorem steps_keep (h : Steps (Clears backup) paths tree tree')
    (honward : paths ≠ [] → Onward start tree)
    (hleaf : paths.Pairwise fun path _ => IsLeaf start path)
    (hsource : ∀ path ∈ paths, ¬start.HasDirectory (start.spot path)) :
    (tree.WellFormed → tree'.WellFormed) ∧ ∀ place, tree.HasDirectory place → tree'.HasDirectory place := by
  induction h with
  | nil => exact ⟨id, fun _ => id⟩
  | @cons path paths tree between tree' hpath hpaths ih =>
    have hhere := honward (List.cons_ne_nil _ _)
    rw [List.forall_mem_cons] at hsource
    rw [List.pairwise_cons] at hleaf
    obtain ⟨hwell, hdirectory⟩ := ih (fun hne => by
      obtain ⟨next, rest, rfl⟩ := List.exists_cons_of_ne_nil hne
      exact hpath.onward hhere (hleaf.1 next List.mem_cons_self)) hleaf.2 hsource.2
    exact ⟨fun h => hwell (hpath.wellFormed hhere hsource.1 h),
      fun place h => hdirectory place (hpath.hasDirectory hhere hsource.1 h)⟩

theorem Clears.sameLinks (h : Clears backup path tree tree')
    (hsource : tree.linkAt? (tree.spot path) = none)
    (htarget : ∀ directory ∈ backup,
      tree.linkAt? (tree.spot (Path.join directory (Path.baseName path))) = none) :
    Tree.SameLinks tree tree' := by
  cases h with
  | removed hremove =>
    obtain ⟨old, entry, hlocate, -, -, rfl⟩ := Tree.removeFile_ok hremove
    have hold : old = tree.spot path := spot_of_onward (.refl tree) rfl hlocate
    exact Tree.sameLinks_erase (hold ▸ hsource)
  | moved hmove => exact Tree.sameLinks_rename hmove hsource (htarget _ rfl)

theorem steps_sameLinks (h : Steps (Clears backup) paths tree tree')
    (hsource : ∀ path ∈ paths, tree.linkAt? (tree.spot path) = none)
    (htarget : ∀ path ∈ paths, ∀ directory ∈ backup,
      tree.linkAt? (tree.spot (Path.join directory (Path.baseName path))) = none) :
    Tree.SameLinks tree tree' := by
  induction h with
  | nil => exact .refl _
  | cons hpath _ ih =>
    rw [List.forall_mem_cons] at hsource htarget
    have hlinks := hpath.sameLinks hsource.1 htarget.1
    refine hlinks.trans (ih (fun p hp => ?_) fun p hp directory hdirectory => ?_)
    · rw [hlinks.spot, hlinks.link]
      exact hsource.2 p hp
    · rw [hlinks.spot, hlinks.link]
      exact htarget.2 p hp directory hdirectory

end Clears

end Cleanup

/-! ## Whole runs -/

namespace Request

variable {request : Request} {tree tree' : Tree}

/-- The path of a source names an entry that is no directory. -/
theorem entry_of_mem_sources {source : ParsedFile} (hsource : source ∈ request.sources tree) :
    ∃ entry, tree.get? (tree.spot source.name) = some entry ∧ entry.isDirectory = false := by
  obtain ⟨entry, hentry⟩ := exists_of_mem_sources hsource
  cases hlink : tree.linkAt? (tree.spot source.name) with
  | some target => exact ⟨_, Tree.get?_of_linkAt? hlink, rfl⟩
  | none =>
    obtain ⟨leaf, hleaf, hkind, -⟩ := hasLeaf_of_readFrom (readFrom_of_mem_sources hsource) hlink
    exact ⟨leaf, hleaf, hkind⟩

/-- Where an entry is that is no directory, there is none when files have been written. -/
theorem not_hasDirectory_of_touches {outputDirectory : Text} {touched : List OutputFile}
    {start between start' : Tree} (hclosed : tree.Closed) (hgains : Tree.GainsDirectories tree start)
    (htouched : Steps (Output.Touches outputDirectory) touched start between)
    (hgains' : Tree.GainsDirectories between start') {place : Place} {entry : Entry}
    (hentry : tree.get? place = some entry) (hkind : entry.isDirectory = false) :
    ¬start'.HasDirectory place := by
  rintro ⟨mode, hmode⟩
  have hlinks := (Output.sameLinks_of_touches hgains htouched hclosed).trans hgains'.sameLinks
  cases hlink : tree.linkAt? place with
  | some target =>
    have hstart := (hlinks.link place).trans hlink
    rw [Tree.linkAt?_of_not_link hmode rfl] at hstart
    cases hstart
  | none =>
    have hleaf : tree.HasLeaf place := by
      refine ⟨entry, hentry, hkind, ?_⟩
      cases entry with
      | link target =>
        rw [Tree.linkAt?_of_link hentry] at hlink
        cases hlink
      | _ => rfl
    obtain ⟨other, hother, hnot, -⟩ :=
      (Output.hasLeaf_of_touches hgains htouched hclosed place hleaf).gains hgains'
    rw [hmode] at hother
    cases hother
    cases hnot

theorem Finishes.keeps {outputDirectory : Text} {paths : List Text} {files : List OutputFile}
    {r : Except Failure Report} (h : Finishes request outputDirectory paths files r tree tree')
    (hwell : tree.WellFormed) (hpaths : tree.AreSources paths)
    (hentries : ∀ path ∈ paths, ∃ entry, tree.get? (tree.spot path) = some entry ∧
      entry.isDirectory = false) :
    tree'.WellFormed ∧ ∀ place, tree.HasDirectory place → tree'.HasDirectory place := by
  have hwritten {touched : List OutputFile} {start between : Tree}
      (hgains : Tree.GainsDirectories tree start)
      (htouched : Steps (Output.Touches outputDirectory) touched start between) :
      between.WellFormed ∧ ∀ place, tree.HasDirectory place → between.HasDirectory place :=
    ⟨Output.steps_wellFormed htouched (hgains.wellFormed hwell), fun _ hplace =>
      Output.steps_hasDirectory htouched (hgains.closed hwell.closed) (hgains.hasDirectory hplace)⟩
  cases h with
  | unchanged => exact ⟨hwell, fun _ => id⟩
  | unopened hgains => exact hwritten hgains .nil
  | interrupted hgains _ hdone hinterrupts =>
    obtain ⟨_, -, htouched⟩ := hinterrupts.touches hdone
    exact hwritten hgains htouched
  | settled _ hgains hdone hstale hgains' hfront _ hcleared =>
    have htouched := Output.steps_touches hdone
    have hsublist := hfront.sublist.trans (hstale ▸ List.filter_sublist)
    have hlinks := Output.sameLinks_of_touches hgains htouched hwell.closed
    have hleaf := Cleanup.pairwise_isLeaf hgains' hlinks (hpaths.sublist hsublist)
      (Output.hasLeaf_of_touches hgains htouched hwell.closed)
    obtain ⟨hbetween, hkept⟩ := hwritten hgains htouched
    obtain ⟨hafter, hkept'⟩ :=
      Cleanup.steps_keep hcleared (fun _ => .refl _) hleaf fun path hpath => by
        obtain ⟨entry, hentry, hkind⟩ := hentries path (hsublist.subset hpath)
        rw [(hlinks.trans hgains'.sameLinks).spot]
        exact not_hasDirectory_of_touches hwell.closed hgains htouched hgains' hentry hkind
    exact ⟨hafter (hgains'.wellFormed hbetween), fun place hplace =>
      hkept' place (hgains'.hasDirectory (hkept place hplace))⟩

/-- Every run leaves a well-formed tree and every directory where it was, whether it succeeds or
fails. -/
theorem execute_keeps_shape {session session' : Session} {r : Except Failure Report}
    (hwell : session.tree.WellFormed) (hrun : request.execute.result session = (r, session')) :
    session'.tree.WellFormed ∧
      ∀ place, session.tree.HasDirectory place → session'.tree.HasDirectory place := by
  obtain ⟨htree, -⟩ | ⟨_, -, -, hfinishes⟩ := execute_cases hrun
  · rw [htree]
    exact ⟨hwell, fun _ => id⟩
  · refine hfinishes.keeps hwell (areSources hwell) fun path hpath => ?_
    obtain ⟨source, hsource, rfl⟩ := List.mem_map.mp hpath
    exact entry_of_mem_sources hsource

end Request

end HclTidy
