import HclTidy.Proofs.Organize.Stage
import HclTidy.Proofs.Tree.Paths

/-!
# What cleaning up does

A stale source is removed, or moved into the backup directory. Sources are neither directories nor
links, so that the paths of the others stand for the same entries before and afterwards; only the
places of the sources and those of their backups change.
-/

set_option autoImplicit false

namespace HclTidy.Cleanup

open Run

/-- A source is removed or, when a directory is given, moved into it under its base name. -/
inductive Clears : Option Text → Text → Tree → Tree → Prop
  | removed {faults path tree tree'} : tree.removeFile faults path = .ok tree' → Clears none path tree tree'
  | moved {faults directory path tree tree'} :
      tree.rename faults path (Path.join directory (Path.baseName path)) = .ok tree' →
      Clears (some directory) path tree tree'

/-- A source cannot be cleared: that is the failure which a run ends with, unless it breaks down. -/
def Fails (path : Text) (failure : Failure) : Prop :=
  ∃ error, failure = .ofFile (fun e => .organize (.notRemoved path e)) error ∨
    failure = .ofFile (fun e => .organize (.notBackedUp path e)) error

/-- The sources among stale ones that have been cleared when a run has ended with an outcome. It does
not tell when the run has broken down. -/
def handled {α : Type} (paths : List Text) : Except Failure α → List Text
  | .error (.organize (.notRemoved path _)) | .error (.organize (.notBackedUp path _)) =>
    paths.takeWhile (· ≠ path)
  | .error (.breakdown _) | .ok _ => paths
  | _ => []

theorem handled_error {α β : Type} (paths : List Text) (failure : Failure) :
    handled paths (.error failure : Except Failure α) =
      handled paths (.error failure : Except Failure β) := by
  cases failure with
  | organize error => cases error <;> rfl
  | _ => rfl

/-- The sources in front of one that cannot be cleared have been cleared. -/
theorem Fails.sublist_handled {α : Type} {done rest : List Text} {path : Text} {failure : Failure}
    (h : Fails path failure) (hdistinct : (done ++ path :: rest).Nodup) :
    done.Sublist (handled (done ++ path :: rest) (.error failure : Except Failure α)) := by
  have hfront : done.Sublist ((done ++ path :: rest).takeWhile (· ≠ path)) := by
    rw [show (done ++ path :: rest).takeWhile (· ≠ path) = done from
      takeWhile_key id (by rwa [List.map_id])]
  obtain ⟨error, rfl | rfl⟩ := h
  all_goals
    unfold Failure.ofFile
    split
    · exact hfront
    · exact List.sublist_append_left _ _

/-! ## The stages -/

section Stages

variable {faults : Faults} {session session' : Session} {path : Text}

theorem removeOne_cases {r : Except Failure PUnit}
    (h : (removeOne faults path).result session = (r, session')) :
    (session'.tree = session.tree ∧ ∃ failure, r = .error failure ∧ Fails path failure) ∨
      (Clears none path session.tree session'.tree ∧ r = .ok ⟨⟩) := by
  unfold removeOne at h
  rw [result_bind_of_ok (result_tree _)] at h
  cases hremove : session.tree.removeFile faults path with
  | error e =>
    rw [hremove] at h
    cases h
    exact .inl ⟨rfl, _, rfl, e, .inl rfl⟩
  | ok tree =>
    rw [hremove] at h
    cases h
    exact .inr ⟨.removed hremove, rfl⟩

theorem backUpOne_cases {directory : Text} {r : Except Failure PUnit}
    (h : (backUpOne faults directory path).result session = (r, session')) :
    (session'.tree = session.tree ∧ ∃ failure, r = .error failure ∧ Fails path failure) ∨
      (Clears (some directory) path session.tree session'.tree ∧ r = .ok ⟨⟩) := by
  unfold backUpOne at h
  rw [result_bind_of_ok (result_tree _)] at h
  cases hmove : session.tree.rename faults path (Path.join directory (Path.baseName path)) with
  | error e =>
    rw [hmove] at h
    cases h
    exact .inl ⟨rfl, _, rfl, e, .inr rfl⟩
  | ok tree =>
    rw [hmove] at h
    cases h
    exact .inr ⟨.moved hmove, rfl⟩

/-- The tree is as it was, or the directory that takes the backups has been created in it, as far as
it can be. -/
def Readies (backup : Option Text) (tree start : Tree) : Prop :=
  start = tree ∨ ∃ faults, ∃ directory ∈ backup,
    start = (tree.makeDirectories faults directory Output.directoryMode).1

theorem Readies.gains {backup : Option Text} {tree start : Tree} (h : Readies backup tree start) :
    Tree.GainsDirectories tree start := by
  obtain rfl | ⟨faults, directory, -, rfl⟩ := h
  · exact .refl _
  · exact Tree.makeDirectories_gains _ _ _ _

/-- What has been cleared are the sources, or those in front of one that cannot be cleared. -/
theorem handled_of_ends {done rest : List Text} {r : Except Failure PUnit}
    (h : r = .ok ⟨⟩ ∧ rest = [] ∨
      ∃ path rest' failure, rest = path :: rest' ∧ r = .error failure ∧ Fails path failure) :
    (r = .ok ⟨⟩ → rest = []) ∧ ((done ++ rest).Nodup → done.Sublist (handled (done ++ rest) r)) := by
  obtain ⟨rfl, rfl⟩ | ⟨path, rest', failure, rfl, rfl, hfails⟩ := h
  · exact ⟨fun _ => rfl, fun _ => List.sublist_append_left _ _⟩
  · exact ⟨fun hok => (by cases hok), hfails.sublist_handled⟩

/-- What has happened when sources have been removed, or one of them could not be. -/
theorem removeAll_cases {paths : List Text} {r : Except Failure PUnit}
    (h : (paths.forM (removeOne faults)).result session = (r, session')) :
    ∃ done rest, paths = done ++ rest ∧ Steps (Clears none) done session.tree session'.tree ∧
      (r = .ok ⟨⟩ → rest = []) ∧ (paths.Nodup → done.Sublist (handled paths r)) := by
  obtain ⟨done, rest, rfl, hdone, hends⟩ := forM_cases (fun _ _ _ _ => removeOne_cases) h
  exact ⟨done, rest, rfl, hdone, handled_of_ends hends⟩

/-- What has happened when sources have been backed up, or a stage of that has failed. -/
theorem backUp_cases {outputDirectory : Text} {paths : List Text} {r : Except Failure PUnit}
    (h : (backUp faults outputDirectory paths).result session = (r, session')) :
    ∃ start done rest, Readies (some (Path.join outputDirectory Source.backupName)) session.tree start ∧
      paths = done ++ rest ∧
      Steps (Clears (some (Path.join outputDirectory Source.backupName))) done start session'.tree ∧
        (r = .ok ⟨⟩ → rest = []) ∧ (paths.Nodup → done.Sublist (handled paths r)) := by
  have hready : Readies (some (Path.join outputDirectory Source.backupName)) session.tree _ :=
    .inr ⟨faults, _, rfl, rfl⟩
  unfold backUp at h
  rw [result_bind_of_ok (result_tree _)] at h
  split at h
  · next tree error heq =>
    rw [heq] at hready
    cases h
    exact ⟨tree, [], paths, hready, rfl, .nil, fun hok => (by cases hok), fun _ => List.nil_sublist _⟩
  · next tree heq =>
    rw [heq] at hready
    rw [result_bind_of_ok (result_setTree _ _)] at h
    obtain ⟨done, rest, rfl, hdone, hends⟩ := forM_cases (fun _ _ _ _ => backUpOne_cases) h
    exact ⟨tree, done, rest, hready, rfl, hdone, handled_of_ends hends⟩

end Stages

/-! ## What is where afterwards -/

/-- Every directory and every link of the second tree is there in the first one. -/
structure Onward (tree tree' : Tree) : Prop where
  current : tree'.current = tree.current
  kept : ∀ place entry, tree'.get? place = some entry →
    entry.isDirectory = true ∨ entry.isLink = true → tree.get? place = some entry

theorem Onward.refl (tree : Tree) : Onward tree tree := ⟨rfl, fun _ _ h _ => h⟩

theorem Onward.linksOnward {tree tree' : Tree} (h : Onward tree tree') : Tree.LinksOnward tree tree' := by
  intro place entry hentry honward
  rw [Tree.linkAt?, Tree.linkAt?, hentry, h.kept place entry hentry honward]

/-- A path names neither a directory nor a link. -/
def IsLeaf (tree : Tree) (path : Text) : Prop :=
  ∀ entry, tree.get? (tree.spot path) = some entry → entry.isDirectory = false ∧ entry.isLink = false

section Clears

variable {start tree tree' : Tree} {backup : Option Text} {path : Text}

theorem spot_of_onward (h : Onward start tree) {follow : Bool} (hfollow : follow = false)
    {d : Destination} (hd : tree.locate follow path = .ok d) : d.place = start.spot path := by
  subst hfollow
  exact Tree.spot_of_locate h.linksOnward h.current hd

/-- Clearing a source changes only its place and the place of its backup. -/
theorem Clears.get?_of_ne (h : Clears backup path tree tree') (honward : Onward start tree)
    (hname : IsName (Path.baseName path)) {place : Place} (hsource : place ≠ start.spot path)
    (htarget : ∀ directory ∈ backup, place ≠ Path.baseName path :: start.physical directory) :
    tree'.get? place = tree.get? place := by
  cases h with
  | removed h =>
    obtain ⟨old, entry, hlocate, -, -, rfl⟩ := Tree.removeFile_ok h
    have hold : old = start.spot path := spot_of_onward honward rfl hlocate
    exact Tree.get?_erase_of_ne tree (hold ▸ hsource)
  | @moved _ directory _ _ _ h =>
    obtain ⟨old, entry, d, hlocate, -, htargetOf, ⟨rfl, -⟩ | ⟨rfl, -⟩⟩ := Tree.rename_ok h
    · rfl
    · have hold : old = start.spot path := spot_of_onward honward rfl hlocate
      have hnew : d.place = _ := spot_of_onward honward rfl htargetOf
      rw [Tree.spot_join start directory hname] at hnew
      rw [hnew, Tree.get?_set_of_ne _ _ (htarget directory rfl),
        Tree.get?_erase_of_ne tree (hold ▸ hsource)]

theorem Clears.onward (h : Clears backup path tree tree') (honward : Onward start tree)
    (hleaf : IsLeaf start path) : Onward start tree' := by
  cases h with
  | removed h =>
    obtain ⟨old, entry, hlocate, -, -, rfl⟩ := Tree.removeFile_ok h
    refine ⟨honward.current, fun place other hother => ?_⟩
    rw [Tree.get?_erase] at hother
    split at hother
    · cases hother
    · exact honward.kept place other hother
  | moved h =>
    obtain ⟨old, entry, d, hlocate, hentry, htarget, ⟨rfl, -⟩ | ⟨rfl, -⟩⟩ := Tree.rename_ok h
    · exact honward
    · have hold : old = start.spot path := spot_of_onward honward rfl hlocate
      refine ⟨honward.current, fun place other hother hkind => ?_⟩
      rw [Tree.get?_set] at hother
      split at hother
      · cases hother
        -- The entry that has been moved is the one that the path names: no directory and no link.
        have hstart := hleaf entry (hold ▸ honward.kept old entry hentry hkind)
        rw [hstart.1, hstart.2] at hkind
        cases hkind <;> contradiction
      · rw [Tree.get?_erase] at hother
        split at hother
        · cases hother
        · exact honward.kept place other hother hkind

/-- Clearing sources changes only their places and those of their backups. A source that is a link
may be the last one. -/
theorem steps_get?_of_ne {paths : List Text} (h : Steps (Clears backup) paths tree tree')
    (honward : Onward start tree) (hname : ∀ path ∈ paths, IsName (Path.baseName path))
    (hleaf : paths.Pairwise fun path _ => IsLeaf start path) {place : Place}
    (hplace : ∀ path ∈ paths, place ≠ start.spot path ∧
      ∀ directory ∈ backup, place ≠ Path.baseName path :: start.physical directory) :
    tree'.get? place = tree.get? place := by
  induction h with
  | nil => rfl
  | @cons path paths tree between tree' hpath hpaths ih =>
    have hfirst := hpath.get?_of_ne honward (hname _ List.mem_cons_self)
      (hplace _ List.mem_cons_self).1 (hplace _ List.mem_cons_self).2
    rw [← hfirst]
    cases paths with
    | nil =>
      cases hpaths
      rfl
    | cons next paths =>
      rw [List.pairwise_cons] at hleaf
      exact ih (hpath.onward honward (hleaf.1 next List.mem_cons_self))
        (fun p hp => hname p (List.mem_cons_of_mem _ hp)) hleaf.2
        fun p hp => hplace p (List.mem_cons_of_mem _ hp)

/-- A source that is cleared is gone from its place, unless its backup goes there. -/
theorem Clears.gone (h : Clears backup path tree tree') (honward : Onward start tree)
    (hname : IsName (Path.baseName path))
    (hplace : ∀ directory ∈ backup, start.spot path ≠ Path.baseName path :: start.physical directory) :
    tree'.get? (start.spot path) = none := by
  cases h with
  | removed h =>
    obtain ⟨old, entry, hlocate, -, -, rfl⟩ := Tree.removeFile_ok h
    have hold : old = start.spot path := spot_of_onward honward rfl hlocate
    rw [hold, Tree.get?_erase_self]
  | moved h =>
    obtain ⟨old, entry, d, hlocate, -, htarget, ⟨rfl, hsame⟩ | ⟨rfl, -⟩⟩ := Tree.rename_ok h
    all_goals
      have hold : old = start.spot path := spot_of_onward honward rfl hlocate
      have hnew : d.place = _ := spot_of_onward honward rfl htarget
      rw [Tree.spot_join start _ hname] at hnew
    · exact absurd (hold.symm.trans (hsame.symm.trans hnew)) (hplace _ rfl)
    · rw [hnew, Tree.get?_set_of_ne _ _ (hplace _ rfl), hold, Tree.get?_erase_self]

/-- What is where no backup goes has been there before. -/
theorem Clears.get?_of_some (h : Clears backup path tree tree') (honward : Onward start tree)
    (hname : IsName (Path.baseName path)) {place : Place} {entry : Entry}
    (hplace : ∀ directory ∈ backup, place ≠ Path.baseName path :: start.physical directory)
    (hentry : tree'.get? place = some entry) : tree.get? place = some entry := by
  by_cases hsource : place = start.spot path
  · rw [hsource, h.gone honward hname (hsource ▸ hplace)] at hentry
    cases hentry
  · rwa [h.get?_of_ne honward hname hsource hplace] at hentry

/-- Clearing sources one after the other: the tree keeps its directories and links up to each of
them. -/
theorem steps_split {before after : List Text}
    (h : Steps (Clears backup) (before ++ path :: after) tree tree') (honward : Onward start tree)
    (hleaf : (before ++ path :: after).Pairwise fun p _ => IsLeaf start p) :
    ∃ reached cleared, Steps (Clears backup) before tree reached ∧ Onward start reached ∧
      Clears backup path reached cleared ∧ Steps (Clears backup) after cleared tree' ∧
      (after ≠ [] → Onward start cleared) := by
  induction before generalizing tree with
  | nil =>
    cases h with
    | cons hpath hafter =>
      refine ⟨_, _, .nil, honward, hpath, hafter, fun hne => ?_⟩
      obtain ⟨next, rest, rfl⟩ := List.exists_cons_of_ne_nil hne
      exact hpath.onward honward ((List.pairwise_cons.mp hleaf).1 next List.mem_cons_self)
  | cons first before ih =>
    cases h with
    | cons hfirst hrest =>
      obtain ⟨hfirstLeaf, hleaf⟩ := List.pairwise_cons.mp hleaf
      have hpath : path ∈ before ++ path :: after := List.mem_append_right _ List.mem_cons_self
      obtain ⟨reached, cleared, hbefore, hreached⟩ :=
        ih hrest (hfirst.onward honward (hfirstLeaf path hpath)) hleaf
      exact ⟨reached, cleared, .cons hfirst hbefore, hreached⟩

/-- What is where no backup goes has been there before all sources were cleared. -/
theorem steps_get?_of_some {paths : List Text} (h : Steps (Clears backup) paths tree tree')
    (honward : paths ≠ [] → Onward start tree) (hname : ∀ path ∈ paths, IsName (Path.baseName path))
    (hleaf : paths.Pairwise fun path _ => IsLeaf start path) {place : Place} {entry : Entry}
    (hplace : ∀ path ∈ paths, ∀ directory ∈ backup,
      place ≠ Path.baseName path :: start.physical directory)
    (hentry : tree'.get? place = some entry) : tree.get? place = some entry := by
  induction h with
  | nil => exact hentry
  | @cons path paths tree between tree' hpath hpaths ih =>
    have hhere := honward (List.cons_ne_nil _ _)
    rw [List.forall_mem_cons] at hname hplace
    rw [List.pairwise_cons] at hleaf
    refine hpath.get?_of_some hhere hname.1 hplace.1 (ih (fun hne => ?_) hname.2 hleaf.2 hplace.2 hentry)
    obtain ⟨next, rest, rfl⟩ := List.exists_cons_of_ne_nil hne
    exact hpath.onward hhere (hleaf.1 next List.mem_cons_self)

/-- After sources have been cleared, one that no backup goes to the place of is gone. -/
theorem steps_gone {paths : List Text} (h : Steps (Clears backup) paths start tree')
    (hname : ∀ path ∈ paths, IsName (Path.baseName path))
    (hleaf : paths.Pairwise fun path _ => IsLeaf start path) (hpath : path ∈ paths)
    (hplace : ∀ p ∈ paths, ∀ directory ∈ backup,
      start.spot path ≠ Path.baseName p :: start.physical directory) :
    tree'.get? (start.spot path) = none := by
  obtain ⟨before, after, rfl⟩ := List.append_of_mem hpath
  obtain ⟨reached, cleared, -, hreached, hcleared, hafter, honward⟩ := steps_split h (.refl start) hleaf
  have hgone := hcleared.gone hreached (hname path hpath) (hplace path hpath)
  cases hsome : tree'.get? (start.spot path) with
  | none => rfl
  | some other =>
    have hlater {p : Text} (hp : p ∈ after) : p ∈ before ++ path :: after :=
      List.mem_append_right _ (List.mem_cons_of_mem _ hp)
    rw [steps_get?_of_some hafter honward (fun p hp => hname p (hlater hp))
      (List.pairwise_cons.mp (List.pairwise_append.mp hleaf).2.1).2
      (fun p hp => hplace p (hlater hp)) hsome] at hgone
    cases hgone

/-! ## What clearing does not lose -/

/-- Moving a source puts its entry into the directory. -/
theorem Clears.moves {directory : Text} (h : Clears (some directory) path tree tree')
    (honward : Onward start tree) (hname : IsName (Path.baseName path)) :
    ∃ entry, tree.get? (start.spot path) = some entry ∧
      tree'.get? (Path.baseName path :: start.physical directory) = some entry := by
  cases h with
  | moved h =>
    obtain ⟨old, entry, d, hlocate, hentry, htarget, hmoved⟩ := Tree.rename_ok h
    have hold : old = start.spot path := spot_of_onward honward rfl hlocate
    have hnew : d.place = _ := spot_of_onward honward rfl htarget
    rw [Tree.spot_join start directory hname] at hnew
    rw [hnew, hold] at hmoved
    rw [hold] at hentry
    refine ⟨entry, hentry, ?_⟩
    obtain ⟨rfl, hsame⟩ | ⟨rfl, -⟩ := hmoved
    · exact hsame ▸ hentry
    · exact Tree.get?_set_self _ _ _

/-- Clearing paths, as far as it comes, does not lose what is at a place: it is not removed, nothing
else is moved there and, when it is moved itself, nothing that comes later is moved to where it is
then. -/
structure Spares (backup : Option Text) (tree : Tree) (paths : List Text) (place : Place) : Prop where
  removed : backup = none → ∀ path ∈ paths, tree.spot path ≠ place
  target : ∀ directory ∈ backup, ∀ path ∈ paths,
    Path.baseName path :: tree.physical directory = place → tree.spot path = place
  later : backup ≠ none → paths.Pairwise fun path later =>
    tree.spot path = place → Path.baseName later ≠ Path.baseName path

theorem Spares.sublist {paths paths' : List Text} {place : Place}
    (h : Spares backup tree paths place) (hsublist : paths'.Sublist paths) :
    Spares backup tree paths' place :=
  ⟨fun hnone path hpath => h.removed hnone path (hsublist.subset hpath),
    fun directory hdirectory path hpath => h.target directory hdirectory path (hsublist.subset hpath),
    fun hsome => (h.later hsome).sublist hsublist⟩

/-- What clearing does not lose is in the tree afterwards. -/
theorem steps_spares {paths : List Text} (h : Steps (Clears backup) paths tree tree')
    (honward : paths ≠ [] → Onward start tree) (hname : ∀ path ∈ paths, IsName (Path.baseName path))
    (hleaf : paths.Pairwise fun path _ => IsLeaf start path) {place : Place} {entry : Entry}
    (hspares : Spares backup start paths place) (hentry : tree.get? place = some entry) :
    ∃ reached, tree'.get? reached = some entry := by
  induction h with
  | nil => exact ⟨place, hentry⟩
  | @cons path paths tree between tree' hpath hpaths ih =>
    have hhere := honward (List.cons_ne_nil _ _)
    rw [List.forall_mem_cons] at hname
    rw [List.pairwise_cons] at hleaf
    have hnext (hne : paths ≠ []) : Onward start between := by
      obtain ⟨next, rest, rfl⟩ := List.exists_cons_of_ne_nil hne
      exact hpath.onward hhere (hleaf.1 next List.mem_cons_self)
    by_cases hsource : start.spot path = place
    · -- It is moved, and stays where it is then: no later source has the same base name.
      obtain ⟨directory, rfl⟩ := Option.ne_none_iff_exists'.mp fun hnone =>
        hspares.removed hnone path List.mem_cons_self hsource
      obtain ⟨moved, hmoved, hkept⟩ := hpath.moves hhere hname.1
      rw [hsource, hentry] at hmoved
      cases hmoved
      refine ⟨Path.baseName path :: start.physical directory, ?_⟩
      by_cases hne : paths = []
      · rw [hne] at hpaths
        cases hpaths
        exact hkept
      · rw [steps_get?_of_ne hpaths (hnext hne) hname.2 hleaf.2 fun later hlater => ?_, hkept]
        have hother := (List.pairwise_cons.mp (hspares.later (Option.some_ne_none _))).1 later hlater hsource
        rw [Tree.spot_eq_cons start (hname.2 later hlater)]
        exact ⟨fun heq => hother (List.cons.inj heq).1.symm,
          fun _ _ heq => hother (List.cons.inj heq).1.symm⟩
    · refine ih hnext hname.2 hleaf.2 (hspares.sublist (List.sublist_cons_self _ _)) ?_
      rw [hpath.get?_of_ne hhere hname.1 (Ne.symm hsource) fun directory hdirectory heq => ?_, hentry]
      exact hsource (hspares.target directory hdirectory path List.mem_cons_self heq.symm)

/-! ## Backups -/

section Backups

variable {directory : Text}

/-- After sources have been moved, what one was that no earlier one has been moved over is in the
directory, unless a later source has the same base name. -/
theorem steps_moved {before after : List Text}
    (h : Steps (Clears (some directory)) (before ++ path :: after) start tree')
    (hname : ∀ p ∈ before ++ path :: after, IsName (Path.baseName p))
    (hleaf : (before ++ path :: after).Pairwise fun p _ => IsLeaf start p)
    (hplace : ∀ p ∈ before, start.spot path ≠ Path.baseName p :: start.physical directory)
    (hlast : ∀ later ∈ after, Path.baseName later ≠ Path.baseName path) :
    ∃ entry, start.get? (start.spot path) = some entry ∧
      tree'.get? (Path.baseName path :: start.physical directory) = some entry := by
  have hpath : path ∈ before ++ path :: after := List.mem_append_right _ List.mem_cons_self
  obtain ⟨reached, cleared, hbefore, hreached, hcleared, hafter, honward⟩ :=
    steps_split h (.refl start) hleaf
  obtain ⟨entry, hentry, hmoved⟩ := hcleared.moves hreached (hname path hpath)
  refine ⟨entry, ?_, ?_⟩
  · refine steps_get?_of_some hbefore (fun _ => .refl start)
      (fun p hp => hname p (List.mem_append_left _ hp)) (List.pairwise_append.mp hleaf).1
      (fun p hp d hd => ?_) hentry
    obtain rfl := Option.mem_some.mp hd
    exact hplace p hp
  · by_cases hne : after = []
    · rw [hne] at hafter
      cases hafter
      exact hmoved
    · have hlater {p : Text} (hp : p ∈ after) : p ∈ before ++ path :: after :=
        List.mem_append_right _ (List.mem_cons_of_mem _ hp)
      rw [steps_get?_of_ne hafter (honward hne) (fun p hp => hname p (hlater hp))
        (List.pairwise_cons.mp (List.pairwise_append.mp hleaf).2.1).2 fun p hp => ?_, hmoved]
      have hbase := hlast p hp
      rw [Tree.spot_eq_cons start (hname p (hlater hp))]
      exact ⟨fun heq => hbase (List.cons.inj heq).1.symm,
        fun d _ heq => hbase (List.cons.inj heq).1.symm⟩

end Backups

end Clears

end HclTidy.Cleanup
