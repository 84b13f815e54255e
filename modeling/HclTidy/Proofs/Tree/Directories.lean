import HclTidy.Proofs.Tree.Reach

/-!
# Creating directories that are there

Creating a directory that is there leaves the tree as it is, however its path is spelled. Creating
one in a directory that is there sets an entry of that name, or nothing.
-/

set_option autoImplicit false

namespace HclTidy.Tree

variable {tree : Tree} {path head : Text}

/-! ## The directory part of a path -/

/-- The directory part of a path is what stands before the last name, but for slashes at the end. -/
theorem dirName_append (path : Text) :
    ∃ slashes, (∀ c ∈ slashes, c = '/') ∧ Path.dirName path ++ slashes = front path := by
  have hdirName : Path.dirName path =
      if (front path).all (· = '/') then front path
      else ((front path).reverse.dropWhile (· = '/')).reverse := rfl
  rw [hdirName]
  split
  · exact ⟨[], List.forall_mem_nil _, List.append_nil _⟩
  · refine ⟨((front path).reverse.takeWhile (· = '/')).reverse, fun c hc => ?_, ?_⟩
    · simpa using List.mem_takeWhile_imp (List.mem_reverse.mp hc)
    · rw [← List.reverse_append, List.takeWhile_append_dropWhile, List.reverse_reverse]

theorem names_dirName (path : Text) : names (Path.dirName path) = names (front path) := by
  obtain ⟨slashes, hslashes, hfront⟩ := dirName_append path
  rw [← hfront, names_append_slashes _ hslashes]

theorem dirName_begins (path : Text) : Path.dirName path <+: path := by
  obtain ⟨slashes, -, hfront⟩ := dirName_append path
  refine ⟨slashes ++ Path.baseName path, ?_⟩
  rw [← List.append_assoc, hfront, front_append_baseName]

theorem names_eq_append_baseName (h : Path.baseName path ≠ []) :
    names path = names (Path.dirName path) ++ [Path.baseName path] := by
  rw [names_dirName, ← names_append (front_end path) h (Path.no_slash_baseName path),
    front_append_baseName]

/-- A path that has a last name is its front part and that name. -/
theorem splitLast_spec (h : (splitLast path).2 ≠ []) :
    '/' ∉ (splitLast path).2 ∧ (splitLast path).1 <+: path ∧
      names path = names (splitLast path).1 ++ [(splitLast path).2] := by
  unfold splitLast at h ⊢
  dsimp only at h ⊢
  split at h
  · next hempty =>
    rw [if_pos hempty]
    refine ⟨Path.no_slash_baseName _, (dirName_begins _).trans (dirName_begins path), ?_⟩
    have hfront : front path = path := by
      have hsplit := front_append_baseName path
      rwa [List.isEmpty_iff.mp hempty, List.append_nil] at hsplit
    rw [← names_eq_append_baseName h, names_dirName, hfront]
  · next hne =>
    rw [if_neg hne]
    exact ⟨Path.no_slash_baseName _, dirName_begins path, names_eq_append_baseName h⟩

/-! ## Parts of a path to a directory -/

theorem isDirectory_splitLast (h : tree.isDirectory path = true) (hne : (splitLast path).1 ≠ [])
    (hlast : (splitLast path).2 ≠ []) : tree.isDirectory (splitLast path).1 = true := by
  obtain ⟨hlocate, -⟩ := locate_of_isDirectory h
  obtain ⟨-, hhead, hnames⟩ := splitLast_spec hlast
  obtain ⟨-, -, -, hwalk⟩ := locate_eq_ok_iff.mp hlocate
  obtain ⟨dots, hdots, hsteps⟩ := exists_dots path
  rw [hsteps, hnames, List.append_assoc, List.singleton_append] at hwalk
  obtain ⟨-, reached, hfront, hreached⟩ := walk_front hwalk
  exact isDirectory_of_walk hhead hne hlocate hfront hreached

/-! ## Slashes at the end -/

/-- A path without the slashes at its end has the same names, unless it is made of slashes. -/
theorem withoutEndSlashes_cases (path : Text) :
    withoutEndSlashes path = path ∧ names path = [] ∨
      withoutEndSlashes path ≠ [] ∧ withoutEndSlashes path <+: path ∧
        steps (withoutEndSlashes path) = names path := by
  have hsplit : (path.reverse.dropWhile (· = '/')).reverse ++
      (path.reverse.takeWhile (· = '/')).reverse = path := by
    rw [← List.reverse_append, List.takeWhile_append_dropWhile, List.reverse_reverse]
  have hslashes : ∀ c ∈ (path.reverse.takeWhile (· = '/')).reverse, c = '/' := by
    intro c hc
    simpa using List.mem_takeWhile_imp (List.mem_reverse.mp hc)
  rw [withoutEndSlashes]
  cases hkept : path.reverse.dropWhile (· = '/') with
  | nil =>
    rw [hkept, List.reverse_nil, List.nil_append] at hsplit
    exact .inl ⟨rfl, by rw [← hsplit, names_of_slashes hslashes]⟩
  | cons c kept =>
    have hne : (c :: kept).reverse ≠ [] := by simp
    have hlast : (c :: kept).reverse.getLast? ≠ some '/' := by
      have hc := List.head_dropWhile_not (fun c => decide (c = '/'))
        (show path.reverse.dropWhile (· = '/') ≠ [] by rw [hkept]; exact List.cons_ne_nil _ _)
      simp only [hkept] at hc
      rw [List.getLast?_reverse]
      exact fun heq => of_decide_eq_false hc (Option.some.inj heq)
    rw [hkept] at hsplit
    rw [if_neg (by simp)]
    refine .inr ⟨hne, ⟨_, hsplit⟩, ?_⟩
    rw [steps, if_neg hlast, List.append_nil]
    conv_rhs => rw [← hsplit, names_append_slashes _ hslashes]
    rfl

theorem walkNames_last {goOn goOn' : Place → List Text → Except PathFault Destination}
    {reached place : Place} {last : Text} {dots : List Text} (hreached : tree.HasDirectory reached)
    (hsize : Utf8.size last ≤ maxNameBytes)
    (h : tree.walkNames true goOn reached (last :: dots) = .ok (.found place)) :
    ∃ found, tree.walkNames false goOn' reached [last] = .ok (.found found) := by
  rw [walkNames_of_directory hreached hsize] at h ⊢
  by_cases hcurrent : last = Path.current
  · exact ⟨reached, by rw [if_pos hcurrent]; rfl⟩
  · by_cases hparent : last = Path.parent
    · exact ⟨reached.tail, by rw [if_neg hcurrent, if_pos hparent]; rfl⟩
    · rw [if_neg hcurrent, if_neg hparent] at h ⊢
      cases hentry : tree.get? (last :: reached) with
      | none =>
        rw [hentry] at h
        dsimp only at h
        split at h <;> cases h
      | some entry =>
        refine ⟨last :: reached, ?_⟩
        cases entry <;> rfl

/-- Whatever slashes are at its end, the path of a directory is that of an entry. -/
theorem locate_withoutEndSlashes (h : tree.isDirectory path = true) :
    ∃ place, tree.locate false (withoutEndSlashes path) = .ok (.found place) := by
  obtain ⟨hlocate, hplace⟩ := locate_of_isDirectory h
  obtain ⟨hnul, hne, hsize, hwalk⟩ := locate_eq_ok_iff.mp hlocate
  obtain ⟨dots, hdots, hsteps⟩ := exists_dots path
  obtain ⟨hsame, hnames⟩ | ⟨hfront, ⟨slashes, happend⟩, hnames⟩ := withoutEndSlashes_cases path
  · rw [hsteps, hnames, List.nil_append] at hwalk
    have hstart : tree.physical path = origin tree.current path := walkNames_currents hdots hwalk
    refine ⟨tree.physical path, ?_⟩
    rw [hsame, locate_eq_ok_iff, hsteps, hnames, List.nil_append, ← hstart]
    exact ⟨hnul, hne, hsize, walk_currents hplace hdots⟩
  · have hfound : ∃ place, tree.walk false maxLinks (origin tree.current path) (names path) =
        .ok (.found place) := by
      obtain hnil | ⟨init, last, hinit⟩ := List.eq_nil_or_concat (names path)
      · exact ⟨_, by rw [hnil]; rfl⟩
      · rw [hsteps, hinit, List.concat_eq_append, List.append_assoc, List.singleton_append] at hwalk
        obtain ⟨hlast, reached, hinitWalk, hreached⟩ := walk_front hwalk
        rw [← List.append_nil init] at hinitWalk
        obtain ⟨left, hleft⟩ := walk_onward (.refl tree) hreached (List.forall_mem_nil _) hinitWalk
        rw [hleft true _ (.inr rfl)] at hwalk
        rw [hinit, List.concat_eq_append, hleft false [last] (.inl (List.cons_ne_nil _ _))]
        cases left with
        | zero => exact walkNames_last hreached hlast hwalk
        | succ left => exact walkNames_last hreached hlast hwalk
    obtain ⟨place, hfound⟩ := hfound
    refine ⟨place, locate_eq_ok_iff.mpr ⟨fun hmem => hnul ?_, hfront, le_trans ?_ hsize, ?_⟩⟩
    · rw [← happend]
      exact List.mem_append_left _ hmem
    · conv_rhs => rw [← happend]
      simp [Utf8.size, Utf8.encode]
    · have horigin : origin tree.current (withoutEndSlashes path) = origin tree.current path := by
        conv_rhs => rw [← happend]
        rw [origin, origin, Path.isAbsolute, Path.isAbsolute, List.head?_append_of_ne_nil _ hfront]
      rw [horigin, hnames]
      exact hfound

/-! ## Creating directories -/

/-- When nothing is missing above it, only the directory itself is created. -/
theorem makeDirectories_of_there (faults : Faults) (h : (!(splitLast path).1.isEmpty &&
    !(splitLast path).2.isEmpty && !tree.exists? (splitLast path).1) = false) (mode : Nat) :
    tree.makeDirectories faults path mode =
      match tree.makeDirectory faults path mode with
      | .ok tree => (tree, none)
      | .error e => if e.isSystemError && tree.isDirectory path then (tree, none) else (tree, some e) := by
  unfold makeDirectories
  cases hmade : tree.makeDirectory faults path mode with
  | ok made => simp [h, hmade]
  | error e => simp [h, hmade]

/-- Creating a directory that is there changes nothing. -/
theorem makeDirectories_of_isDirectory (faults : Faults) (h : tree.isDirectory path = true)
    (mode : Nat) : tree.makeDirectories faults path mode = (tree, none) := by
  obtain ⟨place, hfound⟩ := locate_withoutEndSlashes h
  have hmade : tree.makeDirectory faults path mode = .error (failure path .alreadyExists) := by
    rw [makeDirectory, hfound]
  have hthere : (!(splitLast path).1.isEmpty && !(splitLast path).2.isEmpty &&
      !tree.exists? (splitLast path).1) = false := by
    by_cases hne : (splitLast path).1 = [] ∨ (splitLast path).2 = []
    · obtain hnil | hnil := hne <;> simp [hnil]
    · rw [not_or] at hne
      rw [exists?_of_isDirectory (isDirectory_splitLast h hne.1 hne.2), Bool.not_true, Bool.and_false]
  rw [makeDirectories_of_there faults hthere, hmade]
  dsimp only
  rw [h]
  rfl

section Join

variable {directory name : Text}

theorem dirName_join_begins (hne : directory ≠ []) (h : '/' ∉ name) :
    Path.dirName (Path.join directory name) <+: directory := by
  have hfront : front (Path.join directory name) =
      directory ++ if directory.getLast? = some '/' then [] else ['/'] := by
    have hsplit := front_append_baseName (Path.join directory name)
    rw [Path.baseName_join directory h] at hsplit
    refine List.append_cancel_right (hsplit.trans ?_)
    rw [Path.join_of_ne_nil hne h, List.append_assoc]
    split <;> rfl
  have hdirName : Path.dirName (Path.join directory name) =
      if (front (Path.join directory name)).all (· = '/') then front (Path.join directory name)
      else ((front (Path.join directory name)).reverse.dropWhile (· = '/')).reverse := rfl
  have hkept : (directory.reverse.dropWhile (· = '/')).reverse <+: directory := by
    have hsuffix := List.dropWhile_suffix (l := directory.reverse) fun c => decide (c = '/')
    rwa [← List.reverse_prefix, List.reverse_reverse] at hsuffix
  rw [hdirName, hfront]
  split
  · next hend =>
    rw [List.append_nil]
    split
    · exact List.prefix_rfl
    · exact hkept
  · next hend =>
    rw [if_neg, List.reverse_append, List.reverse_singleton, List.singleton_append,
      List.dropWhile_cons_of_pos (by rfl)]
    · exact hkept
    · intro hall
      rw [List.all_append, Bool.and_eq_true, List.all_eq_true] at hall
      obtain ⟨init, last, rfl⟩ := (List.eq_nil_or_concat directory).resolve_left hne
      refine hend ?_
      rw [List.concat_eq_append, List.getLast?_concat,
        of_decide_eq_true (hall.1 last (by simp))]

/-- Creating a directory in one that is there sets an entry of that name where nothing is, or
nothing. -/
theorem makeDirectories_join (faults : Faults) (hdirectory : tree.isDirectory directory = true)
    (hname : IsName name) (mode : Nat) :
    (tree.makeDirectories faults (Path.join directory name) mode).1 = tree ∨
      tree.get? (name :: tree.physical directory) = none ∧
        (tree.makeDirectories faults (Path.join directory name) mode).1 =
          tree.set (name :: tree.physical directory) (.directory mode) := by
  have hne := ne_nil_of_isDirectory hdirectory
  have hbase := Path.baseName_join directory hname.no_slash
  have hnames := (names_join directory hname).1
  have hlast : splitLast (Path.join directory name) = (Path.dirName (Path.join directory name), name) := by
    rw [splitLast, hbase, if_neg (by simpa using hname.ne_nil)]
  have hthere : (!(splitLast (Path.join directory name)).1.isEmpty &&
      !(splitLast (Path.join directory name)).2.isEmpty &&
        !tree.exists? (splitLast (Path.join directory name)).1) = false := by
    rw [hlast]
    dsimp only
    by_cases hhead : Path.dirName (Path.join directory name) = []
    · rw [hhead]
      rfl
    · have hsame : names (Path.dirName (Path.join directory name)) = names directory := by
        refine List.append_cancel_right (?_ : _ ++ [name] = _ ++ [name])
        rw [← hnames]
        conv_rhs => rw [names_eq_append_baseName (by rw [hbase]; exact hname.ne_nil), hbase]
      obtain ⟨hlocate, hplace⟩ := locate_of_isDirectory hdirectory
      obtain ⟨dots, hdots, hsteps⟩ := exists_dots directory
      obtain ⟨-, -, -, hwalk⟩ := locate_eq_ok_iff.mp hlocate
      rw [hsteps] at hwalk
      obtain ⟨left, hleft⟩ := walk_onward (.refl tree) hplace hdots hwalk
      have hhere := hleft true [] (.inr rfl)
      rw [List.append_nil, walk_currents hplace (List.forall_mem_nil _), ← hsame] at hhere
      rw [exists?_of_isDirectory (isDirectory_of_walk (dirName_join_begins hne hname.no_slash) hhead
        hlocate hhere hplace), Bool.not_true, Bool.and_false]
  rw [makeDirectories_of_there faults hthere, makeDirectory]
  cases hlocate : tree.locate false (withoutEndSlashes (Path.join directory name)) with
  | error fault =>
    dsimp only
    split <;> exact .inl rfl
  | ok d =>
    cases d with
    | found place =>
      dsimp only
      split <;> exact .inl rfl
    | missing parent last =>
      have hspot : last :: parent = tree.spot (withoutEndSlashes (Path.join directory name)) :=
        spot_of_locate (fun _ _ _ _ => rfl) rfl hlocate
      obtain ⟨-, hnil⟩ | ⟨hfront, ⟨slashes, happend⟩, hsteps⟩ :=
        withoutEndSlashes_cases (Path.join directory name)
      · rw [hnames] at hnil
        exact absurd hnil (by simp)
      · have horigin : origin tree.current (withoutEndSlashes (Path.join directory name)) =
            origin tree.current directory := by
          rw [← origin_join tree.current directory hname]
          conv_rhs => rw [← happend]
          rw [origin, origin, Path.isAbsolute, Path.isAbsolute, List.head?_append_of_ne_nil _ hfront]
        rw [spot, horigin, hsteps, hnames, spotFrom_append_name _ _ _ _ hname, ← physical_eq_names] at hspot
        rw [← hspot]
        dsimp only
        cases faults.creating (Path.join directory name) with
        | none => exact .inr ⟨(free_of_missing hlocate).2, rfl⟩
        | some fault =>
          dsimp only [Faults.guard]
          split <;> exact .inl rfl

end Join

end HclTidy.Tree
