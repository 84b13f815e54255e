import HclTidy.Organize.Run
import HclTidy.Proofs.Path
import HclTidy.Proofs.Tree.Changes

/-!
# Directories and the names in them

In a well-formed tree every entry has a name in a directory, and no place has two entries. The path
made of a directory and a name stands for that name at the place of the directory, and a path is
made of its directory and its base name.
-/

set_option autoImplicit false

namespace HclTidy

namespace Tree

/-! ## Names of a path -/

/-- The names in a path, between its slashes. -/
def names (path : Text) : List Text := (path.splitOn '/').filter fun name => !name.isEmpty

theorem names_nil : names [] = [] := rfl

theorem names_append_slash (a b : Text) : names (a ++ '/' :: b) = names a ++ names b := by
  rw [names, Text.splitOn_append_separator, List.filter_append]
  rfl

theorem names_of_no_slash {name : Text} (hne : name ≠ []) (h : '/' ∉ name) : names name = [name] := by
  rw [names, Text.splitOn_of_not_mem h, List.filter_cons_of_pos (by simpa using hne)]
  rfl

theorem names_of_isName {name : Text} (h : IsName name) : names name = [name] :=
  names_of_no_slash h.ne_nil h.no_slash

theorem names_append {front name : Text} (hfront : front = [] ∨ ∃ init, front = init ++ ['/'])
    (hne : name ≠ []) (h : '/' ∉ name) : names (front ++ name) = names front ++ [name] := by
  obtain rfl | ⟨init, rfl⟩ := hfront
  · exact names_of_no_slash hne h
  · rw [List.append_assoc, List.singleton_append, names_append_slash, names_append_slash, names_nil,
      List.append_nil, names_of_no_slash hne h]

theorem steps_append (front : Text) {name : Text} (hne : name ≠ []) (h : '/' ∉ name) :
    steps (front ++ name) = names (front ++ name) := by
  have hlast : (front ++ name).getLast? ≠ some '/' := by
    intro hlast
    rw [List.getLast?_append_of_ne_nil _ hne] at hlast
    exact h (List.mem_of_getLast? hlast)
  rw [steps, if_neg hlast, List.append_nil]
  rfl

section Names

variable {tree : Tree}

theorem physicalFrom_append_current (tree : Tree) (links : Nat) (place : Place) (rest : List Text) :
    tree.physicalFrom links place (rest ++ [Path.current]) = tree.physicalFrom links place rest := by
  induction links generalizing place rest with
  | zero =>
    rw [physicalFrom, lexicalFrom, List.foldl_append]
    rfl
  | succ links ih =>
    induction rest generalizing place with
    | nil => rw [List.nil_append, physicalFrom_current]
    | cons name rest ihRest =>
      rw [List.cons_append]
      change tree.physicalNames _ _ _ = tree.physicalNames _ _ _
      rw [physicalNames_cons, physicalNames_cons]
      split
      · exact ihRest place
      · split
        · exact ihRest place.tail
        · split
          · rw [← List.append_assoc, ih]
          · exact ihRest _

/-- The entry that a path and one name more name lies where the path leads to. -/
theorem spotFrom_append_name (tree : Tree) (links : Nat) (place : Place) (rest : List Text)
    {name : Text} (h : IsName name) :
    tree.spotFrom links place (rest ++ [name]) = name :: tree.physicalFrom links place rest := by
  induction links generalizing place rest with
  | zero =>
    rw [spotFrom, lexicalFrom, List.foldl_append, List.foldl_cons, List.foldl_nil,
      if_neg h.ne_current, if_neg h.ne_parent]
    rfl
  | succ links ih =>
    induction rest generalizing place with
    | nil => rw [List.nil_append, spotFrom_last _ _ _ h.not_special, physicalFrom_nil]
    | cons next rest ihRest =>
      rw [List.cons_append]
      change tree.spotNames _ _ _ = _ :: tree.physicalNames _ _ _
      rw [spotNames, physicalNames_cons]
      split
      · exact ihRest place
      · split
        · exact ihRest place.tail
        · rw [if_neg (by simp)]
          split
          · rw [← List.append_assoc, ih]
          · exact ihRest _

theorem physical_eq_names (tree : Tree) (path : Text) :
    tree.physical path = tree.physicalFrom maxLinks (origin tree.current path) (names path) := by
  unfold physical steps
  split
  · exact physicalFrom_append_current _ _ _ _
  · rw [List.append_nil]
    rfl

end Names

/-! ## A name in a directory -/

theorem names_join (directory : Text) {name : Text} (h : IsName name) :
    names (Path.join directory name) = names directory ++ [name] ∧
      steps (Path.join directory name) = names (Path.join directory name) := by
  have habsolute : Path.isAbsolute name = false := by
    rw [Path.isAbsolute, decide_eq_false_iff_not]
    exact fun hhead => h.no_slash (List.mem_of_head? hhead)
  unfold Path.join
  rw [if_neg (by rw [habsolute]; exact Bool.false_ne_true)]
  split
  · next hend =>
    refine ⟨?_, steps_append _ h.ne_nil h.no_slash⟩
    rw [Bool.or_eq_true, List.isEmpty_iff, decide_eq_true_eq] at hend
    exact names_append (hend.imp_right List.getLast?_eq_some_iff.mp) h.ne_nil h.no_slash
  · refine ⟨by rw [names_append_slash, names_of_isName h], ?_⟩
    rw [← List.singleton_append, ← List.append_assoc]
    exact steps_append _ h.ne_nil h.no_slash

theorem origin_join (place : Place) (directory : Text) {name : Text} (h : IsName name) :
    origin place (Path.join directory name) = origin place directory := by
  have hname : name.head? ≠ some '/' := fun hhead => h.no_slash (List.mem_of_head? hhead)
  have hsame : Path.isAbsolute (Path.join directory name) = Path.isAbsolute directory := by
    unfold Path.join Path.isAbsolute
    rw [if_neg (by simpa using hname)]
    cases directory with
    | nil => simpa using hname
    | cons c rest => split <;> rfl
  rw [origin, origin, hsame]

/-- A name in a directory is an entry at the place of the directory. -/
theorem spot_join (tree : Tree) (directory : Text) {name : Text} (h : IsName name) :
    tree.spot (Path.join directory name) = name :: tree.physical directory := by
  rw [spot, (names_join directory h).2, (names_join directory h).1, origin_join _ _ h,
    spotFrom_append_name _ _ _ _ h, physical_eq_names]

/-! ## The directory and the base name of a path -/

theorem names_of_slashes {t : Text} (h : ∀ c ∈ t, c = '/') : names t = [] := by
  induction t with
  | nil => rfl
  | cons c t ih =>
    rw [h c List.mem_cons_self, ← List.nil_append ('/' :: t), names_append_slash, names_nil,
      ih fun c hc => h c (List.mem_cons_of_mem _ hc), List.nil_append]

theorem names_append_slashes (a : Text) {t : Text} (h : ∀ c ∈ t, c = '/') :
    names (a ++ t) = names a := by
  cases t with
  | nil => rw [List.append_nil]
  | cons c t =>
    rw [h c List.mem_cons_self, names_append_slash,
      names_of_slashes fun c hc => h c (List.mem_cons_of_mem _ hc), List.append_nil]

/-- What stands before the base name, the slash included. -/
def front (path : Text) : Text := (path.reverse.dropWhile (· ≠ '/')).reverse

theorem front_append_baseName (path : Text) : front path ++ Path.baseName path = path := by
  rw [front, Path.baseName, ← List.reverse_append, List.takeWhile_append_dropWhile,
    List.reverse_reverse]

/-- The front of a path is empty or ends with a slash. -/
theorem front_end (path : Text) : front path = [] ∨ ∃ init, front path = init ++ ['/'] := by
  unfold front
  cases hdrop : path.reverse.dropWhile (· ≠ '/') with
  | nil => exact .inl rfl
  | cons c rest =>
    have hc := List.head_dropWhile_not (fun c => decide (c ≠ '/'))
      (show path.reverse.dropWhile (· ≠ '/') ≠ [] by rw [hdrop]; exact List.cons_ne_nil _ _)
    simp only [hdrop] at hc
    have hslash : c = '/' := Decidable.not_not.mp (of_decide_eq_false hc)
    exact .inr ⟨rest.reverse, by rw [hslash, List.reverse_cons]⟩

theorem join_front_baseName {path : Text} (h : IsName (Path.baseName path)) :
    Path.join (front path) (Path.baseName path) = path := by
  have hname : Path.isAbsolute (Path.baseName path) = false := by
    rw [Path.isAbsolute, decide_eq_false_iff_not]
    exact fun hhead => h.no_slash (List.mem_of_head? hhead)
  unfold Path.join
  rw [if_neg (by rw [hname]; exact Bool.false_ne_true), if_pos, front_append_baseName]
  rw [Bool.or_eq_true, List.isEmpty_iff, decide_eq_true_eq]
  obtain hnil | ⟨init, hinit⟩ := front_end path
  · exact .inl hnil
  · exact .inr (by rw [hinit, List.getLast?_concat])

theorem physical_withoutSlashes (tree : Tree) {path : Text} (h : ¬path.all (· = '/') = true) :
    (path.reverse.dropWhile (· = '/')).reverse ≠ [] ∧
      tree.physical (path.reverse.dropWhile (· = '/')).reverse = tree.physical path := by
  have hsplit : (path.reverse.dropWhile (· = '/')).reverse ++
      (path.reverse.takeWhile (· = '/')).reverse = path := by
    rw [← List.reverse_append, List.takeWhile_append_dropWhile, List.reverse_reverse]
  have hslashes : ∀ c ∈ (path.reverse.takeWhile (· = '/')).reverse, c = '/' := by
    intro c hc
    simpa using List.mem_takeWhile_imp (List.mem_reverse.mp hc)
  have hne : (path.reverse.dropWhile (· = '/')).reverse ≠ [] := by
    intro hnil
    rw [hnil, List.nil_append] at hsplit
    rw [hsplit] at hslashes
    exact h (List.all_eq_true.mpr fun c hc => decide_eq_true (hslashes c hc))
  refine ⟨hne, ?_⟩
  generalize (path.reverse.dropWhile (· = '/')).reverse = kept at hsplit hne ⊢
  cases kept with
  | nil => exact absurd rfl hne
  | cons c kept =>
    rw [physical_eq_names, physical_eq_names, ← hsplit, names_append_slashes _ hslashes]
    rfl

theorem physical_directoryOf (tree : Tree) (path : Text) :
    tree.physical (Cleanup.directoryOf path) = tree.physical (front path) := by
  have hdirName : Path.dirName path =
      if (front path).all (· = '/') then front path
      else ((front path).reverse.dropWhile (· = '/')).reverse := rfl
  unfold Cleanup.directoryOf
  rw [hdirName]
  split
  · cases front path with
    | nil => exact physicalFrom_current tree maxLinks tree.current []
    | cons c rest => rfl
  · next hother =>
    obtain ⟨hne, hsame⟩ := physical_withoutSlashes tree hother
    rw [if_neg (by rwa [List.isEmpty_iff]), hsame]

/-- A path names the entry that has its base name in its directory. -/
theorem spot_eq_cons (tree : Tree) {path : Text} (h : IsName (Path.baseName path)) :
    tree.spot path = Path.baseName path :: tree.physical (Cleanup.directoryOf path) := by
  rw [physical_directoryOf, ← spot_join tree _ h, join_front_baseName h]

/-! ## A path to a file ends with a name -/

theorem cons_eq_append_singleton {name last : Text} {rest init : List Text}
    (h : name :: rest = init ++ [last]) :
    (rest = [] ∧ name = last) ∨ ∃ init', rest = init' ++ [last] := by
  cases init with
  | nil =>
    cases h
    exact .inl ⟨rfl, rfl⟩
  | cons first init => exact .inr ⟨init, (List.cons.inj h).2⟩

/-- Names that end with `.` or `..` lead to a directory. -/
theorem hasDirectory_of_leads_special {tree : Tree} (h : tree.Closed) {follow : Bool} {links : Nat}
    {place : Place} {rest init : List Text} {d : Destination}
    (hd : Leads tree follow links place rest d) {last : Text} (hrest : rest = init ++ [last])
    (hlast : ¬(last ≠ Path.current ∧ last ≠ Path.parent)) :
    ∃ reached, d = .found reached ∧ tree.HasDirectory reached := by
  induction hd generalizing init with
  | here => exact absurd hrest.symm (List.append_ne_nil_of_right_ne_nil _ (List.cons_ne_nil _ _))
  | current hdirectory hleads ih =>
    obtain ⟨rfl, -⟩ | ⟨init', hinit⟩ := cons_eq_append_singleton hrest
    · cases hleads
      exact ⟨_, rfl, hdirectory⟩
    · exact ih hinit
  | parent hdirectory hleads ih =>
    obtain ⟨rfl, -⟩ | ⟨init', hinit⟩ := cons_eq_append_singleton hrest
    · cases hleads
      exact ⟨_, rfl, hasDirectory_tail h hdirectory⟩
    · exact ih hinit
  | missing _ hname =>
    obtain ⟨-, rfl⟩ | ⟨init', hinit⟩ := cons_eq_append_singleton hrest
    · exact absurd hname hlast
    · exact absurd hinit.symm (List.append_ne_nil_of_right_ne_nil _ (List.cons_ne_nil _ _))
  | atLink _ hname =>
    obtain ⟨-, rfl⟩ | ⟨init', hinit⟩ := cons_eq_append_singleton hrest
    · exact absurd hname hlast
    · exact absurd hinit.symm (List.append_ne_nil_of_right_ne_nil _ (List.cons_ne_nil _ _))
  | through _ hname _ _ _ ih =>
    obtain ⟨-, rfl⟩ | ⟨init', rfl⟩ := cons_eq_append_singleton hrest
    · exact absurd hname hlast
    · exact ih (List.append_assoc _ _ _).symm
  | onward _ hname _ _ _ ih =>
    obtain ⟨-, rfl⟩ | ⟨init', hinit⟩ := cons_eq_append_singleton hrest
    · exact absurd hname hlast
    · exact ih hinit

/-- A path that does not lead to a directory ends with a name. -/
theorem isName_baseName_of_locate {tree : Tree} (h : tree.Closed) {follow : Bool} {path : Text}
    {d : Destination} (hlocate : tree.locate follow path = .ok d)
    (hnot : ∀ place, d = .found place → ¬tree.HasDirectory place) : IsName (Path.baseName path) := by
  have hsplit : front path ++ Path.baseName path = path := front_append_baseName path
  have hlast {init : List Text} {last : Text} (hsteps : steps path = init ++ [last]) :
      last ≠ Path.current ∧ last ≠ Path.parent := by
    by_contra hspecial
    obtain ⟨reached, hreached, hdirectory⟩ :=
      hasDirectory_of_leads_special h (leads_of_locate hlocate) hsteps hspecial
    exact hnot reached hreached hdirectory
  have hne : Path.baseName path ≠ [] := by
    intro hnil
    rw [hnil, List.append_nil] at hsplit
    obtain hempty | ⟨init, hinit⟩ := front_end path
    · rw [← hsplit, hempty] at hlocate
      cases hlocate
    · have hend : path.getLast? = some '/' := by rw [← hsplit, hinit, List.getLast?_concat]
      have hsteps : steps path = names path ++ [Path.current] := by rw [steps, if_pos hend]; rfl
      exact (hlast hsteps).1 rfl
  have hname := Path.no_slash_baseName path
  have hsteps : steps path = names (front path) ++ [Path.baseName path] := by
    rw [← hsplit, steps_append _ hne hname, hsplit, ← names_append (front_end path) hne hname, hsplit]
  exact ⟨hne, hname, (hlast hsteps).1, (hlast hsteps).2⟩

/-- A path to something that is no directory ends with a name. -/
theorem isName_baseName {tree : Tree} (h : tree.Closed) {follow : Bool} {path : Text} {place : Place}
    {entry : Entry} (hentry : tree.entryAt follow path = .ok (place, entry))
    (hnot : entry.isDirectory = false) : IsName (Path.baseName path) := by
  obtain ⟨hlocate, hget⟩ := locate_of_entryAt hentry
  refine isName_baseName_of_locate h hlocate ?_
  rintro _ hplace ⟨mode, hmode⟩
  cases hplace
  rw [hget] at hmode
  cases hmode
  cases hnot

/-- A path that has been written to ends with a name. -/
theorem isName_baseName_of_writeFile {tree tree' : Tree} (h : tree.Closed) {path : Text} {mode : Nat}
    {content : Bytes} (hwrite : tree.writeFile path mode content = .ok tree') :
    IsName (Path.baseName path) := by
  unfold writeFile at hwrite
  split at hwrite
  · cases hwrite
  · next hlocate => exact isName_baseName_of_locate h hlocate fun _ hfound => by cases hfound
  · next place hlocate =>
    refine isName_baseName_of_locate h hlocate ?_
    rintro _ hplace ⟨kept, hkept⟩
    cases hplace
    rw [hkept] at hwrite
    cases hwrite

end Tree

end HclTidy
