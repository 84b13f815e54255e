import HclTidy.PathCheck
import HclTidy.Proofs.Tree.Paths

/-!
# Paths in system directories

A path is followed from the root by its components: empty ones and `.` are left out, and `..` removes
the one before it. The check of a path compares spellings. It refuses the paths whose components
begin with those of a system directory, when normalising leaves one slash in front of them; of two
slashes both stay, and such a path is under no system directory. A source in a directory that is not
refused is not refused, either.
-/

set_option autoImplicit false

namespace HclTidy

namespace Path

/-! ## Components from the root -/

/-- Follows one more component. Nothing is above the root. -/
def follow (reached : List Text) (c : Text) : List Text :=
  if c = parent then reached.dropLast else reached ++ [c]

/-- The components that are left when a path is followed from the root. -/
def resolved (path : Text) : List Text := (components path).foldl follow []

theorem reverse_collapse {stack cs : List Text} (h : parent ∉ stack) :
    (collapse true stack cs).reverse = cs.foldl follow stack.reverse := by
  induction cs generalizing stack with
  | nil => rfl
  | cons c cs ih =>
    rw [List.foldl_cons, follow]
    by_cases hc : c = parent
    · rw [if_pos hc]
      cases stack with
      | nil =>
        rw [collapse, if_pos hc]
        exact ih h
      | cons top below =>
        rw [List.mem_cons, not_or] at h
        rw [collapse, if_pos hc, if_neg (Ne.symm h.1), ih h.2, List.reverse_cons, List.dropLast_concat]
    · have hstack : parent ∉ c :: stack := by simpa using ⟨Ne.symm hc, h⟩
      rw [if_neg hc, ← List.reverse_cons, ← ih hstack]
      cases stack <;> rw [collapse, if_neg hc]

/-- A component of a path that is followed: it is not empty and has no slash. -/
def IsPiece (c : Text) : Prop := c ≠ [] ∧ '/' ∉ c

theorem isPiece_of_mem_components {path c : Text} (h : c ∈ components path) : IsPiece c := by
  obtain ⟨hmem, hkept⟩ := List.mem_filter.mp h
  refine ⟨?_, Text.not_mem_of_mem_splitOn _ _ c hmem⟩
  rintro rfl
  cases hkept

theorem isPiece_of_mem_foldl {cs reached : List Text} (hcs : ∀ c ∈ cs, IsPiece c)
    (hreached : ∀ c ∈ reached, IsPiece c) : ∀ c ∈ cs.foldl follow reached, IsPiece c := by
  induction cs generalizing reached with
  | nil => exact hreached
  | cons d cs ih =>
    rw [List.forall_mem_cons] at hcs
    refine ih hcs.2 fun c hc => ?_
    unfold follow at hc
    split at hc
    · exact hreached c (List.mem_of_mem_dropLast hc)
    · obtain hc | hc := List.mem_append.mp hc
      · exact hreached c hc
      · rw [List.mem_singleton.mp hc]
        exact hcs.1

theorem isPiece_of_mem_resolved (path : Text) : ∀ c ∈ resolved path, IsPiece c :=
  isPiece_of_mem_foldl (fun _ => isPiece_of_mem_components) (List.forall_mem_nil _)

/-! ## Spelling -/

/-- Components with a slash in front of each. -/
def spell (cs : List Text) : Text := cs.flatMap fun c => '/' :: c

theorem slash_joinWith {cs : List Text} (h : cs ≠ []) : '/' :: Text.joinWith ['/'] cs = spell cs := by
  induction cs with
  | nil => exact absurd rfl h
  | cons c cs ih =>
    cases cs with
    | nil => simp [spell, Text.joinWith]
    | cons d cs =>
      rw [Text.joinWith_cons_cons, List.append_assoc, List.singleton_append, ih (List.cons_ne_nil _ _)]
      rfl

theorem splitOn_append_spell {a : Text} {cs : List Text} (ha : '/' ∉ a) (hcs : ∀ c ∈ cs, IsPiece c) :
    Text.splitOn '/' (a ++ spell cs) = a :: cs := by
  induction cs generalizing a with
  | nil => rw [spell, List.flatMap_nil, List.append_nil, Text.splitOn_of_not_mem ha]
  | cons c cs ih =>
    rw [List.forall_mem_cons] at hcs
    change Text.splitOn '/' (a ++ '/' :: (c ++ spell cs)) = _
    rw [Text.splitOn_append_separator, Text.splitOn_of_not_mem ha, ih hcs.1.2 hcs.2]
    rfl

theorem splitOn_spell {cs : List Text} (hcs : ∀ c ∈ cs, IsPiece c) :
    Text.splitOn '/' (spell cs) = [] :: cs :=
  splitOn_append_spell (a := []) List.not_mem_nil hcs

theorem root_eq_of_isAbsolute {path : Text} (h : isAbsolute path = true) :
    root path = ['/'] ∨ root path = ['/', '/'] := by
  unfold root
  split
  · exact .inl rfl
  · exact .inr rfl
  · exact .inl rfl
  · next hnot =>
    obtain ⟨rest, rfl⟩ := List.head?_eq_some_iff.mp (of_decide_eq_true h)
    exact absurd rfl (hnot rest)

theorem normalise_of_root {path : Text} (h : root path ≠ []) :
    normalise path = root path ++ Text.joinWith ['/'] (resolved path) := by
  have hrooted : (!(root path).isEmpty) = true := by simpa using h
  have hkept : (collapse true [] (components path)).reverse = resolved path :=
    reverse_collapse List.not_mem_nil
  rw [normalise]
  simp only [hrooted, hkept]
  exact if_neg (by simp [h])

theorem absolute_eq_normalise (base path : Text) : absolute base path = normalise (join base path) := by
  rw [absolute, join]
  split <;> rfl

theorem isAbsolute_join {base : Text} (h : isAbsolute base = true) (path : Text) :
    isAbsolute (join base path) = true := by
  unfold join
  split
  · assumption
  · obtain ⟨rest, rfl⟩ := List.head?_eq_some_iff.mp (of_decide_eq_true h)
    split <;> rfl

/-! ## A name in a directory -/

section Join

variable {directory name : Text}

theorem components_eq (path : Text) : components path = (Tree.names path).filter (· ≠ current) := by
  rw [components, Tree.names, List.filter_filter]
  exact List.filter_congr fun c _ => Bool.and_comm _ _

theorem resolved_join (directory : Text) (h : IsName name) :
    resolved (join directory name) = resolved directory ++ [name] := by
  have hcomponents : components (join directory name) = components directory ++ [name] := by
    rw [components_eq, (Tree.names_join directory h).1, List.filter_append, ← components_eq,
      List.filter_cons_of_pos (by simpa using h.ne_current), List.filter_nil]
  rw [resolved, hcomponents, List.foldl_append, ← resolved]
  exact if_neg h.ne_parent

end Join

end Path

namespace PathCheck

open HclTidy.Path

/-! ## System directories -/

/-- The directories that are checked for are spelled by their components. -/
theorem spelled_systemDirectories : ∀ d ∈ systemDirectories, d = spell (components d) ∧ components d ≠ [] := by
  decide

/-- By its spelling a path is under a directory when its components begin with those of the
directory. -/
theorem isUnder_spell_iff {cs ds : List Text} (hcs : ∀ c ∈ cs, IsPiece c) (hds : ∀ d ∈ ds, IsPiece d) :
    isUnder (spell cs) (spell ds) = true ↔ ds <+: cs := by
  rw [isUnder, Bool.or_eq_true, decide_eq_true_eq, List.isPrefixOf_iff_prefix]
  constructor
  · rintro (heq | ⟨rest, hrest⟩)
    · have hsplit := congrArg (Text.splitOn '/') heq
      rw [splitOn_spell hcs, splitOn_spell hds] at hsplit
      rw [(List.cons.inj hsplit).2]
    · have hsplit := congrArg (Text.splitOn '/') hrest
      rw [List.append_assoc, List.singleton_append, Text.splitOn_append_separator, splitOn_spell hcs,
        splitOn_spell hds] at hsplit
      exact ⟨_, (List.cons.inj hsplit).2⟩
  · rintro ⟨es, rfl⟩
    cases es with
    | nil => exact .inl (by rw [List.append_nil])
    | cons e es =>
      refine .inr ⟨e ++ spell es, ?_⟩
      simp [spell]

theorem isUnder_normalise_iff {path directory : Text} (hroot : root path = ['/'])
    (hd : directory ∈ systemDirectories) :
    isUnder (normalise path) directory = true ↔ components directory <+: resolved path := by
  obtain ⟨hspell, hne⟩ := spelled_systemDirectories directory hd
  have hds : ∀ c ∈ components directory, IsPiece c := fun _ => isPiece_of_mem_components
  have hcs := isPiece_of_mem_resolved path
  rw [normalise_of_root (by simp [hroot]), hroot, List.singleton_append]
  by_cases hnil : resolved path = []
  · -- The root itself is under no directory that has components.
    obtain ⟨d, ds, hcons⟩ := List.exists_cons_of_ne_nil hne
    rw [hcons] at hds hspell ⊢
    have hd : d ≠ [] := (hds d List.mem_cons_self).1
    rw [hnil, hspell]
    simp [isUnder, spell, Text.joinWith, hd]
  · rw [slash_joinWith hnil, ← isUnder_spell_iff hcs hds, ← hspell]

theorem isUnder_normalise_eq_false {path directory : Text} (hroot : root path = ['/', '/'])
    (hd : directory ∈ systemDirectories) : isUnder (normalise path) directory = false := by
  rw [normalise_of_root (by simp [hroot]), hroot]
  fin_cases hd <;> simp [isUnder, List.isPrefixOf]

/-- A path is refused when it is empty, or its components begin with those of a system directory and
it does not begin with two slashes. -/
theorem isSafe_eq_false_iff {current path : Text} (hcurrent : isAbsolute current = true) :
    isSafe current path = false ↔ path = [] ∨ (root (join current path) = ['/'] ∧
      ∃ d ∈ systemDirectories, components d <+: resolved (join current path)) := by
  rw [isSafe, Bool.and_eq_false_iff, Bool.not_eq_false', Bool.not_eq_false', List.isEmpty_iff,
    List.any_eq_true, absolute_eq_normalise]
  refine or_congr_right ?_
  obtain hroot | hroot := root_eq_of_isAbsolute (isAbsolute_join hcurrent path)
  · simp only [hroot, true_and]
    exact exists_congr fun d => and_congr_right fun hd => isUnder_normalise_iff hroot hd
  · refine iff_of_false ?_ (by simp [hroot])
    rintro ⟨d, hd, hunder⟩
    rw [isUnder_normalise_eq_false hroot hd] at hunder
    cases hunder

/-- Two slashes in front of a system directory are not refused. -/
example : isSafe "/home".toList "//etc".toList = true ∧ isSafe "/home".toList "///etc".toList = false := by
  decide

theorem check_ok_iff {current path : Text} : check current path = .ok () ↔ isSafe current path = true := by
  unfold check
  split
  · next hempty =>
    rw [List.isEmpty_iff.mp hempty]
    exact iff_of_false (fun h => by cases h) (by simp [isSafe])
  · split
    · next hsafe => simp [hsafe]
    · next hsafe => simp [hsafe]

/-! ## Names in directories -/

section Names

variable {current directory name : Text}

theorem isAbsolute_currentPath (tree : Tree) : isAbsolute (currentPath tree) = true := by
  unfold currentPath Tree.pathOf
  split
  · rfl
  · next hne =>
    cases hplace : tree.current.reverse with
    | nil => simp_all
    | cons name place => rfl

/-- A name in a directory is refused when the directory is refused, or when it is the name that a
system directory has in the directory. -/
theorem isSafe_join_eq_false_iff (hcurrent : isAbsolute current = true) (hne : directory ≠ [])
    (hname : IsName name) :
    isSafe current (join directory name) = false ↔ isSafe current directory = false ∨
      (root (join current directory) = ['/'] ∧
        ∃ d ∈ systemDirectories, components d = resolved (join current directory) ++ [name]) := by
  have hjoin : join directory name ≠ [] := by
    rw [join_of_ne_nil hne hname.no_slash]
    simp [hne]
  rw [isSafe_eq_false_iff hcurrent, isSafe_eq_false_iff hcurrent, join_join hne hname.no_slash,
    root_join (isAbsolute_join hcurrent directory) hname, resolved_join _ hname]
  simp only [hjoin, hne, false_or, List.prefix_concat_iff]
  rw [← and_or_left, ← exists_or]
  simp only [← and_or_left, or_comm]

/-- A directory is safe when a name in it is. -/
theorem isSafe_of_isSafe_join (hcurrent : isAbsolute current = true) (hne : directory ≠ [])
    (hname : IsName name) (h : isSafe current (join directory name) = true) :
    isSafe current directory = true := by
  refine Bool.of_not_eq_false fun hunsafe => ?_
  rw [(isSafe_join_eq_false_iff hcurrent hne hname).mpr (.inl hunsafe)] at h
  cases h

/-- A source in a safe directory is safe: no system directory has the name of one. -/
theorem isSafe_join_source (hcurrent : isAbsolute current = true) (hne : directory ≠ [])
    (hname : IsName name) (hsource : Source.isSourceName name = true)
    (h : isSafe current directory = true) : isSafe current (join directory name) = true := by
  refine Bool.of_not_eq_false fun hunsafe => ?_
  obtain hdirectory | ⟨-, d, hd, hlast⟩ := (isSafe_join_eq_false_iff hcurrent hne hname).mp hunsafe
  · rw [h] at hdirectory
    cases hdirectory
  · have hnone : ∀ d ∈ systemDirectories, ∀ last ∈ (components d).getLast?,
        Source.isSourceName last = false := by decide
    rw [hnone d hd name (by rw [hlast]; simp)] at hsource
    cases hsource

end Names

end PathCheck

end HclTidy
