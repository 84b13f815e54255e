import HclTidy.Path
import HclTidy.Proofs.Text.Lines

/-!
# Names as paths

A name is a path of one component: it is its own normal form and its own base name. The base name of
a path has no slash, and that of a name in a directory is the name.
-/

set_option autoImplicit false

namespace HclTidy

/-- A name that an entry of a directory can have. -/
structure IsName (name : Text) : Prop where
  ne_nil : name ≠ []
  no_slash : '/' ∉ name
  ne_current : name ≠ Path.current
  ne_parent : name ≠ Path.parent

instance (name : Text) : Decidable (IsName name) :=
  decidable_of_iff (name ≠ [] ∧ '/' ∉ name ∧ name ≠ Path.current ∧ name ≠ Path.parent)
    ⟨fun ⟨h, h', h'', h'''⟩ => ⟨h, h', h'', h'''⟩, fun h => ⟨h.1, h.2, h.3, h.4⟩⟩

theorem IsName.not_special {name : Text} (h : IsName name) :
    name ≠ Path.current ∧ name ≠ Path.parent := ⟨h.ne_current, h.ne_parent⟩

namespace Path

theorem no_slash_baseName (path : Text) : '/' ∉ baseName path := by
  intro h
  simpa using List.mem_takeWhile_imp (List.mem_reverse.mp h)

theorem takeWhile_reverse {name : Text} (h : '/' ∉ name) (front : Text) :
    (name.reverse ++ front).takeWhile (· ≠ '/') = name.reverse ++ front.takeWhile (· ≠ '/') :=
  List.takeWhile_append_of_pos fun _ hc =>
    decide_eq_true fun heq => h (heq ▸ List.mem_reverse.mp hc)

theorem baseName_of_no_slash {name : Text} (h : '/' ∉ name) : baseName name = name := by
  have hwhole := takeWhile_reverse h []
  rw [List.append_nil] at hwhole
  rw [baseName, hwhole]
  simp

theorem isAbsolute_of_no_slash {name : Text} (h : '/' ∉ name) : isAbsolute name = false := by
  rw [isAbsolute, decide_eq_false_iff_not]
  exact fun hhead => h (List.mem_of_head? hhead)

/-- The base name of a name in a directory is that name. -/
theorem baseName_join (directory : Text) {name : Text} (h : '/' ∉ name) :
    baseName (join directory name) = name := by
  unfold join
  rw [if_neg (by rw [isAbsolute_of_no_slash h]; exact Bool.false_ne_true)]
  split
  · next hend =>
    rw [Bool.or_eq_true, List.isEmpty_iff, decide_eq_true_eq] at hend
    obtain rfl | hend := hend
    · exact baseName_of_no_slash h
    · obtain ⟨init, rfl⟩ := List.getLast?_eq_some_iff.mp hend
      rw [baseName, List.reverse_append, List.reverse_append, takeWhile_reverse h]
      simp
  · rw [baseName, List.reverse_append, List.reverse_cons, List.append_assoc, takeWhile_reverse h]
    simp

theorem root_of_no_slash {name : Text} (h : '/' ∉ name) : root name = [] := by
  unfold root
  split
  · exact absurd List.mem_cons_self h
  · exact absurd List.mem_cons_self h
  · exact absurd List.mem_cons_self h
  · rfl

theorem components_of_isName {name : Text} (h : IsName name) : components name = [name] := by
  rw [components, Text.splitOn_of_not_mem h.no_slash, List.filter_cons_of_pos]
  · rfl
  · simpa using ⟨h.ne_nil, h.ne_current⟩

/-- Normalising a name changes nothing. -/
theorem normalise_of_isName {name : Text} (h : IsName name) : normalise name = name := by
  have hkept : (collapse false [] [name]).reverse = [name] := by
    rw [collapse, if_neg h.ne_parent]
    rfl
  rw [normalise, root_of_no_slash h.no_slash, components_of_isName h]
  simp only [List.isEmpty_nil, Bool.not_true, hkept]
  exact if_neg (by simpa [Text.joinWith] using h.ne_nil)

/-! ## Joining -/

section Join

variable {base directory name : Text}

theorem join_of_ne_nil (hne : directory ≠ []) (h : '/' ∉ name) : join directory name =
    directory ++ if directory.getLast? = some '/' then name else '/' :: name := by
  have hempty : directory.isEmpty = false := by simpa using hne
  rw [join, if_neg (by rw [isAbsolute_of_no_slash h]; exact Bool.false_ne_true), hempty, Bool.false_or]
  simp only [decide_eq_true_eq]
  split <;> rfl

theorem isAbsolute_join_of_ne_nil (hne : directory ≠ []) (h : '/' ∉ name) :
    isAbsolute (join directory name) = isAbsolute directory := by
  rw [join_of_ne_nil hne h, isAbsolute, isAbsolute, List.head?_append_of_ne_nil _ hne]

theorem join_join (hne : directory ≠ []) (h : '/' ∉ name) :
    join base (join directory name) = join (join base directory) name := by
  cases habsolute : isAbsolute directory with
  | true =>
    rw [join, if_pos (by rw [isAbsolute_join_of_ne_nil hne h, habsolute]), join.eq_1 base, if_pos habsolute]
  | false =>
    have hlast (front : Text) : (front ++ directory).getLast? = directory.getLast? :=
      List.getLast?_append_of_ne_nil _ hne
    rw [join.eq_1 base, join.eq_1 base, isAbsolute_join_of_ne_nil hne h, habsolute]
    simp only [Bool.false_eq_true, if_false]
    split
    · rw [join_of_ne_nil hne h, join_of_ne_nil (by simp [hne]) h, hlast, List.append_assoc]
    · rw [join_of_ne_nil hne h, join_of_ne_nil (by simp) h, List.append_cons base '/' directory, hlast,
        List.append_assoc (base ++ ['/']), ← List.append_cons]

theorem root_join (hbase : isAbsolute base = true) (h : IsName name) :
    root (join base name) = root base := by
  obtain ⟨rest, rfl⟩ := List.head?_eq_some_iff.mp (of_decide_eq_true hbase)
  obtain ⟨c, name, rfl⟩ := List.exists_cons_of_ne_nil h.ne_nil
  have hc : c ≠ '/' := fun heq => h.no_slash (heq ▸ List.mem_cons_self)
  rw [join_of_ne_nil (List.cons_ne_nil _ _) h.no_slash]
  cases rest with
  | nil => simp [root, hc]
  | cons d rest =>
    by_cases hd : d = '/'
    · cases rest with
      | nil => simp [root, hd, hc]
      | cons e rest => by_cases he : e = '/' <;> simp [root, hd, he]
    · simp [root, hd]

end Join

end Path

end HclTidy
