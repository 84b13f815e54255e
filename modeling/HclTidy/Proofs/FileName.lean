import HclTidy.FileName
import HclTidy.Proofs.Path

/-!
# Sanitized names

Every label becomes a safe name. The rewrites of `sanitize` keep what the earlier ones have
established: squeezing one character makes no pair of another, and trimming and cutting only leave
out ends. Safe names are left as they are, so sanitizing a second time changes nothing.
-/

set_option autoImplicit false

namespace HclTidy.FileName

/-- Printable ASCII without the space and without what may have a meaning in a path. -/
def IsAllowed (c : Char) : Prop :=
  32 < c.toNat ∧ c.toNat < 127 ∧ c ∉ ['/', '\\', ':', '*', '?', '"', '<', '>', '|']

instance (c : Char) : Decidable (IsAllowed c) := inferInstanceAs (Decidable (_ ∧ _ ∧ _))

/-- Allowed characters, and no two points or underscores beside each other. -/
structure IsClean (t : Text) : Prop where
  allowed : ∀ c ∈ t, IsAllowed c
  points : ¬['.', '.'] <:+: t
  underscores : ¬['_', '_'] <:+: t

/-- Neither end is a point or an underscore. -/
structure IsTrimmed (t : Text) : Prop where
  first : ∀ c ∈ t.head?, c ≠ '_' ∧ c ≠ '.'
  last : ∀ c ∈ t.getLast?, c ≠ '_' ∧ c ≠ '.'

/-- Clean, trimmed and not too long. -/
structure IsTidy (t : Text) : Prop extends IsClean t, IsTrimmed t where
  length_le : t.length ≤ 200

/-- A name that can be a component of a path anywhere: tidy, not empty, and in no letter case the
name of a device. -/
structure IsSafe (name : Text) : Prop extends IsTidy name where
  ne_nil : name ≠ []
  not_reserved : ∀ r ∈ reservedNames, name.map Char.toLower ≠ r.map Char.toLower

/-! ## Runs of one character -/

section Squeeze

variable {a c d : Char} {t : Text}

theorem pair_infix_cons : [d, d] <:+: a :: t ↔ a = d ∧ t.head? = some d ∨ [d, d] <:+: t := by
  have hhead : [d] <+: t ↔ t.head? = some d := by cases t <;> simp [eq_comm]
  rw [List.infix_cons_iff, List.cons_prefix_cons, hhead, eq_comm]

theorem head?_squeeze (c : Char) (t : Text) : (squeeze c t).head? = t.head? := by
  fun_induction squeeze c t with
  | case1 a b rest h ih =>
    simp only [Bool.and_eq_true, decide_eq_true_eq] at h
    rw [ih, h.1, h.2]
    rfl
  | case2 => rfl
  | case3 => rfl

theorem squeeze_subset (c : Char) (t : Text) : squeeze c t ⊆ t := by
  fun_induction squeeze c t with
  | case1 a b rest _ ih => exact List.subset_cons_of_subset a ih
  | case2 a b rest _ ih => exact List.cons_subset_cons a ih
  | case3 => exact List.Subset.refl _

/-- Squeezing leaves a pair only where one was before, and none of the character itself. -/
theorem pair_squeeze (h : [d, d] <:+: squeeze c t) : d ≠ c ∧ [d, d] <:+: t := by
  fun_induction squeeze c t with
  | case1 a b rest _ ih =>
    obtain ⟨hne, hpair⟩ := ih h
    exact ⟨hne, pair_infix_cons.mpr (.inr hpair)⟩
  | case2 a b rest hrun ih =>
    rw [pair_infix_cons, head?_squeeze] at h
    obtain ⟨rfl, hhead⟩ | h := h
    · obtain rfl : b = a := Option.some.inj hhead
      exact ⟨by simpa using hrun, pair_infix_cons.mpr (.inl ⟨rfl, rfl⟩)⟩
    · obtain ⟨hne, hpair⟩ := ih h
      exact ⟨hne, pair_infix_cons.mpr (.inr hpair)⟩
  | case3 short hshort =>
    obtain ⟨before, after, rfl⟩ := h
    cases before with
    | nil => exact absurd rfl (hshort d d after)
    | cons a before => cases before <;> exact absurd rfl (hshort a _ _)

theorem squeeze_self (h : ¬[c, c] <:+: t) : squeeze c t = t := by
  fun_induction squeeze c t with
  | case1 a b rest hrun _ =>
    simp only [Bool.and_eq_true, decide_eq_true_eq] at hrun
    obtain ⟨rfl, rfl⟩ := hrun
    exact absurd (pair_infix_cons.mpr (.inl ⟨rfl, rfl⟩)) h
  | case2 a b rest _ ih => rw [ih fun hpair => h (pair_infix_cons.mpr (.inr hpair))]
  | case3 => rfl

end Squeeze

/-! ## Ends -/

section Ends

variable {t : Text}

theorem isFiller_eq_false {c : Char} : isFiller c = false ↔ c ≠ '_' ∧ c ≠ '.' := by
  simp [isFiller]

theorem trimFillersRight_eq_rdropWhile (t : Text) : trimFillersRight t = t.rdropWhile isFiller := rfl

theorem trimFillersRight_isPrefix (t : Text) : trimFillersRight t <+: t :=
  List.rdropWhile_prefix _ _

theorem trimFillers_isInfix (t : Text) : trimFillers t <:+: t :=
  (trimFillersRight_isPrefix _).isInfix.trans (List.dropWhile_suffix _).isInfix

theorem isTrimmed_trimFillersRight (h : ∀ c ∈ t.head?, c ≠ '_' ∧ c ≠ '.') :
    IsTrimmed (trimFillersRight t) := by
  refine ⟨fun c hc => h c (Text.head?_of_isPrefix (trimFillersRight_isPrefix t) hc), fun c hc => ?_⟩
  rw [trimFillersRight_eq_rdropWhile] at hc
  obtain ⟨hne, rfl⟩ := List.mem_getLast?_eq_getLast hc
  exact isFiller_eq_false.mp (Bool.eq_false_of_not_eq_true (List.rdropWhile_last_not _ _ hne))

theorem isTrimmed_trimFillers (t : Text) : IsTrimmed (trimFillers t) := by
  refine isTrimmed_trimFillersRight fun c hc => ?_
  have hfirst := List.head?_dropWhile_not isFiller t
  rw [hc] at hfirst
  exact isFiller_eq_false.mp hfirst

theorem trimFillers_self (h : IsTrimmed t) : trimFillers t = t := by
  have hfront : t.dropWhile isFiller = t := by
    cases t with
    | nil => rfl
    | cons c t =>
      have hfirst := isFiller_eq_false.mpr (h.first c rfl)
      exact List.dropWhile_cons_of_neg (by simpa using hfirst)
  rw [trimFillers, hfront, trimFillersRight_eq_rdropWhile, List.rdropWhile_eq_self_iff]
  intro hne
  rw [isFiller_eq_false.mpr (h.last _ (List.getLast?_eq_some_getLast hne))]
  exact Bool.false_ne_true

end Ends

/-! ## The rewrites one after the other -/

theorem IsClean.of_isInfix {s t : Text} (h : IsClean t) (hs : s <:+: t) : IsClean s where
  allowed c hc := h.allowed c (hs.subset hc)
  points hpair := h.points (hpair.trans hs)
  underscores hpair := h.underscores (hpair.trans hs)

theorem isClean_squeeze {t : Text} (h : ∀ c ∈ t, IsAllowed c) :
    IsClean (squeeze '.' (squeeze '_' t)) where
  allowed c hc := h c (squeeze_subset _ _ (squeeze_subset _ _ hc))
  points hpair := (pair_squeeze hpair).1 rfl
  underscores hpair := (pair_squeeze (pair_squeeze hpair).2).1 rfl

theorem isUnsafe_eq_false {c : Char} (hc : c ≠ '/') : isUnsafe c = false ↔ IsAllowed c := by
  have hspace : c = ' ' ↔ c.toNat = 32 := by rw [← Char.toNat_inj]; rfl
  have hunsafe : ":*?\"<>| \\".toList = [':', '*', '?', '"', '<', '>', '|', ' ', '\\'] := rfl
  simp only [isUnsafe, hunsafe, IsAllowed, Bool.or_eq_false_iff, List.contains_cons,
    List.contains_nil, beq_eq_false_iff_ne, decide_eq_false_iff_not, List.mem_cons,
    List.not_mem_nil, not_or, hspace, ne_eq]
  grind

theorem isAllowed_replace {c : Char} (hc : c ≠ '/') : IsAllowed (if isUnsafe c then '_' else c) := by
  split
  · decide
  · next hsafe => exact (isUnsafe_eq_false hc).mp (Bool.eq_false_of_not_eq_true hsafe)

theorem isTidy_cut {t : Text} (hclean : IsClean t) (htrimmed : IsTrimmed t) :
    IsTidy (if t.length > maxSanitizedLength then trimFillersRight (t.take maxSanitizedLength)
      else t) := by
  split
  · have hcut := trimFillersRight_isPrefix (t.take maxSanitizedLength)
    refine ⟨hclean.of_isInfix (hcut.trans (List.take_prefix _ _)).isInfix,
      isTrimmed_trimFillersRight fun c hc =>
        htrimmed.first c (Text.head?_of_isPrefix (List.take_prefix _ _) hc), ?_⟩
    exact hcut.length_le.trans (List.length_take_le _ _)
  · next hlength => exact ⟨hclean, htrimmed, Nat.le_of_not_lt hlength⟩

theorem isTidy_unnamed : IsTidy unnamed where
  allowed := by
    change ∀ c ∈ "unnamed".toList, IsAllowed c
    simp [IsAllowed]
  points := by decide
  underscores := by decide
  first := by rintro c ⟨⟩; decide
  last := by rintro c ⟨⟩; decide
  length_le := by decide

theorem isTidy_kept {t : Text} (h : IsTidy t) : IsTidy (if t.isEmpty then unnamed else t) := by
  split
  · exact isTidy_unnamed
  · exact h

theorem ne_nil_kept (t : Text) : (if t.isEmpty then unnamed else t) ≠ [] := by
  split
  · decide
  · next hne => simpa using hne

/-! ## Names of devices -/

theorem isReserved_eq_false {name : Text} :
    isReserved name = false ↔ ∀ r ∈ reservedNames, name.map Char.toLower ≠ r.map Char.toLower := by
  have hupper : (name.map Char.toLower).map Char.toUpper = name.map Char.toUpper := by simp
  have hlower : (name.map Char.toUpper).map Char.toLower = name.map Char.toLower := by simp
  have hnames : ∀ r ∈ reservedNames, (r.map Char.toLower).map Char.toUpper = r := by decide
  rw [← Bool.not_eq_true, isReserved, List.contains_iff_mem]
  constructor
  · rintro hfree r hr heq
    rw [← hupper, heq, hnames r hr] at hfree
    exact hfree hr
  · exact fun hfree hr => hfree _ hr hlower.symm

/-- A name of a device becomes safe by the prefix: no device has an underscore in its name. -/
theorem isSafe_device {name : Text} (h : IsTidy name) (hne : name ≠ [])
    (hreserved : isReserved name = true) : IsSafe ("tf_".toList ++ name) where
  allowed := by
    refine List.forall_mem_append.mpr ⟨?_, h.allowed⟩
    simp [IsAllowed]
  points := by simpa [pair_infix_cons] using h.points
  underscores := by
    have hfirst : name.head? ≠ some '_' := fun hhead => (h.first '_' hhead).1 rfl
    simpa [pair_infix_cons, hfirst] using h.underscores
  first := by
    rintro c ⟨⟩
    decide
  last c hc := by
    rw [List.getLast?_append_of_ne_nil _ hne] at hc
    exact h.last c hc
  length_le := by
    have hshort : ∀ r ∈ reservedNames, r.length ≤ 4 := by decide
    have hlength := hshort _ (List.contains_iff_mem.mp hreserved)
    rw [List.length_map] at hlength
    have hfront : "tf_".toList.length = 3 := rfl
    rw [List.length_append, hfront]
    omega
  ne_nil := List.append_ne_nil_of_right_ne_nil _ hne
  not_reserved r hr heq := by
    have hplain : ∀ r ∈ reservedNames, '_' ∉ r.map Char.toLower := by decide
    refine hplain r hr ?_
    rw [← heq]
    exact List.mem_map.mpr ⟨'_', by simp, rfl⟩

theorem isSafe_kept {name : Text} (h : IsTidy name) (hne : name ≠ []) :
    IsSafe (if isReserved name then "tf_".toList ++ name else name) := by
  split
  · next hreserved => exact isSafe_device h hne hreserved
  · next hfree =>
    exact ⟨h, hne, isReserved_eq_false.mp (Bool.eq_false_of_not_eq_true hfree)⟩

/-! ## All labels -/

theorem isSafe_sanitize (name : Text) : IsSafe (sanitize name) := by
  have hallowed : ∀ c ∈ (Path.baseName (Path.normalise name)).map
      (fun c => if isUnsafe c then '_' else c), IsAllowed c := by
    intro c hc
    obtain ⟨d, hd, rfl⟩ := List.mem_map.mp hc
    exact isAllowed_replace fun heq => Path.no_slash_baseName _ (heq ▸ hd)
  unfold sanitize
  split
  · have hunnamed := isSafe_kept isTidy_unnamed (by decide)
    rwa [if_neg (by decide)] at hunnamed
  · exact isSafe_kept (isTidy_kept (isTidy_cut
      ((isClean_squeeze hallowed).of_isInfix (trimFillers_isInfix _)) (isTrimmed_trimFillers _)))
      (ne_nil_kept _)

theorem IsSafe.isName {name : Text} (h : IsSafe name) : IsName name where
  ne_nil := h.ne_nil
  no_slash hmem := (h.allowed _ hmem).2.2 List.mem_cons_self
  ne_current := by
    rintro rfl
    exact (h.first '.' rfl).2 rfl
  ne_parent := by
    rintro rfl
    exact (h.first '.' rfl).2 rfl

theorem sanitize_of_isSafe {name : Text} (h : IsSafe name) : sanitize name = name := by
  have hname := h.isName
  have hmap : name.map (fun c => if isUnsafe c then '_' else c) = name := by
    refine (List.map_congr_left fun c hc => ?_).trans (List.map_id _)
    rw [(isUnsafe_eq_false fun heq => hname.no_slash (heq ▸ hc)).mpr (h.allowed c hc)]
    rfl
  have hempty : name.isEmpty = false := by simpa using h.ne_nil
  have hlength : ¬name.length > maxSanitizedLength := Nat.not_lt.mpr h.length_le
  have hreserved := isReserved_eq_false.mpr h.not_reserved
  simp only [sanitize, Path.normalise_of_isName hname, Path.baseName_of_no_slash hname.no_slash,
    hmap, squeeze_self h.underscores, squeeze_self h.points, trimFillers_self h.toIsTrimmed,
    hempty, hreserved, if_neg hlength, Bool.false_eq_true, if_false]

/-- Exactly the safe names are left as they are. -/
theorem sanitize_eq_self_iff {name : Text} : sanitize name = name ↔ IsSafe name :=
  ⟨fun h => h ▸ isSafe_sanitize name, sanitize_of_isSafe⟩

/-- Every label becomes a safe name, and sanitizing that once more changes nothing. -/
theorem sanitize_isSafe_and_idem (name : Text) :
    IsSafe (sanitize name) ∧ sanitize (sanitize name) = sanitize name :=
  ⟨isSafe_sanitize name, sanitize_eq_self_iff.mpr (isSafe_sanitize name)⟩

example : sanitize "../../etc/con".toList = "tf_con".toList := by decide

end HclTidy.FileName
