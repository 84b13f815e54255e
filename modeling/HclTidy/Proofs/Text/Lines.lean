import Mathlib
import HclTidy.Text.Blank

/-!
# Lines and white space at their ends

Splitting at line feeds and joining are inverse to each other. Trimming removes a run of blank
characters and nothing else, so that blanks put in front of a text or behind it do not change what
is left of it.
-/

set_option autoImplicit false

namespace HclTidy.Text

theorem splitOn_cons (separator c : Char) (t : Text) :
    splitOn separator (c :: t) =
      if c = separator then [] :: splitOn separator t
      else match splitOn separator t with
        | [] => [[c]]
        | piece :: rest => (c :: piece) :: rest := rfl

theorem splitOn_append_separator (separator : Char) (a b : Text) :
    splitOn separator (a ++ separator :: b) = splitOn separator a ++ splitOn separator b := by
  induction a with
  | nil => simp [splitOn_cons]
  | cons c a ih =>
    rw [List.cons_append, splitOn_cons, splitOn_cons, ih]
    split
    · rfl
    · cases h : splitOn separator a with
      | nil => exact absurd h (splitOn_ne_nil _ _)
      | cons piece rest => rfl

theorem splitOn_of_not_mem {separator : Char} {t : Text} (h : separator ∉ t) :
    splitOn separator t = [t] := by
  induction t with
  | nil => rfl
  | cons c t ih =>
    rw [List.mem_cons, not_or] at h
    rw [splitOn_cons, ih h.2, if_neg (fun e => h.1 e.symm)]

theorem not_mem_of_mem_splitOn (separator : Char) (t : Text) :
    ∀ piece ∈ splitOn separator t, separator ∉ piece := by
  induction t with
  | nil => simp
  | cons c t ih =>
    rw [splitOn_cons]
    split
    · simpa using ih
    · next hc =>
      cases hpieces : splitOn separator t with
      | nil => simpa using Ne.symm hc
      | cons piece rest =>
        rw [hpieces, List.forall_mem_cons] at ih
        refine List.forall_mem_cons.mpr ⟨?_, ih.2⟩
        rw [List.mem_cons, not_or]
        exact ⟨Ne.symm hc, ih.1⟩

theorem lines_append_newline {a : Text} (b : Text) (h : '\n' ∉ a) :
    lines (a ++ '\n' :: b) = a :: lines b := by
  rw [lines, splitOn_append_separator, splitOn_of_not_mem h]
  rfl

theorem lines_of_not_mem {a : Text} (h : '\n' ∉ a) : lines a = [a] := splitOn_of_not_mem h

theorem lines_ne_nil (t : Text) : lines t ≠ [] := splitOn_ne_nil _ _

/-- Either the text is one line, or it is a first line, a line feed and the rest. -/
theorem eq_or_append_newline (t : Text) :
    '\n' ∉ t ∨ ∃ a b, '\n' ∉ a ∧ t = a ++ '\n' :: b := by
  by_cases h : '\n' ∈ t
  · obtain ⟨a, b, rfl, ha⟩ := List.eq_append_cons_of_mem h
    exact .inr ⟨a, b, ha, rfl⟩
  · exact .inl h

theorem joinWith_cons_cons (separator a b : Text) (rest : List Text) :
    joinWith separator (a :: b :: rest) = a ++ separator ++ joinWith separator (b :: rest) := rfl

theorem joinWith_cons_of_ne_nil (separator a : Text) {rest : List Text} (h : rest ≠ []) :
    joinWith separator (a :: rest) = a ++ separator ++ joinWith separator rest := by
  cases rest with
  | nil => exact absurd rfl h
  | cons b rest => rfl

theorem joinWith_append (separator : Text) {xs ys : List Text} (hx : xs ≠ []) (hy : ys ≠ []) :
    joinWith separator (xs ++ ys) = joinWith separator xs ++ separator ++ joinWith separator ys := by
  induction xs with
  | nil => exact absurd rfl hx
  | cons a xs ih =>
    cases xs with
    | nil => exact joinWith_cons_of_ne_nil separator a hy
    | cons b xs =>
      rw [List.cons_append, joinWith_cons_of_ne_nil _ _ (by simp), ih (by simp),
        joinWith_cons_cons]
      simp only [List.append_assoc]

theorem unlines_cons {a : Text} {rest : List Text} (h : rest ≠ []) :
    unlines (a :: rest) = a ++ '\n' :: unlines rest := by
  rw [unlines, joinWith_cons_of_ne_nil _ _ h, unlines]
  simp only [List.append_assoc, List.singleton_append]

theorem unlines_append {xs ys : List Text} (hx : xs ≠ []) (hy : ys ≠ []) :
    unlines (xs ++ ys) = unlines xs ++ '\n' :: unlines ys := by
  rw [unlines, joinWith_append _ hx hy, unlines, unlines]
  simp only [List.append_assoc, List.singleton_append]

@[simp] theorem unlines_singleton (a : Text) : unlines [a] = a := rfl

theorem unlines_lines (t : Text) : unlines (lines t) = t := by
  induction h : t.length using Nat.strong_induction_on generalizing t with
  | _ n ih =>
    obtain hn | ⟨a, b, ha, rfl⟩ := eq_or_append_newline t
    · rw [lines_of_not_mem hn, unlines_singleton]
    · rw [lines_append_newline b ha, unlines_cons (lines_ne_nil b)]
      rw [ih b.length (by rw [← h]; simp; omega) b rfl]

theorem lines_unlines {ls : List Text} (hne : ls ≠ []) (h : ∀ l ∈ ls, '\n' ∉ l) :
    lines (unlines ls) = ls := by
  induction ls with
  | nil => exact absurd rfl hne
  | cons a ls ih =>
    cases ls with
    | nil => exact lines_of_not_mem (h a (by simp))
    | cons b ls =>
      rw [unlines_cons (by simp), lines_append_newline _ (h a (by simp)),
        ih (by simp) (fun l hl => h l (by simp [hl]))]

theorem lines_length (t : Text) : (lines t).length = t.count '\n' + 1 := by
  induction h : t.length using Nat.strong_induction_on generalizing t with
  | _ n ih =>
    obtain hn | ⟨a, b, ha, rfl⟩ := eq_or_append_newline t
    · rw [lines_of_not_mem hn, List.count_eq_zero.mpr hn]
      rfl
    · rw [lines_append_newline b ha, List.length_cons, ih b.length (by rw [← h]; simp; omega) b rfl,
        List.count_append, List.count_eq_zero.mpr ha, List.count_cons_self]
      omega

theorem newline_not_mem_lines (t : Text) : ∀ l ∈ lines t, '\n' ∉ l := not_mem_of_mem_splitOn '\n' t

/-- Text behind joined lines goes on with the last of them. -/
theorem lines_unlines_append {ls : List Text} (hne : ls ≠ []) (h : ∀ l ∈ ls, '\n' ∉ l) (t : Text) :
    lines (unlines ls ++ t) = ls.dropLast ++ lines (ls.getLast hne ++ t) := by
  induction ls with
  | nil => exact absurd rfl hne
  | cons a ls ih =>
    cases ls with
    | nil => rfl
    | cons b ls =>
      rw [unlines_cons (by simp), List.append_assoc, List.cons_append,
        lines_append_newline _ (h a (List.mem_cons_self ..)),
        ih (by simp) (fun l hl => h l (List.mem_cons_of_mem _ hl))]
      rfl

/-- A first line feed behind another character lies behind it in the rest of the text too. -/
theorem eq_cons_of_cons_eq {c : Char} {t a b : Text} (h : c :: t = a ++ '\n' :: b)
    (ha : '\n' ∉ a) (hc : c ≠ '\n') : ∃ a', a = c :: a' ∧ t = a' ++ '\n' :: b ∧ '\n' ∉ a' := by
  cases a with
  | nil =>
    cases h
    exact absurd rfl hc
  | cons d a' =>
    cases h
    exact ⟨a', rfl, rfl, fun h => ha (List.mem_cons_of_mem _ h)⟩

/-! ## Trimming -/

theorem head?_of_isPrefix {α : Type} {xs ys : List α} {x : α} (h : xs <+: ys)
    (hx : xs.head? = some x) : ys.head? = some x := by
  obtain ⟨zs, rfl⟩ := h
  rw [List.head?_append, hx]
  rfl

theorem trimRight_eq_rdropWhile (t : Text) : trimRight t = t.rdropWhile isBlank := rfl

theorem exists_trimRight (t : Text) : ∃ b, (∀ c ∈ b, isBlank c = true) ∧ t = trimRight t ++ b :=
  ⟨t.rtakeWhile isBlank, fun _ hc => List.mem_rtakeWhile_imp hc,
    List.rdropWhile_append_rtakeWhile.symm⟩

theorem exists_trimLeft (t : Text) : ∃ b, (∀ c ∈ b, isBlank c = true) ∧ t = b ++ trimLeft t :=
  ⟨t.takeWhile isBlank, fun _ hc => List.mem_takeWhile_imp hc, List.takeWhile_append_dropWhile.symm⟩

theorem trimLeft_subset (t : Text) : trimLeft t ⊆ t := (List.dropWhile_sublist _).subset

theorem trimRight_isPrefix (t : Text) : trimRight t <+: t := by
  obtain ⟨b, -, ht⟩ := exists_trimRight t
  exact ⟨b, ht.symm⟩

theorem trimRight_subset (t : Text) : trimRight t ⊆ t := (trimRight_isPrefix t).subset

theorem trim_subset (t : Text) : trim t ⊆ t :=
  List.Subset.trans (trimRight_subset _) (trimLeft_subset t)

@[simp] theorem trimRight_nil : trimRight [] = [] := rfl

@[simp] theorem trimLeft_nil : trimLeft [] = [] := rfl

theorem trimRight_append_blank (a : Text) {b : Text} (h : ∀ c ∈ b, isBlank c = true) :
    trimRight (a ++ b) = trimRight a := by
  induction b using List.reverseRecOn with
  | nil => rw [List.append_nil]
  | append_singleton b c ih =>
    rw [← List.append_assoc, trimRight_eq_rdropWhile,
      List.rdropWhile_concat_pos _ _ _ (h c (by simp))]
    exact ih (fun d hd => h d (by simp [hd]))

theorem trimRight_concat {c : Char} (a : Text) (h : isBlank c = false) :
    trimRight (a ++ [c]) = a ++ [c] := by
  rw [trimRight_eq_rdropWhile, List.rdropWhile_concat_neg _ _ _ (by simp [h])]

theorem trimRight_eq_nil_iff {t : Text} : trimRight t = [] ↔ ∀ c ∈ t, isBlank c = true :=
  List.rdropWhile_eq_nil_iff

theorem trimLeft_eq_nil_iff {t : Text} : trimLeft t = [] ↔ ∀ c ∈ t, isBlank c = true :=
  List.dropWhile_eq_nil_iff

theorem trimRight_idem (t : Text) : trimRight (trimRight t) = trimRight t :=
  List.rdropWhile_idempotent _ _

theorem trimRight_append {a b : Text} (h : trimRight b ≠ []) :
    trimRight (a ++ b) = a ++ trimRight b := by
  obtain ⟨g, hg, hb⟩ := exists_trimRight b
  obtain ⟨s, c, hs⟩ := (List.eq_nil_or_concat' (trimRight b)).resolve_left h
  have hc : isBlank c = false := by
    have hl := List.rdropWhile_last_not isBlank b h
    simp only [← trimRight_eq_rdropWhile, hs] at hl
    simpa using hl
  calc
    trimRight (a ++ b) = trimRight (a ++ trimRight b ++ g) := by rw [List.append_assoc, ← hb]
    _ = trimRight (a ++ trimRight b) := trimRight_append_blank _ hg
    _ = a ++ trimRight b := by rw [hs, ← List.append_assoc, trimRight_concat _ hc]

theorem trimRight_cons_of_ne_nil (c : Char) {a : Text} (h : trimRight a ≠ []) :
    trimRight (c :: a) = c :: trimRight a := trimRight_append (a := [c]) h

theorem trimRight_cons_of_eq_nil {c : Char} {a : Text} (h : trimRight a = [])
    (hc : isBlank c = true) : trimRight (c :: a) = [] := by
  rw [trimRight_eq_nil_iff] at h ⊢
  intro d hd
  obtain rfl | hd := List.mem_cons.mp hd
  · exact hc
  · exact h d hd

theorem trimRight_cons_of_not_blank {c : Char} (a : Text) (hc : isBlank c = false) :
    trimRight (c :: a) = c :: trimRight a := by
  by_cases h : trimRight a = []
  · rw [h]
    exact (trimRight_append_blank [c] (trimRight_eq_nil_iff.mp h)).trans (trimRight_concat [] hc)
  · exact trimRight_cons_of_ne_nil c h

theorem trimRight_append_trimRight (a b : Text) : trimRight (a ++ trimRight b) = trimRight (a ++ b) := by
  by_cases h : trimRight b = []
  · rw [h, List.append_nil, trimRight_append_blank a (trimRight_eq_nil_iff.mp h)]
  · rw [trimRight_append h, trimRight_append (by rw [trimRight_idem]; exact h), trimRight_idem]

theorem trimRight_append_congr (a : Text) {b b' : Text} (h : trimRight b = trimRight b') :
    trimRight (a ++ b) = trimRight (a ++ b') := by
  rw [← trimRight_append_trimRight a b, h, trimRight_append_trimRight]

theorem trimLeft_blank_append {a : Text} (b : Text) (h : ∀ c ∈ a, isBlank c = true) :
    trimLeft (a ++ b) = trimLeft b := List.dropWhile_append_of_pos h

theorem trimLeft_cons {c : Char} (t : Text) (h : isBlank c = false) :
    trimLeft (c :: t) = c :: t := by
  rw [trimLeft, List.dropWhile_cons_of_neg (by simp [h])]

theorem trimLeft_append {a : Text} (b : Text) (h : trimLeft a ≠ []) :
    trimLeft (a ++ b) = trimLeft a ++ b := by
  rw [trimLeft, List.dropWhile_append, if_neg (by simpa [trimLeft] using h)]
  rfl

theorem trim_eq_nil_iff {t : Text} : trim t = [] ↔ ∀ c ∈ t, isBlank c = true := by
  obtain ⟨b, hb, ht⟩ := exists_trimLeft t
  rw [trim, trimRight_eq_nil_iff]
  refine ⟨fun h c hc => ?_, fun h c hc => h c ((List.dropWhile_suffix _).subset hc)⟩
  rw [ht] at hc
  obtain hc | hc := List.mem_append.mp hc
  · exact hb c hc
  · exact h c hc

theorem trimRight_trim (t : Text) : trimRight (trim t) = trim t := trimRight_idem _

/-- White space in front of a text does not change its end. -/
theorem getLast?_trim {t : Text} (h : trimRight t ≠ []) : (trim t).getLast? = (trimRight t).getLast? := by
  obtain ⟨b, hb, ht⟩ := exists_trimLeft t
  have hne : trim t ≠ [] := by
    intro hnil
    have hblank := trimRight_eq_nil_iff.mp hnil
    refine h (trimRight_eq_nil_iff.mpr ?_)
    rw [ht]
    intro c hc
    obtain hc | hc := List.mem_append.mp hc
    · exact hb c hc
    · exact hblank c hc
  have hsplit : trimRight t = b ++ trim t := by
    conv_lhs => rw [ht]
    exact trimRight_append hne
  rw [hsplit, List.getLast?_append_of_ne_nil _ hne]

/-- White space removed at the end of the first line. -/
def trimFirst (t : Text) : Text :=
  trimRight (t.takeWhile (· ≠ '\n')) ++ t.dropWhile (· ≠ '\n')

/-- White space removed at the ends of the first and the last line. -/
def trimEnds (t : Text) : Text := trimRight (trimFirst t)

theorem trimFirst_of_not_mem {t : Text} (h : '\n' ∉ t) : trimFirst t = trimRight t := by
  have hall : ∀ c ∈ t, decide (c ≠ '\n') = true := fun c hc => decide_eq_true fun he => h (he ▸ hc)
  rw [trimFirst, List.takeWhile_eq_self_iff.mpr hall, List.dropWhile_eq_nil_iff.mpr hall,
    List.append_nil]

theorem trimFirst_append_newline {a : Text} (b : Text) (h : '\n' ∉ a) :
    trimFirst (a ++ '\n' :: b) = trimRight a ++ '\n' :: b := by
  have hall : ∀ c ∈ a, decide (c ≠ '\n') = true := fun c hc => decide_eq_true fun he => h (he ▸ hc)
  rw [trimFirst, List.takeWhile_append_of_pos hall, List.dropWhile_append_of_pos hall,
    List.takeWhile_cons_of_neg (by simp), List.dropWhile_cons_of_neg (by simp), List.append_nil]

theorem newline_not_mem_trimRight {a : Text} (h : '\n' ∉ a) : '\n' ∉ trimRight a :=
  fun hm => h (trimRight_subset a hm)

/-- Only the first line loses white space at its end. -/
theorem takeWhile_trimFirst (t : Text) :
    trimRight ((trimFirst t).takeWhile (· ≠ '\n')) = trimRight (t.takeWhile (· ≠ '\n')) ∧
      (trimFirst t).dropWhile (· ≠ '\n') = t.dropWhile (· ≠ '\n') := by
  have hall {a : Text} (h : '\n' ∉ a) : ∀ c ∈ a, decide (c ≠ '\n') = true :=
    fun c hc => decide_eq_true fun he => h (he ▸ hc)
  obtain hn | ⟨a, b, ha, rfl⟩ := eq_or_append_newline t
  · have hn' := newline_not_mem_trimRight hn
    rw [trimFirst_of_not_mem hn, List.takeWhile_eq_self_iff.mpr (hall hn),
      List.takeWhile_eq_self_iff.mpr (hall hn'), trimRight_idem,
      List.dropWhile_eq_nil_iff.mpr (hall hn), List.dropWhile_eq_nil_iff.mpr (hall hn')]
    exact ⟨rfl, rfl⟩
  · have ha' := newline_not_mem_trimRight ha
    rw [trimFirst_append_newline b ha, List.takeWhile_append_of_pos (hall ha),
      List.takeWhile_append_of_pos (hall ha'), List.dropWhile_append_of_pos (hall ha),
      List.dropWhile_append_of_pos (hall ha')]
    simp [trimRight_idem]

theorem count_newline_trimFirst (t : Text) : (trimFirst t).count '\n' = t.count '\n' := by
  obtain h | ⟨a, b, ha, rfl⟩ := eq_or_append_newline t
  · rw [trimFirst_of_not_mem h, List.count_eq_zero.mpr h,
      List.count_eq_zero.mpr (newline_not_mem_trimRight h)]
  · rw [trimFirst_append_newline b ha, List.count_append, List.count_append,
      List.count_eq_zero.mpr ha, List.count_eq_zero.mpr (newline_not_mem_trimRight ha)]

theorem trimFirst_idem (t : Text) : trimFirst (trimFirst t) = trimFirst t := by
  obtain h | ⟨a, b, ha, rfl⟩ := eq_or_append_newline t
  · rw [trimFirst_of_not_mem h, trimFirst_of_not_mem (newline_not_mem_trimRight h), trimRight_idem]
  · rw [trimFirst_append_newline b ha, trimFirst_append_newline b (newline_not_mem_trimRight ha),
      trimRight_idem]

theorem trimEnds_trimFirst (t : Text) : trimEnds (trimFirst t) = trimEnds t := by
  rw [trimEnds, trimFirst_idem, trimEnds]

theorem trimEnds_trimRight (t : Text) : trimEnds (trimRight t) = trimEnds t := by
  unfold trimEnds
  obtain h | ⟨a, b, ha, rfl⟩ := eq_or_append_newline t
  · rw [trimFirst_of_not_mem h, trimFirst_of_not_mem (newline_not_mem_trimRight h), trimRight_idem]
  · rw [trimFirst_append_newline b ha]
    by_cases hb : trimRight b = []
    · have hblank : trimRight ('\n' :: b) = [] := trimRight_cons_of_eq_nil hb (by decide)
      rw [trimRight_append_blank _ (trimRight_eq_nil_iff.mp hblank),
        trimRight_append_blank _ (trimRight_eq_nil_iff.mp hblank),
        trimFirst_of_not_mem (newline_not_mem_trimRight ha), trimRight_idem, trimRight_idem]
    · have hcons : trimRight ('\n' :: b) = '\n' :: trimRight b := trimRight_cons_of_ne_nil _ hb
      have hne : trimRight ('\n' :: b) ≠ [] := by simp [hcons]
      rw [trimRight_append hne, trimRight_append hne, hcons, trimFirst_append_newline _ ha,
        trimRight_append (by rw [← hcons, trimRight_idem]; exact hne), ← hcons, trimRight_idem]

end HclTidy.Text
