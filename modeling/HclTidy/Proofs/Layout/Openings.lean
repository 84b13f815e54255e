import HclTidy.Proofs.Layout.Rows
import HclTidy.Proofs.Token.Brackets

/-!
# The openings count the open brackets

Each entry of the openings is at least 1, and together they are the number of brackets that the rows
above have opened and not closed. The rows above a line hold the tokens that begin above it.
-/

set_option autoImplicit false

namespace HclTidy.Layout

open Token

namespace Openings

/-- The number of brackets that are open. -/
def total (o : Openings) : Nat := o.sum

/-- No entry stands for no bracket. -/
def Positive (o : Openings) : Prop := ∀ n ∈ o, 1 ≤ n

theorem total_cons (n : Nat) (o : Openings) : total (n :: o) = n + total o := List.sum_cons

theorem Positive.eq_nil {o : Openings} (h : o.Positive) (htotal : o.total = 0) : o = [] := by
  cases o with
  | nil => rfl
  | cons n o =>
    have hn := h n (List.mem_cons_self ..)
    rw [total_cons] at htotal
    omega

end Openings

open Openings

/-! ## Closing brackets -/

theorem closeOne_positive {o : Openings} (h : o.Positive) : (closeOne o).Positive := by
  cases o with
  | nil => exact h
  | cons n o =>
    obtain ⟨hn, ho⟩ := List.forall_mem_cons.mp h
    rw [closeOne]
    split
    · exact ho
    · exact List.forall_mem_cons.mpr ⟨by omega, ho⟩

theorem closeOne_total {o : Openings} (h : o.Positive) (hne : o ≠ []) :
    (closeOne o).total + 1 = o.total := by
  cases o with
  | nil => exact absurd rfl hne
  | cons n o =>
    have hn := h n (List.mem_cons_self ..)
    rw [closeOne, total_cons]
    split
    · omega
    · rw [total_cons]
      omega

/-- The openings that are left behind the leading closers of a line. -/
def leftBehind (o : Openings) (tokens : List Token) : Openings :=
  (tokens.takeWhile Token.closes).foldl (fun o _ => closeOne o) o

theorem leftBehind_nil (tokens : List Token) : leftBehind [] tokens = [] := by
  unfold leftBehind
  induction tokens.takeWhile Token.closes with
  | nil => rfl
  | cons t tokens ih => exact ih

theorem closeLeading_fst (o : Openings) (tokens : List Token) :
    (closeLeading o tokens).1 = leftBehind o tokens := by
  induction tokens generalizing o with
  | nil => rfl
  | cons t tokens ih =>
    rw [closeLeading, leftBehind]
    cases ht : t.closes with
    | false => rw [List.takeWhile_cons_of_neg (by simp [ht])]; rfl
    | true =>
      rw [List.takeWhile_cons_of_pos ht, List.foldl_cons, ← leftBehind]
      cases o with
      | nil =>
        rw [closeOne, leftBehind_nil]
        rfl
      | cons n o => exact ih (closeOne (n :: o))

/-- What the leading closers of a line leave: fewer open brackets, and tokens that match the rest. -/
theorem closeLeading_total {o : Openings} (h : o.Positive) {tokens : List Token}
    (hcovered : Covered o.total tokens) :
    (closeLeading o tokens).1.Positive ∧ Covered (closeLeading o tokens).1.total (closeLeading o tokens).2 ∧
      (closeLeading o tokens).1.total + closed tokens + opened (closeLeading o tokens).2 =
        o.total + opened tokens + closed (closeLeading o tokens).2 := by
  induction tokens generalizing o with
  | nil => exact ⟨h, hcovered, rfl⟩
  | cons t tokens ih =>
    rw [closeLeading]
    split
    · next ht =>
      rw [Bool.and_eq_true, Bool.not_eq_true', List.isEmpty_eq_false_iff] at ht
      have hone := closeOne_total h ht.2
      have hopens := opens_of_closes ht.1
      obtain ⟨hpositive, hrest, htotal⟩ := ih (closeOne_positive h)
        (hcovered.cons (by simp [ht.1, hopens, hone]))
      refine ⟨hpositive, hrest, ?_⟩
      simp only [opened_cons, closed_cons, ht.1, hopens, Bool.false_eq_true, if_true, if_false]
      omega
    · exact ⟨h, hcovered, by dsimp only; omega⟩

theorem netBrackets_total {pending : Nat} {o : Openings} (h : o.Positive) {tokens : List Token}
    (hcovered : Covered (pending + o.total) tokens) :
    (netBrackets pending o tokens).2.Positive ∧
      (netBrackets pending o tokens).1 + (netBrackets pending o tokens).2.total + closed tokens =
        pending + o.total + opened tokens := by
  fun_induction netBrackets pending o tokens with
  | case1 => exact ⟨h, rfl⟩
  | case2 pending o t tokens hopens ih =>
    have hcloses := closes_of_opens hopens
    obtain ⟨hpositive, htotal⟩ := ih h (hcovered.cons (by simp [hopens, hcloses]; omega))
    refine ⟨hpositive, ?_⟩
    simp only [opened_cons, closed_cons, hopens, hcloses, Bool.false_eq_true, if_true, if_false]
    omega
  | case3 o t tokens hopens hcloses n ih =>
    obtain ⟨hpositive, htotal⟩ := ih h (hcovered.cons (by simp [hopens, hcloses]; omega))
    refine ⟨hpositive, ?_⟩
    simp only [opened_cons, closed_cons, hopens, hcloses, Bool.false_eq_true, if_true, if_false]
    omega
  | case4 o t tokens hopens hcloses ih =>
    -- the closing bracket matches one that a line above has opened
    have hle := hcovered [t] (List.prefix_append [t] tokens)
    have hne : o ≠ [] := by
      rintro rfl
      simp [hopens, hcloses, total] at hle
    have hone := closeOne_total h hne
    obtain ⟨hpositive, htotal⟩ := ih (closeOne_positive h)
      (hcovered.cons (by simp [hopens, hcloses]; omega))
    refine ⟨hpositive, ?_⟩
    simp only [opened_cons, closed_cons, hopens, hcloses, Bool.false_eq_true, if_true, if_false]
    omega
  | case5 pending o t tokens hopens hcloses ih =>
    obtain ⟨hpositive, htotal⟩ := ih h (hcovered.cons (by simp [hopens, hcloses]))
    refine ⟨hpositive, ?_⟩
    simpa only [opened_cons, closed_cons, hopens, hcloses, Bool.false_eq_true, if_false,
      Nat.add_zero] using htotal

/-! ## Rows -/

/-- The openings below a row. -/
def below (o : Openings) (row : Row) : Openings := (lineOf o row).2

theorem below_total {o : Openings} (h : o.Positive) {row : Row} (hcovered : Covered o.total row.tokens) :
    (below o row).Positive ∧ (below o row).total + closed row.tokens = o.total + opened row.tokens := by
  obtain ⟨hinner, hrest, hleading⟩ := closeLeading_total h hcovered
  obtain ⟨houter, hnet⟩ := netBrackets_total hinner (by rwa [← Nat.zero_add (total _)] at hrest)
  unfold below lineOf
  dsimp only
  split
  · exact ⟨houter, by omega⟩
  · refine ⟨List.forall_mem_cons.mpr ⟨by omega, houter⟩, ?_⟩
    rw [total_cons]
    omega

/-- The openings below rows. -/
def belowAll (o : Openings) (rows : List Row) : Openings := rows.foldl below o

theorem belowAll_total {o : Openings} (h : o.Positive) {rows : List Row}
    (hcovered : Covered o.total (rows.flatMap Row.tokens)) :
    (belowAll o rows).Positive ∧ (belowAll o rows).total + closed (rows.flatMap Row.tokens) =
      o.total + opened (rows.flatMap Row.tokens) := by
  induction rows generalizing o with
  | nil => exact ⟨h, rfl⟩
  | cons row rows ih =>
    rw [List.flatMap_cons] at hcovered ⊢
    obtain ⟨hrow, hrows⟩ := hcovered.append
    obtain ⟨hbelow, htotal⟩ := below_total h hrow
    obtain ⟨hpositive, hall⟩ := ih hbelow (hrows _ htotal)
    refine ⟨hpositive, ?_⟩
    rw [opened_append, closed_append, belowAll, List.foldl_cons]
    rw [belowAll] at hall
    omega

/-! ## The tokens above a line -/

/-- Tokens in the order of their lines, none above line `number`. -/
structure Ordered (number : Nat) (tokens : List Token) : Prop where
  lines : tokens.Pairwise fun t u => t.start.line ≤ u.start.line
  first : ∀ t ∈ tokens, number ≤ t.start.line

/-- The tokens that begin above a line. -/
def tokensAbove (number : Nat) (tokens : List Token) : List Token :=
  tokens.filter fun t => t.start.line < number

theorem tokensAbove_prefix {tokens : List Token}
    (h : tokens.Pairwise fun t u => t.start.line ≤ u.start.line) (number : Nat) :
    tokensAbove number tokens <+: tokens := by
  induction tokens with
  | nil => exact List.prefix_refl _
  | cons t tokens ih =>
    obtain ⟨ht, htokens⟩ := List.pairwise_cons.mp h
    rw [tokensAbove, List.filter_cons]
    split
    · exact List.cons_prefix_cons.mpr ⟨rfl, ih htokens⟩
    · next hline =>
      rw [decide_eq_true_iff] at hline
      have hnone : tokens.filter (fun t => t.start.line < number) = [] := by
        rw [List.filter_eq_nil_iff]
        intro u hu
        have hle := ht u hu
        rw [decide_eq_true_iff]
        omega
      rw [hnone]
      exact List.nil_prefix

theorem tokensAbove_filter (number : Nat) (tokens : List Token) (p : Token → Bool) :
    tokensAbove number (tokens.filter p) = (tokensAbove number tokens).filter p :=
  List.filter_comm ..

theorem Ordered.split {number : Nat} {tokens : List Token} (h : Ordered number tokens) :
    ∃ here later, tokens = here ++ later ∧ (∀ t ∈ here, t.start.line = number) ∧
      Ordered (number + 1) later := by
  refine ⟨_, _, (List.takeWhile_append_dropWhile (p := fun t => t.start.line = number)).symm,
    fun t ht => ?_, ?_⟩
  · have hline := List.mem_takeWhile_imp ht
    exact of_decide_eq_true hline
  have hsuffix : tokens.dropWhile (fun t => t.start.line = number) <:+ tokens := List.dropWhile_suffix _
  have hnot := List.head?_dropWhile_not (fun t : Token => t.start.line = number) tokens
  generalize tokens.dropWhile (fun t => t.start.line = number) = later at hsuffix hnot ⊢
  have hlines := h.lines.sublist hsuffix.sublist
  refine ⟨hlines, fun t ht => ?_⟩
  cases later with
  | nil => cases ht
  | cons u later =>
    have hne := of_decide_eq_false hnot
    have hle := h.first u (hsuffix.subset (List.mem_cons_self ..))
    obtain rfl | ht := List.mem_cons.mp ht
    · omega
    · have hu := (List.pairwise_cons.mp hlines).1 t ht
      omega

/-- Rows hold the tokens of their lines. -/
theorem getElem?_rowsFrom {number reach : Nat} {tokens : List Token} (h : Ordered number tokens)
    (lines : List Text) :
    ∀ k, ((rowsFrom number reach tokens lines)[k]?).map Row.tokens =
      (lines[k]?).map fun _ => tokens.filter fun t => t.start.line = number + k := by
  induction lines generalizing number reach tokens with
  | nil => exact fun k => rfl
  | cons line lines ih =>
    obtain ⟨here, later, rfl, hhere, hlater⟩ := h.split
    intro k
    rw [rowsFrom_cons reach here later line lines hhere hlater.first]
    cases k with
    | zero =>
      have hnone : later.filter (fun t => t.start.line = number + 0) = [] := by
        rw [List.filter_eq_nil_iff]
        intro t ht
        have hline := hlater.first t ht
        simp only [decide_eq_true_eq]
        omega
      have hall : here.filter (fun t => t.start.line = number + 0) = here :=
        List.filter_eq_self.mpr fun t ht => decide_eq_true (hhere t ht)
      rw [List.filter_append, hnone, hall, List.append_nil]
      rfl
    | succ k =>
      have hnone : here.filter (fun t => t.start.line = number + (k + 1)) = [] := by
        rw [List.filter_eq_nil_iff]
        intro t ht
        have hline := hhere t ht
        simp only [decide_eq_true_eq]
        omega
      rw [List.filter_append, hnone, List.nil_append, List.getElem?_cons_succ, List.getElem?_cons_succ,
        ih hlater k]
      simp only [Nat.add_assoc, Nat.add_comm 1 k]

theorem tokens_take_rowsFrom {number reach : Nat} {tokens : List Token} (h : Ordered number tokens)
    {lines : List Text} {k : Nat} (hk : k ≤ lines.length) :
    ((rowsFrom number reach tokens lines).take k).flatMap Row.tokens =
      tokensAbove (number + k) tokens := by
  induction k generalizing number reach tokens lines with
  | zero =>
    refine (List.filter_eq_nil_iff.mpr fun t ht => ?_).symm
    have hline := h.first t ht
    simp only [decide_eq_true_eq]
    omega
  | succ k ih =>
    cases lines with
    | nil => cases hk
    | cons line lines =>
      obtain ⟨here, later, rfl, hhere, hlater⟩ := h.split
      have hall : here.filter (fun t => t.start.line < number + (k + 1)) = here := by
        refine List.filter_eq_self.mpr fun t ht => ?_
        have hline := hhere t ht
        exact decide_eq_true (by omega)
      rw [rowsFrom_cons reach here later line lines hhere hlater.first, List.take_succ_cons,
        List.flatMap_cons, ih hlater (Nat.le_of_succ_le_succ hk), tokensAbove, tokensAbove,
        List.filter_append, hall]
      simp only [Nat.add_assoc, Nat.add_comm 1 k]

end HclTidy.Layout
