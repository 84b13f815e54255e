import HclTidy.Block.Source
import HclTidy.Proofs.Token.Trim

/-!
# Leading comments

The leading comments of a block are lines without white space around them, each a comment or empty,
the first and the last of them a comment.
-/

set_option autoImplicit false

namespace HclTidy

namespace Block

/-- The lines of leading comments. -/
structure IsCommentRows (rows : List Text) : Prop where
  row : ∀ row ∈ rows, '\n' ∉ row ∧ Text.trim row = row ∧ isCommentOrBlank row = true
  first : ∀ row, rows.head? = some row → row ≠ []
  last : ∀ row, rows.getLast? = some row → row ≠ []

theorem isCommentRows_nil : IsCommentRows [] := ⟨nofun, nofun, nofun⟩

theorem trimRows_eq (rows : List Text) :
    trimRows rows = (rows.dropWhile List.isEmpty).rdropWhile List.isEmpty := rfl

theorem mem_trimRows {rows : List Text} {row : Text} (h : row ∈ trimRows rows) : row ∈ rows :=
  (List.dropWhile_suffix _).subset ((List.rdropWhile_prefix _ _).subset h)

theorem trimRows_first {rows : List Text} {row : Text} (h : (trimRows rows).head? = some row) :
    row ≠ [] := by
  rw [trimRows_eq] at h
  have hhead := Token.head?_dropWhile (Text.head?_of_isPrefix (List.rdropWhile_prefix _ _) h)
  rintro rfl
  cases hhead

theorem trimRows_last {rows : List Text} {row : Text} (h : (trimRows rows).getLast? = some row) :
    row ≠ [] := by
  rw [trimRows_eq] at h
  have hne : (rows.dropWhile List.isEmpty).rdropWhile List.isEmpty ≠ [] := by
    intro hnil
    rw [hnil] at h
    cases h
  have hlast := List.rdropWhile_last_not List.isEmpty _ hne
  rw [List.getLast?_eq_getLast_of_ne_nil hne] at h
  cases h
  rintro hnil
  rw [hnil] at hlast
  exact hlast rfl

/-- Empty lines in front of comment lines go, and the comment lines stay. -/
theorem trimRows_blank {rows : List Text} (h : IsCommentRows rows) (n : Nat) :
    trimRows (List.replicate n [] ++ rows) = rows := by
  have hblank : ∀ row ∈ List.replicate n ([] : Text), List.isEmpty row = true := by
    intro row hrow
    rw [List.eq_of_mem_replicate hrow]
    rfl
  have hdrop : rows.dropWhile List.isEmpty = rows := by
    cases rows with
    | nil => rfl
    | cons row rows =>
      have hne := h.first row rfl
      rw [List.dropWhile_cons_of_neg (by simpa using hne)]
  rw [trimRows_eq, List.dropWhile_append_of_pos hblank, hdrop, List.rdropWhile_eq_self_iff]
  intro hne hlast
  exact h.last _ (List.getLast?_eq_getLast_of_ne_nil hne) (List.isEmpty_iff.mp hlast)

/-- The lines of a text of comments, none for the empty text. -/
def rowsOfComments (comments : Text) : List Text :=
  if comments.isEmpty then [] else Text.lines comments

theorem unlines_rowsOfComments (comments : Text) : Text.unlines (rowsOfComments comments) = comments := by
  unfold rowsOfComments
  split
  · next h =>
    rw [List.isEmpty_iff.mp h]
    rfl
  · exact Text.unlines_lines comments

theorem rowsOfComments_unlines {rows : List Text} (h : IsCommentRows rows) :
    rowsOfComments (Text.unlines rows) = rows := by
  cases rows with
  | nil => rfl
  | cons row rows =>
    have hne := h.first row rfl
    have hlines := Text.lines_unlines (List.cons_ne_nil row rows) fun l hl => (h.row l hl).1
    unfold rowsOfComments
    rw [if_neg, hlines]
    rw [List.isEmpty_iff]
    intro hnil
    rw [hnil] at hlines
    have hrow := (List.cons.inj hlines).1
    exact hne hrow.symm

/-- The comments above a block are comment lines. -/
theorem isCommentRows_leadingCommentsAt (text : Text) (blockStart previousEnd : Int) :
    IsCommentRows (rowsOfComments (leadingCommentsAt text blockStart previousEnd)) := by
  unfold leadingCommentsAt
  split
  · next hrange =>
    dsimp only
    generalize habove : (if previousEnd > 0 then _ else _ : List Text) = above
    have hlines : ∀ line ∈ above, '\n' ∉ line := by
      intro line hline
      refine Text.newline_not_mem_lines (text.slice previousEnd.toNat blockStart.toNat) line ?_
      rw [← habove] at hline
      split at hline
      · exact List.dropLast_subset _ (List.mem_of_mem_tail hline)
      · exact List.dropLast_subset _ hline
    have hrows : IsCommentRows (trimRows
        ((above.reverse.map Text.trim).takeWhile isCommentOrBlank).reverse) := by
      refine ⟨fun row hrow => ?_, fun row hrow => trimRows_first hrow, fun row hrow => trimRows_last hrow⟩
      have hmem := List.mem_reverse.mp (mem_trimRows hrow)
      have hcomment := List.mem_takeWhile_imp hmem
      obtain ⟨line, hline, rfl⟩ := List.mem_map.mp ((List.takeWhile_prefix _).subset hmem)
      refine ⟨?_, Token.trim_trim line, hcomment⟩
      intro hn
      exact hlines line (List.mem_reverse.mp hline) (Text.trim_subset line hn)
    rw [rowsOfComments_unlines hrows]
    exact hrows
  · exact isCommentRows_nil

end Block

end HclTidy
