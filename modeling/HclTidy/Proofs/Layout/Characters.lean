import HclTidy.Layout.Format
import HclTidy.Proofs.Layout.Runs
import HclTidy.Proofs.Text.Lines

/-!
# The characters of a layout

The canonical layout puts spaces, equals signs and line feeds into a text, and no other character.
-/

set_option autoImplicit false

namespace HclTidy

variable {P : Char → Prop}

namespace Text

/-- All characters of a text have a property. -/
def Over (P : Char → Prop) (t : Text) : Prop := ∀ c ∈ t, P c

theorem Over.subset {s t : Text} (h : t.Over P) (hst : s ⊆ t) : s.Over P := fun c hc => h c (hst hc)

theorem over_nil : Over P [] := List.forall_mem_nil P

theorem over_append {s t : Text} : Over P (s ++ t) ↔ s.Over P ∧ t.Over P := List.forall_mem_append

theorem over_cons {c : Char} {t : Text} : Over P (c :: t) ↔ P c ∧ t.Over P := List.forall_mem_cons

theorem over_replicate {c : Char} (hc : P c) (n : Nat) : Over P (List.replicate n c) := by
  intro d hd
  rw [List.eq_of_mem_replicate hd]
  exact hc

theorem over_padRight {t : Text} (hspace : P ' ') (h : t.Over P) (width : Nat) :
    (padRight width t).Over P :=
  over_append.mpr ⟨h, over_replicate hspace _⟩

/-- The pieces between separators have no other characters than the text. -/
theorem over_splitOn {separator : Char} {t : Text} (h : t.Over P) :
    ∀ piece ∈ splitOn separator t, piece.Over P := by
  induction t with
  | nil => exact List.forall_mem_singleton.mpr over_nil
  | cons c t ih =>
    obtain ⟨hc, ht⟩ := over_cons.mp h
    have hpieces := ih ht
    rw [splitOn_cons]
    split
    · exact List.forall_mem_cons.mpr ⟨over_nil, hpieces⟩
    · cases hsplit : splitOn separator t with
      | nil => exact absurd hsplit (splitOn_ne_nil _ _)
      | cons first rest =>
        rw [hsplit, List.forall_mem_cons] at hpieces
        exact List.forall_mem_cons.mpr ⟨over_cons.mpr ⟨hc, hpieces.1⟩, hpieces.2⟩

theorem over_lines {t : Text} (h : t.Over P) : ∀ line ∈ lines t, line.Over P := over_splitOn h

theorem over_joinWith {separator : Text} (hseparator : separator.Over P) {pieces : List Text}
    (h : ∀ piece ∈ pieces, piece.Over P) : (joinWith separator pieces).Over P := by
  induction pieces with
  | nil => exact over_nil
  | cons piece pieces ih =>
    obtain ⟨hpiece, hpieces⟩ := List.forall_mem_cons.mp h
    cases pieces with
    | nil => exact hpiece
    | cons next rest =>
      rw [joinWith_cons_cons]
      exact over_append.mpr ⟨over_append.mpr ⟨hpiece, hseparator⟩, ih hpieces⟩

theorem over_unlines {ls : List Text} (hfeed : P '\n') (h : ∀ line ∈ ls, line.Over P) :
    (unlines ls).Over P :=
  over_joinWith (List.forall_mem_singleton.mpr hfeed) h

end Text

namespace Layout

/-- All characters that a line is made of have a property. -/
def Line.Over (P : Char → Prop) : Line → Prop
  | .verbatim text => text.Over P
  | .free line => line.text.Over P ∧ ∀ a ∈ line.assignment, a.1.Over P ∧ a.2.Over P

/-! ## Lines of a text -/

theorem over_rowsFrom {lines : List Text} (h : ∀ line ∈ lines, line.Over P) (number reach : Nat)
    (tokens : List Token) : ∀ row ∈ rowsFrom number reach tokens lines, row.text.Over P := by
  induction lines generalizing number reach tokens with
  | nil => exact List.forall_mem_nil _
  | cons line lines ih =>
    obtain ⟨hline, hlines⟩ := List.forall_mem_cons.mp h
    exact List.forall_mem_cons.mpr ⟨hline, ih hlines _ _ _⟩

theorem over_assignmentOf? {row : Row} (h : row.text.Over P) :
    ∀ a ∈ assignmentOf? row, a.1.Over P ∧ a.2.Over P := by
  intro a ha
  unfold assignmentOf? at ha
  split at ha
  · split at ha
    · cases ha
      exact ⟨(h.subset (List.take_subset _ _)).subset (Text.trim_subset _),
        (h.subset (List.drop_subset _ _)).subset (Text.trim_subset _)⟩
    · cases ha
  · cases ha

theorem over_lineOf (openings : Openings) {row : Row} (h : row.text.Over P) :
    (lineOf openings row).1.Over P := by
  unfold lineOf
  dsimp only
  split
  · exact h
  · split
    · exact ⟨Text.over_nil, fun a ha => by cases ha⟩
    · refine ⟨h.subset (Text.trim_subset _), fun a ha => ?_⟩
      split at ha
      · exact over_assignmentOf? h a ha
      · cases ha

theorem over_linesFrom {rows : List Row} (h : ∀ row ∈ rows, row.text.Over P) (openings : Openings) :
    ∀ line ∈ linesFrom openings rows, line.Over P := by
  induction rows generalizing openings with
  | nil => exact List.forall_mem_nil _
  | cons row rows ih =>
    obtain ⟨hrow, hrows⟩ := List.forall_mem_cons.mp h
    exact List.forall_mem_cons.mpr ⟨over_lineOf openings hrow, ih hrows _⟩

/-! ## Alignment -/

theorem over_mapRuns {β : Type} {view : Line → Option β} {change : List (Line × β) → List Line}
    (hchange : ∀ run : List (Line × β), (∀ p ∈ run, view p.1 = some p.2) →
      List.Forall₂ (fun line line' => line.Over P → line'.Over P) (run.map Prod.fst) (change run))
    {lines : List Line} (h : ∀ line ∈ lines, line.Over P) :
    ∀ line ∈ mapRuns view change lines, line.Over P := by
  have himage := forall₂_mapRuns (fun _ _ => id) hchange lines
  generalize mapRuns view change lines = image at himage
  induction himage with
  | nil => exact List.forall_mem_nil _
  | cons hline _ ih =>
    obtain ⟨hfirst, hrest⟩ := List.forall_mem_cons.mp h
    exact List.forall_mem_cons.mpr ⟨hline hfirst, ih hrest⟩

theorem over_alignNames (hspace : P ' ') (hequal : P '=') (run : List (Line × FreeLine × Text × Text))
    (hrun : ∀ p ∈ run, assignment? p.1 = some p.2) :
    List.Forall₂ (fun line line' : Line => line.Over P → line'.Over P) (run.map Prod.fst)
      (alignNames run) := by
  rw [alignNames, List.forall₂_map_left_iff, List.forall₂_map_right_iff, List.forall₂_same]
  rintro ⟨line, free, name, value⟩ hp hline
  have hview : assignment? line = some (free, name, value) := hrun _ hp
  cases line with
  | verbatim text => cases hview
  | free line =>
    obtain ⟨a, ha, hsame⟩ := Option.map_eq_some_iff.mp hview
    cases hsame
    obtain ⟨hname, hvalue⟩ := hline.2 a ha
    refine ⟨Text.over_append.mpr ⟨Text.over_append.mpr ⟨Text.over_padRight hspace hname _, ?_⟩, hvalue⟩,
      hline.2⟩
    simp [Text.over_cons, Text.over_nil, hspace, hequal]

theorem over_alignComments (hspace : P ' ') (run : List (Line × FreeLine × Text × Text))
    (hrun : ∀ p ∈ run, commented? p.1 = some p.2) :
    List.Forall₂ (fun line line' : Line => line.Over P → line'.Over P) (run.map Prod.fst)
      (alignComments run) := by
  rw [alignComments, List.forall₂_map_left_iff, List.forall₂_map_right_iff, List.forall₂_same]
  rintro ⟨line, free, code, comment⟩ hp hline
  have hview : commented? line = some (free, code, comment) := hrun _ hp
  unfold commented? at hview
  split at hview
  · cases hview
  · next line =>
    have htext := hline.1.subset (Text.trimRight_subset _)
    split at hview
    · cases hview
    · dsimp only at hview
      split at hview
      · next hsuffix =>
        cases hview
        refine ⟨Text.over_append.mpr ⟨Text.over_padRight hspace ?_ _, Text.over_cons.mpr ⟨hspace, ?_⟩⟩,
          hline.2⟩
        · exact (htext.subset (List.take_subset _ _)).subset (Text.trimRight_subset _)
        · exact htext.subset (List.isSuffixOf_iff_suffix.mp hsuffix).subset
      · cases hview

/-! ## The written text -/

theorem over_written (hspace : P ' ') {line : Line} (h : line.Over P) : line.written.Over P := by
  cases line with
  | verbatim text => exact h
  | free line =>
    exact (Text.over_append.mpr ⟨Text.over_replicate hspace _, h.1⟩).subset (Text.trimRight_subset _)

theorem over_finish (hfeed : P '\n') {lines : List Text} (h : ∀ line ∈ lines, line.Over P) :
    (finish lines).Over P := by
  have hkept {line : Text}
      (hline : line ∈ ((lines.dropWhile Text.allBlank).reverse.dropWhile Text.allBlank).reverse) :
      line.Over P :=
    h line ((List.dropWhile_sublist _).subset
      (List.mem_reverse.mp ((List.dropWhile_sublist _).subset (List.mem_reverse.mp hline))))
  unfold finish
  dsimp only
  split
  · exact Text.over_nil
  · exact Text.over_append.mpr ⟨Text.over_unlines hfeed fun _ => hkept,
      List.forall_mem_singleton.mpr hfeed⟩

/-- The layout of a text has no characters but those of the text, spaces, equals signs and line
feeds. -/
theorem over_format (hspace : P ' ') (hequal : P '=') (hfeed : P '\n') {text : Text}
    (h : text.Over P) : (format text).Over P := by
  unfold format
  split
  · refine over_finish hfeed (List.forall_mem_map.mpr fun line hline => over_written hspace ?_)
    exact over_mapRuns (over_alignComments hspace) (over_mapRuns (over_alignNames hspace hequal)
      (over_linesFrom (over_rowsFrom (Text.over_lines h) _ _ _) _)) line hline
  · exact over_finish hfeed (List.forall_mem_map.mpr fun line hline =>
      (Text.over_lines h line hline).subset (Text.trimRight_subset _))

end Layout

end HclTidy
