import HclTidy.Layout.Format
import HclTidy.Proofs.Layout.Runs
import HclTidy.Proofs.Token.Respace

/-!
# Cells

A cell is what the layout keeps of a line: for a verbatim line its text, for a free one the
indentation, the name of a single-line attribute, the code and the comment behind it, each without
the white space around it. The layout of a text is a function of its cells.
-/

set_option autoImplicit false

namespace HclTidy.Layout

inductive Cell where
  | verbatim (text : Text)
  | free (indent : Nat) (name : Option Text) (code : Text) (comment : Option Text)

namespace Cell

/-- The fields of a cell with a name. -/
def named? : Cell → Option (Nat × Text × Text × Option Text)
  | .free indent (some name) code comment => some (indent, name, code, comment)
  | _ => none

/-- The name in front of the code. -/
def assigned (width : Nat) (name code : Text) : Text :=
  Text.trimRight (Text.padRight width name ++ [' ', '=', ' '] ++ code)

def alignNames (run : List (Cell × Nat × Text × Text × Option Text)) : List Cell :=
  let width := maxOf (fun p => p.2.2.1.length) run
  run.map fun p => .free p.2.1 none (assigned width p.2.2.1 p.2.2.2.1) p.2.2.2.2

/-- The fields of a cell with a comment. -/
def commented? : Cell → Option (Nat × Text × Text)
  | .free indent _ code (some comment) => some (indent, code, comment)
  | _ => none

/-- The comment behind the code. -/
def remark (width indent : Nat) (code comment : Text) : Text :=
  Text.padRight (width - 2 * indent) code ++ ' ' :: comment

def alignComments (run : List (Cell × Nat × Text × Text)) : List Cell :=
  let width := maxOf (fun p => 2 * p.2.1 + p.2.2.1.length) run
  run.map fun p => .free p.2.1 none (remark width p.2.1 p.2.2.1 p.2.2.2) none

def written : Cell → Text
  | .verbatim text => text
  | .free indent _ code _ => Text.trimRight (indentation indent ++ code)

/-- The lines of the layout that cells describe. -/
def lines (cells : List Cell) : List Text :=
  (mapRuns commented? alignComments (mapRuns named? alignNames cells)).map written

end Cell

/-! ## The cells of lines -/

/-- `whole` is the code of a line and the comment behind it, if the line ends in one. -/
def EndsIn (line : FreeLine) (code whole : Text) : Option Text → Prop
  | some comment => trailingComment? line = some comment ∧ comment ≠ [] ∧
      Text.trimRight comment = comment ∧ Text.trimRight code = code ∧
      ∃ gap, Text.isBlankText gap ∧ whole = code ++ gap ++ comment
  | none => whole = code ∧
      ∀ comment, trailingComment? line = some comment →
        ∀ before, ¬ comment <:+ Text.trimRight (before ++ whole)

/-- The cell holds what the alignments read off the line. -/
inductive Shaped : Line → Cell → Prop
  | verbatim (text : Text) : Shaped (.verbatim text) (.verbatim text)
  | plain {line code comment} : line.assignment = none → EndsIn line code line.text comment →
      Shaped (.free line) (.free line.indent none code comment)
  | named {line name value code comment} : line.assignment = some (name, value) →
      EndsIn line code value comment →
      Shaped (.free line) (.free line.indent (some name) code comment)

/-- The same after the names have been aligned. -/
inductive ShapedCode : Line → Cell → Prop
  | verbatim (text : Text) : ShapedCode (.verbatim text) (.verbatim text)
  | bare {line code} : commented? (.free line) = none →
      Text.trimRight line.text = Text.trimRight code →
      ShapedCode (.free line) (.free line.indent none code none)
  | commented {line code comment} : commented? (.free line) = some (line, code, comment) →
      ShapedCode (.free line) (.free line.indent none code (some comment))

theorem commented?_of_suffix {line : FreeLine} (before : Text) {comment : Text}
    (htrail : trailingComment? line = some comment) (hne : comment ≠ [])
    (htrim : Text.trimRight comment = comment) (htext : line.text = before ++ comment) :
    commented? (.free line) = some (line, Text.trimRight before, comment) := by
  have hright : Text.trimRight line.text = before ++ comment := by
    rw [htext, Text.trimRight_append (by rw [htrim]; exact hne), htrim]
  have hsuffix : comment.isSuffixOf (before ++ comment) = true :=
    List.isSuffixOf_iff_suffix.mpr (List.suffix_append before comment)
  have htake : (before ++ comment).take ((before ++ comment).length - comment.length) = before := by
    rw [List.length_append, Nat.add_sub_cancel, List.take_left]
  rw [commented?, htrail]
  simp only [hright, hsuffix, if_true, htake]

theorem commented?_of_not_suffix {line : FreeLine}
    (h : ∀ comment, trailingComment? line = some comment →
      ¬ comment <:+ Text.trimRight line.text) : commented? (.free line) = none := by
  rw [commented?]
  split
  · rfl
  · next comment hc =>
    have hno : comment.isSuffixOf (Text.trimRight line.text) = false := by
      rw [Bool.eq_false_iff, ne_eq, List.isSuffixOf_iff_suffix]
      exact h comment hc
    simp [hno]

theorem shapedCode_of_endsIn (line : FreeLine) (before : Text) {code whole : Text} {comment : Option Text}
    (h : EndsIn line code whole comment) (htext : line.text = before ++ whole) :
    ShapedCode (.free line)
      (.free line.indent none (Text.trimRight (before ++ code)) comment) := by
  cases comment with
  | none =>
    obtain ⟨rfl, hno⟩ := h
    refine .bare (commented?_of_not_suffix fun c hc => ?_) ?_
    · rw [htext]
      exact hno c hc before
    · rw [Text.trimRight_idem, htext]
  | some c =>
    obtain ⟨htrail, hne, htrim, -, gap, hgap, rfl⟩ := h
    have hc := commented?_of_suffix (before ++ code ++ gap) htrail hne htrim
      (by rw [htext]; simp)
    rw [Text.trimRight_append_blank _ hgap] at hc
    exact .commented hc

theorem shapedCode_of_plain {line : FreeLine} {code : Text} {comment : Option Text}
    (h : EndsIn line code line.text comment) :
    ShapedCode (.free line) (.free line.indent none code comment) := by
  have hs := shapedCode_of_endsIn line [] h rfl
  cases comment with
  | none =>
    obtain ⟨htext, hno⟩ := h
    exact .bare (commented?_of_not_suffix fun c hc => hno c hc []) (by rw [htext])
  | some c =>
    rw [List.nil_append, h.2.2.2.1] at hs
    exact hs

/-- Aligning the names of lines aligns those of their cells. -/
theorem shapedCode_alignNames {ls : List Line} {cells : List Cell} (h : List.Forall₂ Shaped ls cells) :
    List.Forall₂ ShapedCode (mapRuns assignment? alignNames ls)
      (mapRuns Cell.named? Cell.alignNames cells) := by
  refine forall₂_mapRuns_mapRuns
    (Q := fun p p' => ∃ code comment, p'.2 = (p.2.1.indent, p.2.2.1, code, comment) ∧
      EndsIn p.2.1 code p.2.2.2 comment) ?_ ?_ h
  · intro line cell hs
    cases hs with
    | verbatim text => exact .inl ⟨rfl, rfl, .verbatim text⟩
    | plain ha he => exact .inl ⟨by simp [assignment?, ha], rfl, shapedCode_of_plain he⟩
    | named ha he =>
      rename_i line name value code comment
      refine .inr ⟨(line, name, value), (line.indent, name, code, comment), ?_, rfl, code, comment,
        rfl, he⟩
      simp only [assignment?, ha, Option.map_some]
  · intro run run' hrun
    have hwidth : maxOf (fun p : Line × FreeLine × Text × Text => p.2.2.1.length) run =
        maxOf (fun p : Cell × Nat × Text × Text × Option Text => p.2.2.1.length) run' := by
      refine maxOf_eq (hrun.imp ?_)
      rintro p p' ⟨code, comment, hp, -⟩
      rw [hp]
    unfold alignNames Cell.alignNames
    dsimp only
    rw [← hwidth]
    generalize maxOf (fun p : Line × FreeLine × Text × Text => p.2.2.1.length) run = width
    rw [List.forall₂_map_left_iff, List.forall₂_map_right_iff]
    refine hrun.imp ?_
    rintro ⟨line, free, name, value⟩ p' ⟨code, comment, hp, he⟩
    rw [hp]
    exact shapedCode_of_endsIn { free with text := _ }
      (Text.padRight width name ++ [' ', '=', ' ']) he rfl

/-- Aligning the comments of lines gives the lines that their cells describe. -/
theorem written_alignComments {ls : List Line} {cells : List Cell}
    (h : List.Forall₂ ShapedCode ls cells) :
    List.Forall₂ (fun line cell => line.written = cell.written)
      (mapRuns commented? alignComments ls) (mapRuns Cell.commented? Cell.alignComments cells) := by
  refine forall₂_mapRuns_mapRuns
    (Q := fun p p' => p'.2 = (p.2.1.indent, p.2.2.1, p.2.2.2)) ?_ ?_ h
  · intro line cell hs
    cases hs with
    | verbatim text => exact .inl ⟨rfl, rfl, rfl⟩
    | bare hc htext => exact .inl ⟨hc, rfl, Text.trimRight_append_congr _ htext⟩
    | commented hc => exact .inr ⟨_, _, hc, rfl, rfl⟩
  · intro run run' hrun
    have hwidth : maxOf (fun p : Line × FreeLine × Text × Text => 2 * p.2.1.indent + p.2.2.1.length) run =
        maxOf (fun p : Cell × Nat × Text × Text => 2 * p.2.1 + p.2.2.1.length) run' := by
      refine maxOf_eq (hrun.imp ?_)
      intro p p' hp
      rw [hp]
    unfold alignComments Cell.alignComments
    dsimp only
    rw [← hwidth]
    generalize maxOf (fun p : Line × FreeLine × Text × Text => 2 * p.2.1.indent + p.2.2.1.length) run =
      width
    rw [List.forall₂_map_left_iff, List.forall₂_map_right_iff]
    refine hrun.imp ?_
    intro p p' hp
    rw [hp]
    rfl

/-- The layout of lines is the layout of their cells. -/
theorem written_lines {ls : List Line} {cells : List Cell} (h : List.Forall₂ Shaped ls cells) :
    (mapRuns commented? alignComments (mapRuns assignment? alignNames ls)).map Line.written =
      Cell.lines cells :=
  map_eq_map_iff.mpr (written_alignComments (shapedCode_alignNames h))

/-! ## What becomes of a cell -/

namespace Cell

/-- The code with its name, when there is one. -/
def withName (width : Nat) (code : Text) : Option Text → Text
  | none => code
  | some name => assigned width name code

/-- The code with its comment, when there is one. -/
def withComment (width indent : Nat) (code : Text) : Option Text → Text
  | none => code
  | some comment => remark width indent code comment

/-- The lines that a cell may be written as, one for each choice of the two columns. -/
def WrittenAs : Cell → Text → Prop
  | .verbatim text, out => out = text
  | .free indent name code comment, out => ∃ nameWidth width,
      out = Text.trimRight
        (indentation indent ++ withComment width indent (withName nameWidth code name) comment)

/-- What aligning the names does to a cell. -/
def NameAligned : Cell → Cell → Prop
  | .verbatim text, out => out = .verbatim text
  | .free indent name code comment, out => ∃ width,
      out = .free indent none (withName width code name) comment

/-- What aligning the comments does to a cell. -/
def CommentAligned : Cell → Cell → Prop
  | .verbatim text, out => out = .verbatim text
  | .free indent _ code comment, out => ∃ width name',
      out = .free indent name' (withComment width indent code comment) none

theorem nameAligned_mapRuns (cells : List Cell) :
    List.Forall₂ NameAligned cells (mapRuns named? alignNames cells) := by
  refine forall₂_mapRuns ?_ ?_ cells
  · intro cell h
    cases cell with
    | verbatim text => rfl
    | free indent name code comment =>
      cases name with
      | none => exact ⟨0, rfl⟩
      | some name => cases h
  · intro run hrun
    unfold alignNames
    generalize maxOf _ run = width
    rw [List.forall₂_map_left_iff, List.forall₂_map_right_iff, List.forall₂_same]
    rintro ⟨cell, p⟩ hp
    have hview := hrun _ hp
    cases cell with
    | verbatim text => cases hview
    | free indent name code comment =>
      cases name with
      | none => cases hview
      | some name =>
        cases hview
        exact ⟨width, rfl⟩

theorem commentAligned_mapRuns (cells : List Cell) :
    List.Forall₂ CommentAligned cells (mapRuns commented? alignComments cells) := by
  refine forall₂_mapRuns ?_ ?_ cells
  · intro cell h
    cases cell with
    | verbatim text => rfl
    | free indent name code comment =>
      cases comment with
      | none => exact ⟨0, name, rfl⟩
      | some comment => cases h
  · intro run hrun
    unfold alignComments
    generalize maxOf _ run = width
    rw [List.forall₂_map_left_iff, List.forall₂_map_right_iff, List.forall₂_same]
    rintro ⟨cell, p⟩ hp
    have hview := hrun _ hp
    cases cell with
    | verbatim text => cases hview
    | free indent name code comment =>
      cases comment with
      | none => cases hview
      | some comment =>
        cases hview
        exact ⟨width, none, rfl⟩

theorem forall₂_trans {α β γ : Type} {R : α → β → Prop} {S : β → γ → Prop} {T : α → γ → Prop}
    (hT : ∀ a b c, R a b → S b c → T a c) {xs : List α} {ys : List β} {zs : List γ}
    (h : List.Forall₂ R xs ys) (h' : List.Forall₂ S ys zs) : List.Forall₂ T xs zs := by
  induction h generalizing zs with
  | nil =>
    cases h'
    exact .nil
  | cons hr _ ih =>
    cases h' with
    | cons hs hrest => exact .cons (hT _ _ _ hr hs) (ih hrest)

theorem writtenAs_lines (cells : List Cell) : List.Forall₂ WrittenAs cells (lines cells) := by
  refine (List.forall₂_map_right_iff).mpr (forall₂_trans ?_ (nameAligned_mapRuns cells)
    (commentAligned_mapRuns _))
  intro cell aligned final hn hc
  cases cell with
  | verbatim text =>
    cases hn
    cases hc
    rfl
  | free indent name code comment =>
    obtain ⟨nameWidth, rfl⟩ := hn
    obtain ⟨width, name', rfl⟩ := hc
    exact ⟨nameWidth, width, rfl⟩

end Cell

end HclTidy.Layout
