import HclTidy.Proofs.Layout.Settled

/-!
# Columns

The law of the canonical layout: no free line ends in white space, in a run of attributes the `=` of
equally indented lines stand in one column, and in a run of lines that end in comments the comments
stand in one column, one space behind the longest code.
-/

set_option autoImplicit false

namespace HclTidy.Layout

open Token

namespace Row

/-- The number of blank characters in front of a line. -/
def indent (row : Row) : Nat := (row.text.takeWhile Text.isBlank).length

/-- A free line that is an attribute. -/
def isAttribute (row : Row) : Bool := !row.continued && row.equal?.isSome

/-- A free line that ends in a comment behind other tokens. -/
def isCommented (row : Row) : Bool := !row.continued && row.comment?.isSome

end Row

/-- The layout law for the rows of a text. -/
structure Aligned (text : Text) (rows : List Row) : Prop where
  trimmed : ∀ row ∈ rows, row.continued = false → Text.trimRight row.text = row.text
  ends : text = [] ∨ ∃ ls, Text.lines text = ls ++ [[]] ∧
    (∃ l more, ls = l :: more ∧ Text.allBlank l = false) ∧
    ∃ l front, ls = front ++ [l] ∧ Text.allBlank l = false
  equals : ∀ run, IsRun Row.isAttribute rows run → ∀ row ∈ run, ∀ row' ∈ run, row.indent = row'.indent →
    ∀ equal ∈ row.equal?, ∀ equal' ∈ row'.equal?, equal.start.column = equal'.start.column
  comments : ∀ run, IsRun Row.isCommented rows run → ∀ row ∈ run, ∀ comment ∈ row.comment?,
    comment.start.column = maxOf (fun row => (Text.trimRight row.code).length) run + 2

/-! ## Columns of one line -/

theorem keptRow_refl (r : LexRow) : KeptRow r r :=
  ⟨rfl, List.forall₂_same.mpr fun _ _ => ⟨rfl, .inl rfl⟩⟩

theorem length_indentation (n : Nat) : (indentation n).length = 2 * n := List.length_replicate

/-- What is left of a text without the white space around it does not begin with white space. -/
theorem takeWhile_indentation (indent : Nat) {t : Text} (rest : Text) (h : Text.trim t ≠ []) :
    (indentation indent ++ (Text.trim t ++ rest)).takeWhile Text.isBlank = indentation indent := by
  refine takeWhile_append_of_all (Segment.isBlankText_of_isSpaces (isSpaces_indentation indent)) ?_
  intro c hc
  obtain ⟨d, u, hd⟩ := List.exists_cons_of_ne_nil h
  obtain ⟨gap, hgap⟩ := Text.trimRight_isPrefix (Text.trimLeft t)
  have hleft : Text.trimLeft t = d :: (u ++ gap) := by
    rw [← hgap, ← Text.trim, hd]
    rfl
  rw [hd] at hc
  obtain rfl : d = c := Option.some.inj hc
  have hhead := List.head_dropWhile_not Text.isBlank (l := t) (by
    change Text.trimLeft t ≠ []
    rw [hleft]
    simp)
  have heq : t.dropWhile Text.isBlank = d :: (u ++ gap) := hleft
  simpa only [heq, List.head_cons] using hhead

/-- What a line is written with in front of its last token is in front of it. -/
theorem textOf_front {r : LexRow} (hok : r.Ok) (hlead : r.lead = none) {front : List Lexeme} {c : Lexeme}
    (hws : r.lexemes = front ++ [c]) (hn : '\n' ∉ c.text) (hblank : Text.isBlankText r.tail) {before : Text}
    (htext : r.row.text = Text.trimRight (before ++ Text.trimRight c.text)) : textOf front c.gap = before := by
  have hhead := hok.heads c (by rw [hws]; simp)
  have hbefore := trimRight_text before hhead (List.forall_mem_nil _)
  have hline := congrArg Text.trimRight (text_concat hok hlead hws hn)
  rw [List.append_nil] at hbefore
  rw [trimRight_text _ hhead hblank, htext, Text.trimRight_idem, Text.trimRight_append_trimRight,
    hbefore] at hline
  exact (List.append_cancel_right hline).symm

theorem lead_of_free {r : LexRow} {openings : Openings} {indent : Nat} {name : Option Text} {code : Text}
    {comment : Option Text} (h : r.cell openings = .free indent name code comment) : r.lead = none := by
  cases hlead : r.lead with
  | none => rfl
  | some lead =>
    rw [cell_of_lead openings hlead] at h
    cases h

section Line

variable {r : LexRow} (hok : r.Ok) {openings : Openings} {indent : Nat} {name : Option Text}
  {code : Text} {comment : Option Text} (hcell : r.cell openings = .free indent name code comment)

include hok hcell

/-- Where the `=` of a written line stands. -/
theorem column_written_equal {equal : Token} (h : r.row.equal? = some equal) {nameWidth width : Nat}
    (htext : r.row.text = Text.trimRight (indentation indent ++
      Cell.withComment width indent (Cell.withName nameWidth code name) comment)) :
    ∃ nameText, name = some nameText ∧
      equal.start.column = 2 * indent + max nameWidth nameText.length + 2 ∧ r.row.indent = 2 * indent := by
  have hlead := lead_of_free hcell
  obtain ⟨first, second, more, hws, hequal, hassign, hcolumn⟩ := equal?_of_some hok hlead h
  obtain ⟨hname, hmore⟩ := parts_true hws
  have hne : r.lexemes ≠ [] := by
    rw [hws]
    exact List.cons_ne_nil _ _
  rw [cell_of_free hok openings hlead hne, h, Option.isSome_some, Parts.cell, hname] at hcell
  generalize (closeLeading openings r.row.tokens).1.length = steps at hcell
  cases hcell
  obtain ⟨pad, hpad⟩ := withComment_eq width indent (Cell.assigned nameWidth
    (Text.trim (first.gap ++ first.text ++ second.gap)) (Text.trim (firstLine
      (textOf (r.parts true).code ((r.parts true).gap r.tail))))) (r.parts true).comment
  change _ = Text.trimRight (_ ++ Cell.withComment width indent (Cell.assigned nameWidth
    (Text.trim (first.gap ++ first.text ++ second.gap)) _) _) at htext
  rw [hpad, written_named fun c hc => hok.heads c (by rw [hws, ← hmore, hc]; simp)] at htext
  -- the line is the one written for its own row
  obtain ⟨hfront, -⟩ := name_kept hok hok (keptRow_refl r) hlead hws hws hequal rfl htext
  have hnonblank := trim_name_ne_nil hok (w := first) (by rw [hws]; simp) first.gap second.gap
  refine ⟨Text.trim (first.gap ++ first.text ++ second.gap), rfl, ?_, ?_⟩
  · have hlength := congrArg List.length hfront
    rw [hcolumn, hlength, List.length_append, List.length_append, Text.padRight_length,
      length_indentation, List.length_singleton]
    omega
  · rw [Row.indent, htext, Text.padRight, List.append_assoc, takeWhile_indentation _ _ hnonblank,
      length_indentation]

theorem exists_comment {remark : Token} (h : r.row.comment? = some remark) :
    ∃ front c, r.lexemes = front ++ [c] ∧ front ≠ [] ∧ '\n' ∉ c.text ∧ Text.isBlankText r.tail ∧
      comment = some (Text.trimRight c.text) ∧ r.row.code = textOf front c.gap ∧
      remark.start.column = (textOf front c.gap).length + 1 := by
  have hlead := lead_of_free hcell
  have hne : r.lexemes ≠ [] := by
    intro hnil
    rw [Row.comment?, lexemes_eq_nil_iff.mpr hnil] at h
    cases h
  have hassign := isAssignment_of_equal? (r := r)
  rw [cell_of_free hok openings hlead hne] at hcell
  generalize r.row.equal?.isSome = named at hcell hassign
  generalize (closeLeading openings r.row.tokens).1.length = steps at hcell
  cases hc : (r.parts named).comment with
  | none =>
    rw [comment?_of_none hok hlead hc hassign] at h
    cases h
  | some c =>
    obtain ⟨front, hws⟩ := exists_front hc
    obtain ⟨hlen, -, hn, hblank⟩ := parts_comment_some hc
    have hfront : front ≠ [] := by
      rintro rfl
      rw [hws] at hlen
      simp at hlen
    have hsplit : r.lexemes = front ++ (r.parts named).comment.toList := by
      rw [hc]
      exact hws
    have hcode := code_row hok hlead hassign hsplit
    rw [Parts.gap, hc, firstLine_of_not_mem (newline_not_mem_front hok [] hws)] at hcode
    rw [Parts.cell, hc] at hcell
    cases hcell
    rw [comment?_of_some hok hlead hc hws] at h
    cases h
    exact ⟨front, c, hws, hfront, hn, hblank, rfl, hcode, column_concat hok hlead hws⟩

theorem trimRight_withName (hne : r.lexemes ≠ []) (nameWidth : Nat) :
    Text.trimRight (Cell.withName nameWidth code name) = Cell.withName nameWidth code name := by
  rw [cell_of_free hok openings (lead_of_free hcell) hne] at hcell
  cases hcell
  cases (r.parts r.row.equal?.isSome).name with
  | none => exact Text.trimRight_trim _
  | some _ => exact Text.trimRight_idem _

/-- Where the comment of a written line stands, and how long the code in front of it is. -/
theorem column_written_comment {remark : Token} (h : r.row.comment? = some remark) {nameWidth width : Nat}
    {commentText : Text} (hcomment : comment = some commentText)
    (htext : r.row.text = Text.trimRight (indentation indent ++
      Cell.remark width indent (Cell.withName nameWidth code name) commentText)) :
    remark.start.column = max width (2 * indent + (Cell.withName nameWidth code name).length) + 2 ∧
      (Text.trimRight r.row.code).length = 2 * indent + (Cell.withName nameWidth code name).length := by
  obtain ⟨front, c, hws, hfront, hn, hblank, hremark, hcode, hcolumn⟩ := exists_comment hok hcell h
  have htrim := trimRight_withName hok hcell (by rw [hws]; simp) nameWidth
  cases hcomment.symm.trans hremark
  generalize Cell.withName nameWidth code name = line at htext htrim ⊢
  have hbefore : textOf front c.gap =
      indentation indent ++ Text.padRight (width - 2 * indent) line ++ [' '] :=
    textOf_front hok (lead_of_free hcell) hws hn hblank (by simpa [Cell.remark] using htext)
  have hline : line ≠ [] := by
    rintro rfl
    have hmem : ∀ w ∈ front, w ∈ r.lexemes := fun w hw => by
      rw [hws]
      exact List.mem_append_left _ hw
    have hnonblank := trim_code_ne_nil hok hmem hfront c.gap
    rw [firstLine_of_not_mem (newline_not_mem_front hok [] hws)] at hnonblank
    refine hnonblank (Text.trim_eq_nil_iff.mpr ?_)
    rw [hbefore]
    exact Segment.isBlankText_of_isSpaces (List.forall_mem_append.mpr ⟨List.forall_mem_append.mpr
      ⟨isSpaces_indentation _, isSpaces_replicate _⟩, List.forall_mem_singleton.mpr rfl⟩)
  refine ⟨?_, ?_⟩
  · rw [hcolumn, hbefore, List.length_append, List.length_append, Text.padRight_length, length_indentation,
      List.length_singleton]
    omega
  · rw [hcode, hbefore, Text.padRight, List.append_assoc, List.append_assoc, ← List.append_assoc,
      Text.trimRight_append_blank _ (isBlankText_spaces _), Text.trimRight_append (by rwa [htrim]), htrim,
      List.length_append, length_indentation]

end Line

/-! ## Lines and their cells -/

/-- The cell of a line, in some openings. -/
def HasCell (row : Row) (cell : Cell) : Prop :=
  ∃ (r : LexRow) (openings : Openings), r.Ok ∧ r.row = row ∧ r.cell openings = cell

theorem hasCell_cellsFrom {rows : List LexRow} (hok : ∀ r ∈ rows, r.Ok) (openings : Openings) :
    List.Forall₂ HasCell (rows.map LexRow.row) (cellsFrom openings rows) := by
  induction rows generalizing openings with
  | nil => exact .nil
  | cons r rows ih =>
    obtain ⟨hr, hrows⟩ := List.forall_mem_cons.mp hok
    exact .cons ⟨r, openings, hr, rfl, rfl⟩ (ih hrows _)

/-- The cell of a free line has a name when the line has an `=`, and a comment when it has one. -/
theorem exists_free_cell {r : LexRow} (hok : r.Ok) (hlead : r.lead = none) (openings : Openings) :
    ∃ indent name code comment, r.cell openings = .free indent name code comment ∧
      name.isSome = r.row.equal?.isSome ∧ comment.isSome = r.row.comment?.isSome := by
  have hassign := isAssignment_of_equal? (r := r)
  by_cases hnil : r.lexemes = []
  · refine ⟨0, none, [], none, cell_of_nil openings hlead hnil, ?_, ?_⟩
    · rw [isSome_equal?, hnil]
      rfl
    · rw [Row.comment?, lexemes_eq_nil_iff.mpr hnil]
      rfl
  · refine ⟨_, _, _, _, cell_of_free hok openings hlead hnil, ?_, ?_⟩
    · rw [Option.isSome_map, isSome_parts_name]
    · rw [Option.isSome_map]
      cases hc : (r.parts r.row.equal?.isSome).comment with
      | none =>
        rw [comment?_of_none hok hlead hc hassign]
        rfl
      | some c =>
        obtain ⟨front, hws⟩ := exists_front hc
        rw [comment?_of_some hok hlead hc hws]
        rfl

section Cell

variable {row : Row} {cell : Cell} (h : HasCell row cell)

include h

theorem HasCell.isSome_named? : cell.named?.isSome = row.isAttribute := by
  obtain ⟨r, openings, hok, rfl, rfl⟩ := h
  cases hlead : r.lead with
  | some lead =>
    rw [cell_of_lead openings hlead]
    simp [Row.isAttribute, LexRow.row, hlead, Cell.named?]
  | none =>
    obtain ⟨indent, name, code, comment, hcell, hname, -⟩ := exists_free_cell hok hlead openings
    have hfree : r.row.continued = false := by simp [LexRow.row, hlead]
    rw [hcell, Row.isAttribute, hfree, ← hname]
    cases name <;> rfl

theorem HasCell.isSome_commented? {aligned : Cell} (ha : cell.NameAligned aligned) :
    aligned.commented?.isSome = row.isCommented := by
  obtain ⟨r, openings, hok, rfl, rfl⟩ := h
  cases hlead : r.lead with
  | some lead =>
    rw [cell_of_lead openings hlead] at ha
    cases ha
    simp [Row.isCommented, LexRow.row, hlead, Cell.commented?]
  | none =>
    obtain ⟨indent, name, code, comment, hcell, -, hcomment⟩ := exists_free_cell hok hlead openings
    have hfree : r.row.continued = false := by simp [LexRow.row, hlead]
    rw [hcell] at ha
    obtain ⟨nameWidth, rfl⟩ := ha
    rw [Row.isCommented, hfree, ← hcomment]
    cases comment <;> rfl

theorem HasCell.trimRight_text (hfree : row.continued = false) (hw : cell.WrittenAs row.text) :
    Text.trimRight row.text = row.text := by
  obtain ⟨r, openings, hok, rfl, rfl⟩ := h
  have hlead : r.lead = none := Option.not_isSome_iff_eq_none.mp (by
    rw [show r.lead.isSome = false from hfree]
    exact Bool.false_ne_true)
  obtain ⟨indent, name, code, comment, hcell, -, -⟩ := exists_free_cell hok hlead openings
  rw [hcell] at hw
  obtain ⟨nameWidth, width, htext⟩ := hw
  rw [htext, Text.trimRight_idem]

end Cell

/-! ## Columns of a run -/

theorem named?_eq_some {cell : Cell} {indent : Nat} {name code : Text} {comment : Option Text}
    (h : cell.named? = some (indent, name, code, comment)) : cell = .free indent (some name) code comment := by
  cases cell with
  | verbatim text => cases h
  | free _ name' _ _ =>
    cases name' with
    | none => cases h
    | some _ =>
      cases h
      rfl

theorem commented?_eq_some {cell : Cell} {indent : Nat} {code comment : Text}
    (h : cell.commented? = some (indent, code, comment)) :
    ∃ name, cell = .free indent name code (some comment) := by
  cases cell with
  | verbatim text => cases h
  | free _ name _ comment' =>
    cases comment' with
    | none => cases h
    | some _ =>
      cases h
      exact ⟨name, rfl⟩

/-- Where the comment stands in a line that the layout has written, behind code of which length. -/
theorem HasCell.column_comment {row : Row} {cell aligned : Cell} (h : HasCell row cell)
    (ha : cell.NameAligned aligned) {indent width : Nat} {code comment : Text}
    (hview : aligned.commented? = some (indent, code, comment))
    (htext : row.text = Text.trimRight (indentation indent ++ Cell.remark width indent code comment)) :
    (∀ remark ∈ row.comment?, remark.start.column = max width (2 * indent + code.length) + 2) ∧
      (Text.trimRight row.code).length = 2 * indent + code.length := by
  have hsome := h.isSome_commented? ha
  rw [hview, Option.isSome_some, Row.isCommented, eq_comm, Bool.and_eq_true_iff] at hsome
  obtain ⟨remark, hremark⟩ := Option.isSome_iff_exists.mp hsome.2
  obtain ⟨name, rfl⟩ := commented?_eq_some hview
  obtain ⟨r, openings, hok, rfl, rfl⟩ := h
  cases hcell : r.cell openings with
  | verbatim text =>
    rw [hcell] at ha
    cases ha
  | free _ name' code' comment' =>
    rw [hcell] at ha
    obtain ⟨nameWidth, haligned⟩ := ha
    cases haligned
    obtain ⟨hcolumn, hcode⟩ := column_written_comment hok hcell hremark rfl htext
    refine ⟨fun remark' hremark' => ?_, hcode⟩
    rw [hremark] at hremark'
    cases hremark'
    exact hcolumn

section Run

variable {rows : List Row} {cells : List Cell} (hcells : List.Forall₂ HasCell rows cells)
  (htexts : rows.map Row.text = Cell.lines cells) {run : List Row}

include hcells htexts

/-- In a run of attributes the `=` stand behind the longest name. -/
theorem columns_equal (h : IsRun Row.isAttribute rows run) : ∃ width, ∀ row ∈ run, ∀ equal ∈ row.equal?,
    equal.start.column = row.indent + width := by
  obtain hnil | hne := eq_or_ne run []
  · exact ⟨0, by rw [hnil]; exact List.forall_mem_nil _⟩
  -- the comments have yet to be aligned when the names are
  have hwritten : List.Forall₂ (fun row aligned => ∃ final, Cell.CommentAligned aligned final ∧
      row.text = final.written) rows (mapRuns Cell.named? Cell.alignNames cells) :=
    Cell.forall₂_trans (fun _ final _ htext ha => ⟨final, ha, htext⟩) (map_eq_map_iff.mp htexts)
      (Cell.commentAligned_mapRuns _).flip
  obtain ⟨run', hR, hsome, hchanged⟩ := h.forall₂_change hne hcells (fun _ _ h => h.isSome_named?)
    (fun zs => (Cell.nameAligned_mapRuns zs).length_eq.symm) hwritten
  rw [Cell.alignNames, List.forall₂_map_right_iff] at hchanged
  have hviews := Cell.forall₂_trans (T := fun row p => HasCell row p.1 ∧ Cell.named? p.1 = some p.2)
    (fun _ _ _ hcell hp => ⟨hp.1 ▸ hcell, hp.1 ▸ hp.2⟩) hR (forall₂_takeRun_self hsome)
  generalize takeRun Cell.named? run' = views at hchanged hviews
  refine ⟨maxOf (fun p => p.2.2.1.length) views + 2, fun row hrow equal hequal => ?_⟩
  obtain ⟨⟨cell, indent, name, code, comment⟩, hp, ⟨hcell, hname⟩, final, hfinal, htext⟩ :=
    exists_of_forall₂ (forall₂_and hviews hchanged) row hrow
  have hle := le_maxOf (fun p : Cell × Nat × Text × Text × Option Text => p.2.2.1.length) hp
  generalize maxOf _ views = nameWidth at hfinal hle ⊢
  obtain ⟨r, openings, hok, rfl, hcell⟩ := hcell
  rw [named?_eq_some hname] at hcell
  obtain ⟨width, name', rfl⟩ := hfinal
  obtain ⟨nameText, hnameText, hcolumn, hindent⟩ :=
    column_written_equal hok hcell hequal htext
  cases hnameText
  rw [hcolumn, hindent, Nat.max_eq_left hle, Nat.add_assoc]

/-- In a run of commented lines the comments stand one space behind the longest code. -/
theorem columns_comment (h : IsRun Row.isCommented rows run) : ∀ row ∈ run, ∀ comment ∈ row.comment?,
    comment.start.column = maxOf (fun row => (Text.trimRight row.code).length) run + 2 := by
  obtain hnil | hne := eq_or_ne run []
  · rw [hnil]
    exact List.forall_mem_nil _
  have haligned : List.Forall₂ (fun row aligned => ∃ cell, HasCell row cell ∧ cell.NameAligned aligned) rows
      (mapRuns Cell.named? Cell.alignNames cells) :=
    Cell.forall₂_trans (fun _ cell _ hcell ha => ⟨cell, hcell, ha⟩) hcells (Cell.nameAligned_mapRuns cells)
  obtain ⟨run', hR, hsome, hchanged⟩ := h.forall₂_change hne haligned
    (by
      rintro row aligned ⟨cell, hcell, ha⟩
      exact hcell.isSome_commented? ha)
    (fun zs => (Cell.commentAligned_mapRuns zs).length_eq.symm) (map_eq_map_iff.mp htexts)
  rw [Cell.alignComments, List.forall₂_map_right_iff] at hchanged
  have hviews := Cell.forall₂_trans (T := fun row p =>
      (∃ cell, HasCell row cell ∧ cell.NameAligned p.1) ∧ Cell.commented? p.1 = some p.2)
    (fun _ _ _ hcell hp => ⟨hp.1 ▸ hcell, hp.1 ▸ hp.2⟩) hR (forall₂_takeRun_self hsome)
  generalize takeRun Cell.commented? run' = views at hchanged hviews
  have hcolumns := (forall₂_and hviews hchanged).imp
    (S := fun row p => (∀ comment ∈ row.comment?, comment.start.column =
        max (maxOf (fun p => 2 * p.2.1 + p.2.2.1.length) views) (2 * p.2.1 + p.2.2.1.length) + 2) ∧
      (Text.trimRight row.code).length = 2 * p.2.1 + p.2.2.1.length) (by
    rintro row ⟨aligned, indent, code, comment⟩ ⟨⟨⟨cell, hcell, ha⟩, hview⟩, htext⟩
    exact hcell.column_comment ha hview htext)
  intro row hrow comment hcomment
  obtain ⟨p, hp, hcolumn, -⟩ := exists_of_forall₂ hcolumns row hrow
  rw [hcolumn comment hcomment, maxOf_eq (hcolumns.imp fun _ _ h => h.2), Nat.max_eq_left (le_maxOf _ hp)]

theorem trimmed_rows : ∀ row ∈ rows, row.continued = false → Text.trimRight row.text = row.text := by
  have hwritten := Cell.writtenAs_lines cells
  rw [← htexts] at hwritten
  have hrows := Cell.forall₂_trans (T := fun row text => ∃ cell, HasCell row cell ∧ cell.WrittenAs text)
    (fun _ cell _ hcell hw => ⟨cell, hcell, hw⟩) hcells hwritten
  rw [List.forall₂_map_right_iff, List.forall₂_same] at hrows
  intro row hrow hfree
  obtain ⟨cell, hcell, hw⟩ := hrows row hrow
  exact hcell.trimRight_text hfree hw

end Run

/-- The canonical layout of a text that has tokens has tokens, and its lines keep the layout law. -/
theorem format_aligned {text : Text} {stream : TokenStream} (h : TokenStream.ofText text = .ok stream) :
    ∃ stream', TokenStream.ofText (format text) = .ok stream' ∧
      Aligned (format text) (rowsOf (format text) stream'.tokens) := by
  obtain ⟨vs, htext, hfit, hlines, hends⟩ := exists_settled h
  have hgap : isGap [] := List.forall_mem_nil _
  have hcells := hasCell_cellsFrom (ok_rows hfit hgap) []
  have htexts : ((lexRows Position.start none [] vs []).map LexRow.row).map Row.text =
      Cell.lines (cellsOf vs []) := by
    rw [hlines, htext, ← text_lexRows hfit hgap, List.map_map]
    rfl
  refine ⟨_, by rw [htext]; exact readAll_textOf hfit hgap Position.start, ?_⟩
  have hrows : rowsOf (format text) (tokensAt Position.start vs) =
      (lexRows Position.start none [] vs []).map LexRow.row := by
    rw [htext, rowsOf_textOf hfit hgap]
  rw [hrows]
  refine ⟨trimmed_rows hcells htexts, hends, fun run hrun row hrow row' hrow' hindent equal hequal equal'
    hequal' => ?_, fun run hrun => columns_comment hcells htexts hrun⟩
  obtain ⟨width, hcolumn⟩ := columns_equal hcells htexts hrun
  rw [hcolumn row hrow equal hequal, hcolumn row' hrow' equal' hequal', hindent]

/-- Two runs of attributes, one with a nested attribute, comments and a heredoc. -/
theorem format_aligned_nested :
    let text := "\n a = 1 # x\nlonger=[ // y\n b=2\n]/* z */ \nc=<<E \n  k \nE\n\"d\"\t=\t{}#e\nee=2\n \n".toList
    ∃ stream stream', TokenStream.ofText text = .ok stream ∧
      TokenStream.ofText (format text) = .ok stream' ∧
      Aligned (format text) (rowsOf (format text) stream'.tokens) := by
  intro text
  have hread : (TokenStream.ofText text).toOption.isSome = true := by decide +kernel
  cases h : TokenStream.ofText text with
  | error e =>
    rw [h] at hread
    cases hread
  | ok stream =>
    obtain ⟨stream', h', haligned⟩ := format_aligned h
    exact ⟨stream, stream', rfl, h', haligned⟩

end HclTidy.Layout
