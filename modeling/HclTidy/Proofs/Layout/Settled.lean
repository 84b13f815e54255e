import HclTidy.Proofs.Layout.Reread

/-!
# Laying out a text in canonical layout

Blank lines at both ends of a text do not change its canonical layout. The lines of a text in
canonical layout are those that the layout writes for it, so it is its own canonical layout. A text
without tokens is laid out as it stays unless the loss of white space at its line ends gives it
tokens.
-/

set_option autoImplicit false

namespace HclTidy.Layout

open Token

/-! ## Blank lines at both ends -/

/-- A line without tokens. -/
def LexRow.IsBlank (r : LexRow) : Prop := r.lead = none ∧ r.lexemes = []

/-- The cell of a line without tokens. -/
def Cell.blank : Cell := .free 0 none [] none

theorem lexRows_append (us : List Lexeme) (gap : Text) (ws : List Lexeme) (tail : Text) :
    ∀ (start : Position) (lead : Option Text) (front : List Lexeme), ∃ s : Position, s.column = 1 ∧
      lexRows start lead front (us ++ lineFeed gap :: ws) tail =
        lexRows start lead front us gap ++ lexRows s none [] ws tail := by
  induction us with
  | nil =>
    intro start lead front
    refine ⟨start.after (textOf (front ++ [lineFeed gap]) []), ?_, rfl⟩
    rw [textOf_concat, textOf_eq_append, List.append_nil, ← List.append_assoc]
    exact column_after_newline _ _
  | cons u us ih =>
    intro start lead front
    rw [List.cons_append, lexRows, lexRows]
    split
    · obtain ⟨s, hs, hrows⟩ := ih (start.after (textOf (front ++ [u]) [])) none []
      exact ⟨s, hs, congrArg (List.cons _) hrows⟩
    · split
      · next first second more _ =>
        obtain ⟨s, hs, hrows⟩ := ih (start.after (textOf (front ++ [u]) []))
          (some ((second :: more).getLast (List.cons_ne_nil _ _))) []
        refine ⟨s, hs, ?_⟩
        rw [hrows, List.cons_append, List.append_assoc]
      · exact ih _ _ _

theorem blank_lexRows {ws : List Lexeme} (h : ∀ w ∈ ws, w.kind = .newline) (tail : Text) (start : Position) :
    ∀ r ∈ lexRows start none [] ws tail, r.IsBlank := by
  induction ws generalizing start with
  | nil =>
    intro r hr
    rw [List.mem_singleton.mp hr]
    exact ⟨rfl, rfl⟩
  | cons w ws ih =>
    obtain ⟨hw, hws⟩ := List.forall_mem_cons.mp h
    intro r hr
    rw [lexRows, if_pos hw] at hr
    obtain rfl | hr := List.mem_cons.mp hr
    · exact ⟨rfl, rfl⟩
    · exact ih hws _ r hr

theorem lexRows_above {above : List Lexeme} (h : ∀ w ∈ above, w.kind = .newline) (hb : Breaks above)
    (ws : List Lexeme) (tail : Text) {start : Position} (hstart : start.column = 1) :
    ∃ (s : Position) (rows : List LexRow), s.column = 1 ∧ (∀ r ∈ rows, r.IsBlank) ∧
      lexRows start none [] (above ++ ws) tail = rows ++ lexRows s none [] ws tail := by
  induction above generalizing start with
  | nil => exact ⟨start, [], hstart, List.forall_mem_nil _, rfl⟩
  | cons w above ih =>
    obtain ⟨hw, habove⟩ := List.forall_mem_cons.mp h
    obtain ⟨⟨-, htext⟩, hbreaks⟩ := List.forall_mem_cons.mp hb
    have hcolumn : (start.after (textOf ([] ++ [w]) [])).column = 1 := by
      rw [List.nil_append, textOf_cons, textOf_nil, List.append_nil, htext hw]
      exact column_after_newline _ _
    obtain ⟨s, rows, hs, hrows, heq⟩ := ih habove hbreaks hcolumn
    refine ⟨s, ⟨start, none, [], w.gap⟩ :: rows, hs, List.forall_mem_cons.mpr ⟨⟨rfl, rfl⟩, hrows⟩, ?_⟩
    rw [List.cons_append, lexRows, if_pos hw, heq]
    rfl

/-- The rows of a text whose line feeds at both ends have been taken off. -/
theorem lexRows_middle {ws above mid below : List Lexeme} {tail gap : Text}
    (hsplit : ws ++ [lineFeed tail] = above ++ (mid ++ lineFeed gap :: below))
    (hbreaks : Breaks (ws ++ [lineFeed tail])) (habove : ∀ w ∈ above, w.kind = .newline)
    (hbelow : ∀ w ∈ below, w.kind = .newline) {start : Position} (hstart : start.column = 1) :
    ∃ (s : Position) (rows rows' : List LexRow), s.column = 1 ∧ (∀ r ∈ rows, r.IsBlank) ∧
      (∀ r ∈ rows', r.IsBlank) ∧
      lexRows start none [] ws tail = rows ++ (lexRows s none [] mid gap ++ rows') := by
  obtain ⟨s₁, -, hwhole⟩ := lexRows_append ws tail [] [] start none []
  have habove' : Breaks above := fun w hw => hbreaks w (by rw [hsplit]; exact List.mem_append_left _ hw)
  obtain ⟨s, rows, hs, hrows, hfront⟩ :=
    lexRows_above habove habove' (mid ++ lineFeed gap :: below) [] hstart
  obtain ⟨s₂, -, hback⟩ := lexRows_append mid gap below [] s none []
  rw [hsplit, hfront, hback] at hwhole
  have hne := lexRows_ne_nil s₂ none [] below []
  refine ⟨s, rows, (lexRows s₂ none [] below []).dropLast, hs, hrows, fun r hr =>
    blank_lexRows hbelow [] s₂ r (List.dropLast_subset _ hr), ?_⟩
  -- the line feed behind the text has added a row, which is the last one and blank
  have hdrop := congrArg List.dropLast hwhole
  rw [lexRows, List.dropLast_concat, ← List.append_assoc, List.dropLast_append_of_ne_nil hne,
    List.append_assoc] at hdrop
  exact hdrop.symm

/-! ## Blank cells -/

theorem lineOf_blank {r : LexRow} (h : r.IsBlank) (openings : Openings) :
    (lineOf openings r.row).2 = openings := by
  have htokens : r.row.tokens = [] := lexemes_eq_nil_iff.mpr h.2
  simp [lineOf, htokens, closeLeading, netBrackets]

theorem cellsFrom_blank {rows : List LexRow} (h : ∀ r ∈ rows, r.IsBlank) (openings : Openings)
    (rest : List LexRow) : cellsFrom openings (rows ++ rest) =
      List.replicate rows.length Cell.blank ++ cellsFrom openings rest := by
  induction rows with
  | nil => rfl
  | cons r rows ih =>
    obtain ⟨hr, hrows⟩ := List.forall_mem_cons.mp h
    rw [List.cons_append, cellsFrom, cell_of_nil openings hr.1 hr.2, lineOf_blank hr, ih hrows]
    rfl

theorem cellsFrom_append (rows rest : List LexRow) (openings : Openings) :
    ∃ openings', cellsFrom openings (rows ++ rest) = cellsFrom openings rows ++ cellsFrom openings' rest := by
  induction rows generalizing openings with
  | nil => exact ⟨openings, rfl⟩
  | cons r rows ih =>
    obtain ⟨openings', h⟩ := ih (lineOf openings r.row).2
    exact ⟨openings', congrArg (List.cons _) h⟩

/-- Blank cells are written as blank lines and are in no run. -/
theorem lines_blank (a b : Nat) (cells : List Cell) :
    Cell.lines (List.replicate a Cell.blank ++ (cells ++ List.replicate b Cell.blank)) =
      List.replicate a [] ++ (Cell.lines cells ++ List.replicate b []) := by
  have hcut {β : Type} {view : Cell → Option β} (hview : view Cell.blank = none)
      (change : List (Cell × β) → List Cell) (cells : List Cell) :
      mapRuns view change (List.replicate a Cell.blank ++ (cells ++ List.replicate b Cell.blank)) =
        List.replicate a Cell.blank ++ (mapRuns view change cells ++ List.replicate b Cell.blank) := by
    have hnone (n : Nat) : ∀ cell ∈ List.replicate n Cell.blank, view cell = none := by
      intro cell hcell
      rw [List.eq_of_mem_replicate hcell]
      exact hview
    rw [mapRuns_append_of_getLast? _ fun c hc => hnone a c (List.mem_of_getLast? hc),
      mapRuns_append _ fun c hc => hnone b c (List.mem_of_head? hc), mapRuns_eq_self (hnone a),
      mapRuns_eq_self (hnone b)]
  unfold Cell.lines
  rw [hcut rfl, hcut rfl]
  simp only [List.map_append, List.map_replicate]
  rfl

/-! ## The lines of the layout, laid out again -/

theorem rowsFrom_text (ls : List Text) (number reach : Nat) (tokens : List Token) :
    (rowsFrom number reach tokens ls).map Row.text = ls := by
  induction ls generalizing number reach tokens with
  | nil => rfl
  | cons l ls ih => exact congrArg (List.cons l) (ih _ _ _)

theorem text_lexRows {ws : List Lexeme} {tail : Text} (h : AllFit ws tail) (ht : isGap tail) :
    (lexRows Position.start none [] ws tail).map LexRow.text = Text.lines (textOf ws tail) := by
  have hrows := congrArg (List.map Row.text) (rowsOf_textOf h ht)
  rw [rowsOf, rowsFrom_text, List.map_map] at hrows
  exact hrows.symm

theorem cellsFrom_kept {rows rows' : List LexRow} (h : List.Forall₂ KeptRow rows rows')
    (hok : ∀ r ∈ rows, r.Ok) (hok' : ∀ r ∈ rows', r.Ok) (openings : Openings)
    (houts : List.Forall₂ Cell.WrittenAs (cellsFrom openings rows) (rows'.map LexRow.text)) :
    cellsFrom openings rows' = cellsFrom openings rows := by
  induction h generalizing openings with
  | nil => rfl
  | @cons r r' _ _ hrow _ ih =>
    obtain ⟨hr, hrows⟩ := List.forall_mem_cons.mp hok
    obtain ⟨hr', hrows'⟩ := List.forall_mem_cons.mp hok'
    cases houts with
    | cons hout hrest =>
      have hkinds := same_kinds (sameSource_tokensAt hrow.lexemes r.start r'.start)
      have hopenings : (lineOf openings r'.row).2 = (lineOf openings r.row).2 := lineOf_kinds hkinds openings
      rw [cellsFrom, cellsFrom, cell_kept hr hr' hrow hout, hopenings, ih hrows hrows' _ hrest]

section Middle

variable {mid : List Lexeme} {gap : Text} (hfit : AllFit (mid ++ [lineFeed gap]) []) {s : Position}
  (hs : s.column = 1) {outs : List Text}
  (houts : Cell.lines (cellsFrom [] (lexRows s none [] mid gap)) = outs)

include hfit hs houts

/-- The lines written for code that begins and ends with a token are lexemes again. -/
theorem exists_written_lines (hhead : ∃ w more, mid = w :: more ∧ w.kind ≠ .newline)
    (hlast : ∃ w front, mid = front ++ [w] ∧ w.kind ≠ .newline) :
    ∃ vs, Text.unlines outs ++ ['\n'] = textOf vs [] ∧ AllFit vs [] ∧
      List.Forall₂ Kept (mid ++ [lineFeed gap]) vs ∧ Text.lines (textOf vs []) = outs ++ [[]] ∧
      (∃ l more, outs = l :: more ∧ Text.allBlank l = false) ∧
      ∃ l front, outs = front ++ [l] ∧ Text.allBlank l = false := by
  obtain ⟨hmid, hgap, -⟩ := allFit_append.mp hfit
  have hmidGap : AllFit mid gap := allFit_tailChange hmid (tailChange_append gap _)
  have hok := ok_lexRows s none [] gap hmidGap hgap (List.forall_mem_nil _) fun _ => hs
  have hrelaid := relaidAs_cellsFrom hok [] (Cell.writtenAs_lines _)
  rw [houts] at hrelaid
  obtain ⟨vs, htext, hrespaced, -, hkept⟩ := exists_respaced (breaks_of_allFit hmidGap) s none [] gap outs
    (List.forall_mem_nil _) (List.forall_mem_nil _) hrelaid
  have hne : outs ≠ [] := by
    rintro rfl
    exact lexRows_ne_nil _ _ _ _ _ (List.forall₂_nil_right_iff.mp hrelaid)
  have hnl := newline_not_mem_outs hrelaid (newline_not_mem_lead s none [] List.not_mem_nil)
  have hfit' : AllFit vs [] := allFit_respaced hrespaced ⟨meets_refl [], id⟩ hfit
  rw [Option.getD_none, List.nil_append] at htext
  rw [List.nil_append] at hkept
  obtain ⟨mid', feeds, rfl, hkeptMid, hkeptFeed⟩ := forall₂_append_left hkept
  cases hkeptFeed with
  | @cons _ feed _ _ hfeed hnil =>
    cases hnil
    have hfeedText := (breaks_of_allFit hfit' feed (by simp)).2 hfeed.kind
    obtain ⟨hmid', hgap', -⟩ := allFit_append.mp hfit'
    have hlines : outs = Text.lines (textOf mid' feed.gap) := by
      rw [textOf_concat, hfeedText, textOf_eq_append, List.append_nil, ← List.append_assoc,
        ← textOf_eq_append] at htext
      rw [← List.append_cancel_right htext, Text.lines_unlines hne hnl]
    have hends := lines_ends hmid' hgap' (by
        obtain ⟨w, more, rfl, hk⟩ := hhead
        cases hkeptMid with
        | cons hw _ => exact ⟨_, _, rfl, by rwa [hw.kind]⟩) (by
        obtain ⟨w, front, rfl, hk⟩ := hlast
        obtain ⟨front', ends, rfl, -, hend⟩ := forall₂_append_left hkeptMid
        cases hend with
        | cons hw hnil =>
          cases hnil
          exact ⟨_, front', rfl, by rwa [hw.kind]⟩)
    rw [← hlines] at hends
    refine ⟨mid' ++ [feed], htext, hfit', hkept, ?_, hends⟩
    rw [← htext, lines_unlines_newline hne hnl]

theorem cellsOf_written {vs : List Lexeme} (hfit' : AllFit vs [])
    (hkept : List.Forall₂ Kept (mid ++ [lineFeed gap]) vs)
    (hlines : Text.lines (textOf vs []) = outs ++ [[]]) : Cell.lines (cellsOf vs []) = outs ++ [[]] := by
  obtain ⟨s', -, hrows⟩ := lexRows_append mid gap [] [] s none []
  obtain ⟨openings, hcells⟩ := cellsFrom_append (lexRows s none [] mid gap) [⟨s', none, [], []⟩] []
  have hblank : Cell.lines (cellsFrom [] (lexRows s none [] (mid ++ [lineFeed gap]) [])) = outs ++ [[]] := by
    have hcut := lines_blank 0 1 (cellsFrom [] (lexRows s none [] mid gap))
    rw [houts] at hcut
    rw [hrows, lexRows, hcells, cellsFrom, cellsFrom, cell_of_nil openings rfl rfl]
    exact hcut
  have hrow := lexRows_kept hkept s Position.start none [] [] [] [] .nil
  have hok := ok_lexRows s none [] [] hfit (List.forall_mem_nil _) (List.forall_mem_nil _) fun _ => hs
  have hsame := cellsFrom_kept hrow hok (ok_rows hfit' (List.forall_mem_nil _)) [] (by
    rw [text_lexRows hfit' (List.forall_mem_nil _), hlines, ← hblank]
    exact Cell.writtenAs_lines _)
  rw [cellsOf, hsame, hblank]

end Middle

/-- The canonical layout of a text that has tokens is a text that the layout does not change, which
is empty or begins and ends with a line that is not blank. -/
theorem exists_settled {text : Text} {stream : TokenStream} (h : TokenStream.ofText text = .ok stream) :
    ∃ vs, format text = textOf vs [] ∧ AllFit vs [] ∧
      Cell.lines (cellsOf vs []) = Text.lines (format text) ∧
      (format text = [] ∨ ∃ ls, Text.lines (format text) = ls ++ [[]] ∧
        (∃ l more, ls = l :: more ∧ Text.allBlank l = false) ∧
        ∃ l front, ls = front ++ [l] ∧ Text.allBlank l = false) := by
  obtain ⟨ws, tail, rfl, hfit, htail, -⟩ := exists_lexemes h
  by_cases hcode : ∃ w ∈ ws, w.kind ≠ .newline
  · obtain ⟨above, mid, below, gap, hsplit, -, habove, hbelow, hhead, hlast⟩ := exists_code hfit hcode
    have hwhole := allFit_lineFeed hfit htail
    obtain ⟨s, rows, rows', hs, hrows, hrows', hlex⟩ :=
      lexRows_middle hsplit (breaks_of_allFit hwhole) habove hbelow (rfl : Position.start.column = 1)
    have hmid : AllFit (mid ++ [lineFeed gap]) [] := by
      have happend : mid ++ lineFeed gap :: below = (mid ++ [lineFeed gap]) ++ below := by simp
      rw [hsplit, happend] at hwhole
      exact allFit_tailChange (allFit_append.mp (allFit_append.mp hwhole).2).1
        ⟨meets_of_stops _ stops_nil, fun _ => endsLine_nil⟩
    obtain ⟨vs, htext, hfit', hkept, hlines, hfirst, hend⟩ := exists_written_lines hmid hs rfl hhead hlast
    obtain ⟨openings, hcells⟩ := cellsFrom_append (lexRows s none [] mid gap) rows' []
    have hblank := cellsFrom_blank hrows' openings []
    rw [List.append_nil] at hblank
    have hformat : format (textOf ws tail) = textOf vs [] := by
      rw [format_textOf hfit htail, cellsOf, hlex, cellsFrom_blank hrows, hcells, hblank, cellsFrom,
        List.append_nil, lines_blank, ← List.append_assoc, finish_append hfirst hend, htext]
    rw [hformat]
    exact ⟨vs, rfl, hfit', (cellsOf_written hmid hs rfl hfit' hkept hlines).trans hlines.symm,
      .inr ⟨_, hlines, hfirst, hend⟩⟩
  · have hk : ∀ w ∈ ws, w.kind = .newline := by
      intro w hw
      by_contra hne
      exact hcode ⟨w, hw, hne⟩
    rw [format_blank hfit htail hk]
    refine ⟨[], rfl, trivial, ?_, .inl rfl⟩
    have hnil : Cell.lines [] = [] := by simp [Cell.lines, mapRuns]
    have hcut := lines_blank 0 1 []
    rwa [hnil] at hcut

/-- Lines that begin and end with one that is not blank, and those of their text, are finished alike. -/
theorem finish_unlines {ls : List Text} (hfirst : ∃ l more, ls = l :: more ∧ Text.allBlank l = false)
    (hlast : ∃ l front, ls = front ++ [l] ∧ Text.allBlank l = false) :
    finish (ls ++ [[]]) = Text.unlines ls ++ ['\n'] :=
  finish_append (a := 0) (b := 1) hfirst hlast

/-- The canonical layout of a text that has tokens is its own canonical layout. -/
theorem format_settled {text : Text} {stream : TokenStream} (h : TokenStream.ofText text = .ok stream) :
    format (format text) = format text := by
  obtain ⟨vs, htext, hfit, hlines, hends⟩ := exists_settled h
  have hformat := format_textOf hfit (List.forall_mem_nil _)
  rw [hlines, ← htext] at hformat
  rw [hformat]
  obtain hnil | ⟨ls, hls, hfirst, hlast⟩ := hends
  · rw [hnil]
    rfl
  · have hne : ls ≠ [] := by
      obtain ⟨l, more, rfl, -⟩ := hfirst
      exact List.cons_ne_nil l more
    calc
      finish (Text.lines (format text)) = Text.unlines ls ++ '\n' :: Text.unlines [[]] := by
        rw [hls, finish_unlines hfirst hlast]
        rfl
      _ = Text.unlines (ls ++ [[]]) := (Text.unlines_append hne (List.cons_ne_nil _ _)).symm
      _ = format text := by rw [← hls, Text.unlines_lines]

/-! ## Texts without tokens -/

/-- Finished lines are none, or begin and end with one that is not blank. -/
theorem exists_finished (rows : List Text) : finish rows = [] ∨ ∃ ls, ls ⊆ rows ∧
    (∃ l more, ls = l :: more ∧ Text.allBlank l = false) ∧
    (∃ l front, ls = front ++ [l] ∧ Text.allBlank l = false) ∧
    finish rows = Text.unlines ls ++ ['\n'] := by
  have hfinish : finish rows = if ((rows.dropWhile Text.allBlank).rdropWhile Text.allBlank).isEmpty
      then [] else Text.unlines ((rows.dropWhile Text.allBlank).rdropWhile Text.allBlank) ++ ['\n'] := rfl
  have hkept := List.rdropWhile_prefix Text.allBlank (rows.dropWhile Text.allBlank)
  have hlast := List.rdropWhile_last_not Text.allBlank (rows.dropWhile Text.allBlank)
  generalize (rows.dropWhile Text.allBlank).rdropWhile Text.allBlank = kept at hfinish hkept hlast
  cases kept with
  | nil => exact .inl hfinish
  | cons l more =>
    refine .inr ⟨l :: more, fun row hrow => (List.dropWhile_sublist _).subset (hkept.subset hrow),
      ⟨l, more, rfl, ?_⟩, ⟨_, _, (List.dropLast_append_getLast (List.cons_ne_nil l more)).symm,
        Bool.eq_false_iff.mpr (hlast (List.cons_ne_nil l more))⟩, hfinish⟩
    obtain ⟨rest, hinner⟩ := hkept
    have hhead := List.head?_dropWhile_not Text.allBlank rows
    rw [← hinner] at hhead
    exact hhead

/-- The layout is settled on every text but those that have tokens only once the white space at
their line ends is gone. -/
theorem format_format {text : Text}
    (h : (TokenStream.ofText (format text)).isOk → (TokenStream.ofText text).isOk) :
    format (format text) = format text := by
  cases htext : TokenStream.ofText text with
  | ok stream => exact format_settled htext
  | error error =>
    cases hformat : TokenStream.ofText (format text) with
    | ok stream =>
      rw [htext, hformat] at h
      exact absurd (h rfl) Bool.false_ne_true
    | error error' =>
      have htrimmed : format text = finish ((Text.lines text).map Text.trimRight) := by
        rw [format, htext]
      have hagain : format (format text) = finish ((Text.lines (format text)).map Text.trimRight) := by
        rw [format, hformat]
      obtain hnil | ⟨ls, hrows, hfirst, hlast, hls⟩ :=
        exists_finished ((Text.lines text).map Text.trimRight)
      · rw [hagain, htrimmed, hnil]
        rfl
      · have hrow {l : Text} (hl : l ∈ ls) : '\n' ∉ l ∧ Text.trimRight l = l := by
          obtain ⟨line, hline, rfl⟩ := List.mem_map.mp (hrows hl)
          exact ⟨Text.newline_not_mem_trimRight (Text.newline_not_mem_lines text line hline),
            Text.trimRight_idem line⟩
        have hne : ls ≠ [] := by
          obtain ⟨l, more, rfl, -⟩ := hfirst
          exact List.cons_ne_nil l more
        have hlines : Text.lines (Text.unlines ls ++ ['\n']) = ls ++ [[]] :=
          lines_unlines_newline hne fun l hl => (hrow hl).1
        rw [hagain, htrimmed, hls, hlines, List.map_append,
          (List.map_congr_left fun l hl => (hrow hl).2).trans (List.map_id ls)]
        exact finish_unlines hfirst hlast

/-- A form feed is no token, but at the end of a line it is white space that the layout removes. -/
theorem not_idempotent_format : ¬∀ text, format (format text) = format text := fun h =>
  absurd (h "a=1\x0c\n".toList) (by decide +kernel)

end HclTidy.Layout
