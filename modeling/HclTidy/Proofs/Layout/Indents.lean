import HclTidy.Proofs.Block.Brackets
import HclTidy.Proofs.Layout.Formatted
import HclTidy.Proofs.Layout.Openings

/-!
# Indentation

A free line is indented by one step for each opening that its leading closers leave. As the openings
count the open brackets, the blocks of a file that is read begin in the first column.
-/

set_option autoImplicit false

namespace HclTidy.Layout

open Token Openings

/-- The openings above line `k + 1`, or below line `k`. -/
def openingsAbove (text : Text) (tokens : List Token) (k : Nat) : Openings :=
  belowAll [] ((rowsOf text tokens).take k)

/-- The lines that the layout writes. -/
def writtenLines (text : Text) (tokens : List Token) : List Text :=
  (linesOf text tokens).map Line.written

/-- The line begins with its indentation and goes on with a character that is not blank. -/
def IndentedBy (steps : Nat) (out : Text) : Prop :=
  ∃ c rest, Text.isBlank c = false ∧ out = indentation steps ++ c :: rest

/-- What is written for a free row: one step for each opening that its leading closers leave, or
nothing for a row without tokens. -/
structure Indented (o : Openings) (row : Row) (out : Text) : Prop where
  blank : row.tokens = [] → out = []
  steps : row.tokens ≠ [] → IndentedBy (leftBehind o row.tokens).length out

/-! ## What is written for a row -/

theorem exists_head_trim {t : Text} (h : Text.trim t ≠ []) :
    ∃ c u, Text.trim t = c :: u ∧ Text.isBlank c = false := by
  have hnot := List.head?_dropWhile_not Text.isBlank t
  rw [Text.trim, Text.trimLeft] at h ⊢
  cases hleft : t.dropWhile Text.isBlank with
  | nil =>
    rw [hleft] at h
    exact absurd rfl h
  | cons c u =>
    rw [hleft] at hnot
    exact ⟨c, Text.trimRight u, Text.trimRight_cons_of_not_blank u hnot, hnot⟩

theorem indentedBy_of_writtenAs {indent : Nat} {name : Option Text} {code : Text}
    {comment : Option Text} {out : Text} (h : (Cell.free indent name code comment).WrittenAs out)
    (hhead : ∃ c u, name.getD code = c :: u ∧ Text.isBlank c = false) : IndentedBy indent out := by
  obtain ⟨nameWidth, width, rfl⟩ := h
  obtain ⟨c, u, hcu, hc⟩ := hhead
  have hname : ∃ v, Cell.withName nameWidth code name = c :: v := by
    cases name with
    | none => exact ⟨u, hcu⟩
    | some name =>
      change name = c :: u at hcu
      rw [Cell.withName, Cell.assigned, hcu, Text.padRight, List.cons_append, List.cons_append,
        List.cons_append, Text.trimRight_cons_of_not_blank _ hc]
      exact ⟨_, rfl⟩
  obtain ⟨v, hv⟩ := hname
  have hcomment : ∃ w, Cell.withComment width indent (Cell.withName nameWidth code name) comment =
      c :: w := by
    rw [hv]
    cases comment with
    | none => exact ⟨v, rfl⟩
    | some comment => exact ⟨_, rfl⟩
  obtain ⟨w, hw⟩ := hcomment
  exact ⟨c, Text.trimRight w, hc, by rw [hw, trimRight_mark _ _ hc]⟩

theorem indented_of_writtenAs {r : LexRow} (hok : r.Ok) (hlead : r.lead = none) {o : Openings}
    {out : Text} (h : (r.cell o).WrittenAs out) : Indented o r.row out := by
  by_cases hnil : r.lexemes = []
  · have htokens : r.row.tokens = [] := by rw [LexRow.row, hnil]; rfl
    refine ⟨fun _ => ?_, fun hne => absurd htokens hne⟩
    rw [cell_of_nil o hlead hnil] at h
    obtain ⟨nameWidth, width, rfl⟩ := h
    rfl
  · obtain ⟨w, ws, hws⟩ := List.exists_cons_of_ne_nil hnil
    refine ⟨fun htokens => ?_, fun _ => ?_⟩
    · rw [LexRow.row, hws] at htokens
      cases htokens
    rw [cell_of_ne_nil hok o hlead hnil, closeLeading_fst] at h
    refine indentedBy_of_writtenAs h ?_
    generalize (decide (pendingOf o r.row.tokens = 0) && isAssignment r.lexemes) = named
    have hlex := r.parts_lexemes named
    unfold Parts.lexemes at hlex
    cases hname : (r.parts named).name with
    | some p =>
      refine exists_head_trim (trim_name_ne_nil hok ?_ p.1.gap p.2.gap)
      rw [← hlex, hname]
      simp
    | none =>
      rw [hname, List.nil_append] at hlex
      refine exists_head_trim (trim_code_ne_nil hok (fun w hw => ?_) (fun hcode => ?_) _)
      · rw [← hlex]
        exact List.mem_append_left _ hw
      · -- a comment alone on its line is code
        rw [hcode, List.nil_append] at hlex
        cases hcomment : (r.parts named).comment with
        | none => exact hnil (by rw [← hlex, hcomment]; rfl)
        | some c =>
          have hlength := (parts_comment_some hcomment).1
          rw [← hlex, hcomment] at hlength
          simp at hlength

theorem indented_cellsFrom {rows : List LexRow} (hok : ∀ r ∈ rows, r.Ok) {o : Openings} {outs : List Text}
    (houts : List.Forall₂ Cell.WrittenAs (cellsFrom o rows) outs) :
    ∀ (k : Nat) (row : Row), (rows.map LexRow.row)[k]? = some row → row.continued = false →
      ∃ out, outs[k]? = some out ∧ Indented (belowAll o ((rows.map LexRow.row).take k)) row out := by
  induction rows generalizing o outs with
  | nil => nofun
  | cons r rows ih =>
    obtain ⟨hr, hrows⟩ := List.forall_mem_cons.mp hok
    cases houts with
    | @cons _ out _ outs hout houts =>
      intro k row hrow hfree
      cases k with
      | zero =>
        cases hrow
        have hlead : r.lead = none := by simpa [LexRow.row] using hfree
        exact ⟨out, rfl, indented_of_writtenAs hr hlead hout⟩
      | succ k => exact ih hrows houts k row hrow hfree

/-! ## The openings of a text -/

section Tokens

variable {ws : List Lexeme} {tail : Text} (hfit : AllFit ws tail) (htail : isGap tail)

theorem noBracket_of_newline {t : Token} (h : notNewline t = false) : t.NoBracket :=
  noBracket_newline (not_not.mp (of_decide_eq_false h))

include hfit in
theorem ordered_tokensAt :
    Ordered 1 ((tokensAt Position.start ws).filter notNewline) where
  lines := ((lines_tokensAt hfit Position.start).imp fun h => h.1).filter _
  first t ht := le_line_of_mem_tokensAt t (List.mem_of_mem_filter ht)

theorem line_le_of_mem_tokensAt {p : Position} {ws : List Lexeme} (tail : Text) {t : Token}
    (h : t ∈ tokensAt p ws) : t.start.line ≤ p.line + (textOf ws tail).count '\n' := by
  induction ws generalizing p with
  | nil => cases h
  | cons w ws ih =>
    rw [textOf_cons, List.count_append, List.count_append]
    obtain rfl | h := List.mem_cons.mp h
    · dsimp only
      rw [Position.after_line]
      omega
    · have hle := ih h
      rw [Position.after_line, Position.after_line] at hle
      omega

include hfit in
theorem tokens_take_rowsOf {k : Nat} (hk : k ≤ (Text.lines (textOf ws tail)).length) :
    ((rowsOf (textOf ws tail) (tokensAt Position.start ws)).take k).flatMap Row.tokens =
      (tokensAbove (k + 1) (tokensAt Position.start ws)).filter notNewline := by
  rw [← tokensAbove_filter, Nat.add_comm]
  exact tokens_take_rowsFrom (ordered_tokensAt hfit) hk

include hfit in
theorem tokens_rowsOf (k : Nat) :
    ((rowsOf (textOf ws tail) (tokensAt Position.start ws))[k]?).map Row.tokens =
      ((Text.lines (textOf ws tail))[k]?).map fun _ =>
        ((tokensAt Position.start ws).filter notNewline).filter fun t => t.start.line = 1 + k :=
  getElem?_rowsFrom (ordered_tokensAt hfit) _ k

include hfit in
/-- At every line boundary the openings count the brackets that are open there. -/
theorem openingsAbove_total (hclosed : NeverOverclosed (tokensAt Position.start ws)) {k : Nat}
    (hk : k ≤ (Text.lines (textOf ws tail)).length) :
    (openingsAbove (textOf ws tail) (tokensAt Position.start ws) k).Positive ∧
      (openingsAbove (textOf ws tail) (tokensAt Position.start ws) k).total +
          closed (tokensAbove (k + 1) (tokensAt Position.start ws)) =
        opened (tokensAbove (k + 1) (tokensAt Position.start ws)) := by
  have hplain {ts : List Token} : ∀ t ∈ ts, notNewline t = false → t.NoBracket :=
    fun t _ ht => noBracket_of_newline ht
  have htokens := tokens_take_rowsOf hfit hk
  have hfront := tokensAbove_prefix ((lines_tokensAt hfit Position.start).imp fun h => h.1) (k + 1)
  have hcovered : Covered 0 ((tokensAbove (k + 1) (tokensAt Position.start ws)).filter notNewline) :=
    ((covered_zero.mpr hclosed).of_front hfront).filter hplain
  have htotal := belowAll_total (o := []) nofun (htokens ▸ hcovered)
  rw [htokens, opened_filter hplain, closed_filter hplain, show total [] = 0 from rfl, Nat.zero_add]
    at htotal
  exact htotal

include hfit htail in
/-- A free row of a text is written with its indentation. -/
theorem indented_writtenLines {k : Nat} {row : Row}
    (hrow : (rowsOf (textOf ws tail) (tokensAt Position.start ws))[k]? = some row)
    (hfree : row.continued = false) :
    ∃ out, (writtenLines (textOf ws tail) (tokensAt Position.start ws))[k]? = some out ∧
      Indented (openingsAbove (textOf ws tail) (tokensAt Position.start ws) k) row out := by
  have hok := ok_rows hfit htail
  have hrows := rowsOf_textOf hfit htail
  have hlines : writtenLines (textOf ws tail) (tokensAt Position.start ws) =
      Cell.lines (cellsOf ws tail) := by
    unfold writtenLines linesOf
    rw [hrows]
    exact written_lines (shaped_linesFrom hok [])
  rw [openingsAbove, hlines]
  rw [hrows] at hrow ⊢
  exact indented_cellsFrom hok (Cell.writtenAs_lines _) k row hrow hfree

/-! ## Where blocks begin -/

/-- A name that begins a block stands where an item may begin. -/
theorem mem_blockNames {before ts : List Token} {t : Token} (h : t ∈ blockNames before ts) :
    ∃ front back, ts = front ++ t :: back ∧ itemBegins (before ++ front) = true ∧
      t.kind = .ident := by
  induction ts generalizing before with
  | nil => cases h
  | cons u ts ih =>
    have hlater (h : t ∈ blockNames (before ++ [u]) ts) :
        ∃ front back, u :: ts = front ++ t :: back ∧ itemBegins (before ++ front) = true ∧
          t.kind = .ident := by
      obtain ⟨front, back, rfl, hbegins⟩ := ih h
      exact ⟨u :: front, back, rfl, by rwa [List.append_cons]⟩
    rw [blockNames] at h
    split at h
    · next hbegins =>
      obtain rfl | h := List.mem_cons.mp h
      · rw [beginsBlock, Bool.and_eq_true, Bool.and_eq_true] at hbegins
        refine ⟨[], ts, rfl, ?_, of_decide_eq_true hbegins.1.2⟩
        rw [List.append_nil]
        exact hbegins.1.1
      · exact hlater h
    · exact hlater h

include hfit in
/-- All brackets above a line that holds the name of a block are closed. -/
theorem closed_above_blockName {t : Token} (h : t ∈ blockNames [] (codeAt Position.start ws)) :
    closed (tokensAbove t.start.line (tokensAt Position.start ws)) =
      opened (tokensAbove t.start.line (tokensAt Position.start ws)) := by
  have hplain {ts : List Token} : ∀ t ∈ ts, (decide (t.kind ≠ .comment)) = false → t.NoBracket :=
    fun t _ ht => noBracket_comment (not_not.mp (of_decide_eq_false ht))
  rw [← opened_filter hplain, ← closed_filter hplain, ← tokensAbove_filter, ← codeAt]
  have hlines := (lines_tokensAt hfit Position.start).filter fun t => t.kind ≠ .comment
  rw [← codeAt] at hlines
  obtain ⟨front, back, hcode, hbegins, -⟩ := mem_blockNames h
  rw [List.nil_append, itemBegins, Bool.and_eq_true, beq_iff_eq] at hbegins
  suffices tokensAbove t.start.line (codeAt Position.start ws) = front by rw [this, hbegins.1]
  rw [hcode] at hlines ⊢
  rw [List.pairwise_append] at hlines
  obtain ⟨hfront, hback, hacross⟩ := hlines
  have hbelow : (t :: back).filter (fun u => u.start.line < t.start.line) = [] := by
    rw [List.filter_eq_nil_iff]
    intro u hu
    rw [decide_eq_true_iff]
    obtain rfl | hu := List.mem_cons.mp hu
    · omega
    · have hle := ((List.pairwise_cons.mp hback).1 u hu).1
      omega
  rw [tokensAbove, List.filter_append, hbelow, List.append_nil]
  refine List.filter_eq_self.mpr fun u hu => decide_eq_true ?_
  -- the last token in front is a line break
  obtain rfl | ⟨front, feed, rfl⟩ := List.eq_nil_or_concat' front
  · cases hu
  have hfeed : feed.kind = .newline := by
    have hlast := hbegins.2
    rw [List.getLast?_concat, Option.all_some] at hlast
    exact of_decide_eq_true hlast
  have hlt := (hacross feed (by simp) t (List.mem_cons_self ..)).2 hfeed
  obtain hu | hu := List.mem_append.mp hu
  · have hle := ((List.pairwise_append.mp hfront).2.2 u hu feed (by simp)).1
    omega
  · rwa [List.mem_singleton.mp hu]

end Tokens

/-! ## The openings of a text -/

/-- The openings of a text count its open brackets, and indent its free lines. -/
structure CountsBrackets (text : Text) (tokens : List Token) : Prop where
  positive : ∀ k ≤ (Text.lines text).length, ∀ n ∈ openingsAbove text tokens k, 1 ≤ n
  sum : ∀ k ≤ (Text.lines text).length, ((openingsAbove text tokens k).sum : Int) =
    opened (tokensAbove (k + 1) tokens) - closed (tokensAbove (k + 1) tokens)
  indented : ∀ (k : Nat) (row : Row), (rowsOf text tokens)[k]? = some row → row.continued = false →
    ∃ out, (writtenLines text tokens)[k]? = some out ∧ Indented (openingsAbove text tokens k) row out

/-- The blocks begin where no bracket is open, in the first column of what is written for their line,
and at the end no bracket is open. -/
structure BeginsBlocks (text : Text) (tokens : List Token) (blocks : List Block) : Prop where
  closed : NeverOverclosed tokens
  ending : openingsAbove text tokens (Text.lines text).length = []
  names : (blockNames [] (tokens.filter fun t => t.kind ≠ .comment)).map Token.text =
    blocks.map Block.type
  column : ∀ t ∈ blockNames [] (tokens.filter fun t => t.kind ≠ .comment),
    ∃ row, (rowsOf text tokens)[t.start.line - 1]? = some row ∧ t ∈ row.tokens ∧
      (row.continued = false → ∃ c rest, Text.isBlank c = false ∧
        (writtenLines text tokens)[t.start.line - 1]? = some (c :: rest))

section Tokens

variable {ws : List Lexeme} {tail : Text} (hfit : AllFit ws tail) (htail : isGap tail)

include hfit htail

theorem countsBrackets_textOf (hclosed : NeverOverclosed (tokensAt Position.start ws)) :
    CountsBrackets (textOf ws tail) (tokensAt Position.start ws) where
  positive _ hk := (openingsAbove_total hfit hclosed hk).1
  sum k hk := by
    have htotal := (openingsAbove_total hfit hclosed hk).2
    rw [total] at htotal
    omega
  indented _ _ hrow hfree := indented_writtenLines hfit htail hrow hfree

theorem beginsBlocks_textOf {blocks : List Block}
    (h : ParsedFile.NamesOf [] (codeAt Position.start ws) blocks) :
    BeginsBlocks (textOf ws tail) (tokensAt Position.start ws) blocks := by
  have hclosed : NeverOverclosed (tokensAt Position.start ws) :=
    neverOverclosed_of_code h.1.neverOverclosed
  have hlength := Text.lines_length (textOf ws tail)
  have hline {t : Token} (ht : t ∈ tokensAt Position.start ws) :
      1 ≤ t.start.line ∧ t.start.line ≤ (Text.lines (textOf ws tail)).length := by
    have hle := line_le_of_mem_tokensAt tail ht
    exact ⟨le_line_of_mem_tokensAt t ht, by rw [hlength, Nat.add_comm]; exact hle⟩
  refine ⟨hclosed, ?_, h.2, fun t ht => ?_⟩
  · obtain ⟨hpositive, htotal⟩ := openingsAbove_total hfit hclosed (Nat.le_refl _)
    refine hpositive.eq_nil ?_
    have hall : tokensAbove ((Text.lines (textOf ws tail)).length + 1) (tokensAt Position.start ws) =
        tokensAt Position.start ws :=
      List.filter_eq_self.mpr fun t ht => decide_eq_true (Nat.lt_succ_of_le (hline ht).2)
    have hplain : ∀ t ∈ tokensAt Position.start ws, (decide (t.kind ≠ .comment)) = false → t.NoBracket :=
      fun t _ ht => noBracket_comment (not_not.mp (of_decide_eq_false ht))
    have hbalanced := h.1.closed_eq
    rw [codeAt, opened_filter hplain, closed_filter hplain] at hbalanced
    rw [hall] at htotal
    omega
  · have habove := closed_above_blockName hfit ht
    obtain ⟨front, back, hcode, -, hkind⟩ := mem_blockNames ht
    have hmem : t ∈ tokensAt Position.start ws := by
      have hmem : t ∈ front ++ t :: back := by simp
      rw [← hcode] at hmem
      exact List.mem_of_mem_filter hmem
    obtain ⟨hfirst, hlast⟩ := hline hmem
    have hbound : t.start.line - 1 < (Text.lines (textOf ws tail)).length := by omega
    obtain ⟨hpositive, htotal⟩ := openingsAbove_total hfit hclosed hbound.le
    rw [Nat.sub_add_cancel hfirst, habove] at htotal
    have hnil := hpositive.eq_nil (by omega)
    have hrows := tokens_rowsOf hfit (t.start.line - 1)
    rw [List.getElem?_eq_getElem hbound] at hrows
    obtain ⟨row, hrow, htokens⟩ := Option.map_eq_some_iff.mp hrows
    have hrowMem : t ∈ row.tokens := by
      rw [htokens]
      refine List.mem_filter.mpr ⟨List.mem_filter.mpr ⟨hmem, ?_⟩, decide_eq_true (by omega)⟩
      rw [notNewline, hkind]
      rfl
    refine ⟨row, hrow, hrowMem, fun hfree => ?_⟩
    obtain ⟨out, hout, hindented⟩ := indented_writtenLines hfit htail hrow hfree
    obtain ⟨c, rest, hc, rfl⟩ := hindented.steps (List.ne_nil_of_mem hrowMem)
    rw [hnil, leftBehind_nil] at hout
    exact ⟨c, rest, hc, hout⟩

end Tokens

/-- Where no front of the tokens of a text closes more brackets than it opens, the openings count the
open brackets and indent the free lines. The blocks of a file that is read begin in the first column. -/
theorem format_indents {text : Text} {stream : TokenStream} (h : TokenStream.ofText text = .ok stream) :
    format text = finish (writtenLines text stream.tokens) ∧
      (NeverOverclosed stream.tokens → CountsBrackets text stream.tokens) ∧
      ∀ file keepSource parsed events, ParsedFile.ofText file keepSource text = .ok (parsed, events) →
        BeginsBlocks text stream.tokens parsed.blocks := by
  refine ⟨by rw [format, h]; rfl, fun hclosed => ?_, fun file keepSource parsed events hparsed => ?_⟩
  · obtain ⟨ws, tail, rfl, hfit, htail, rfl⟩ := exists_lexemes h
    exact countsBrackets_textOf hfit htail hclosed
  · have hnames := ParsedFile.namesOf_ofText h hparsed
    obtain ⟨ws, tail, rfl, hfit, htail, rfl⟩ := exists_lexemes h
    exact beginsBlocks_textOf hfit htail hnames

/-- Lines that open and close several brackets, in a file of two blocks. -/
theorem format_indents_nested :
    let text := "a \"b\" \x7b\n c = [\x7b d = f(\n1) \x7d, ( # e\n2)]\n \x7d\n x \x7b\x7d".toList
    ∃ stream parsed events, TokenStream.ofText text = .ok stream ∧
      ParsedFile.ofText [] true text = .ok (parsed, events) ∧
      openingsAbove text stream.tokens 2 = [3, 1] ∧ openingsAbove text stream.tokens 3 = [1, 1, 1] ∧
      CountsBrackets text stream.tokens ∧ BeginsBlocks text stream.tokens parsed.blocks := by
  intro text
  have hread : (TokenStream.ofText text).toOption.map (fun stream =>
      (openingsAbove text stream.tokens 2, openingsAbove text stream.tokens 3)) =
      some ([3, 1], [1, 1, 1]) := by decide +kernel
  have hparse : (ParsedFile.ofText [] true text).toOption.isSome = true := by decide +kernel
  cases h : TokenStream.ofText text with
  | error e =>
    rw [h] at hread
    cases hread
  | ok stream =>
    cases hparsed : ParsedFile.ofText [] true text with
    | error e =>
      rw [hparsed] at hparse
      cases hparse
    | ok parsed =>
      rw [h] at hread
      obtain ⟨h₂, h₃⟩ := Prod.mk.inj (Option.some.inj hread)
      obtain ⟨-, hcounts, hblocks⟩ := format_indents h
      have hbegins := hblocks [] true parsed.1 parsed.2 hparsed
      exact ⟨stream, parsed.1, parsed.2, rfl, rfl, h₂, h₃, hcounts hbegins.closed, hbegins⟩

end HclTidy.Layout
