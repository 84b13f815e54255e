import HclTidy.Block.Render
import HclTidy.Proofs.Block.Trimmed
import HclTidy.Proofs.Layout.Formatted
import HclTidy.Proofs.Template.Escape

/-!
# Blocks in written form

A sound block is written as its comment lines, its header, the trimmed raw body on lines of its own
and a closing brace. Here the written text is taken apart into lexemes, and the body between the
braces still reads as a body when it is laid out anew.
-/

set_option autoImplicit false

namespace HclTidy

open Token Layout

/-- Kind and text of the tokens of a text but for line breaks, texts up to white space at the ends
of their first and last line. -/
def tokensOf? (text : Text) : Option (List (Kind × Text)) :=
  match TokenStream.ofText text with
  | .ok stream => some ((stream.tokens.filter fun t => t.kind ≠ .newline).map fun t =>
      (t.kind, Text.trimEnds t.text))
  | .error _ => none

theorem significant_tokensAt (p : Position) (ws : List Lexeme) :
    ((tokensAt p ws).filter fun t => t.kind ≠ .newline).map (fun t => (t.kind, Text.trimEnds t.text)) =
      significant ws := by
  induction ws generalizing p with
  | nil => rfl
  | cons w ws ih =>
    unfold significant at ih ⊢
    rw [tokensAt]
    by_cases hk : w.kind = .newline
    · rw [List.filter_cons_of_neg (by simp [hk]), List.filter_cons_of_neg (by simp [hk]), ih]
    · rw [List.filter_cons_of_pos (by simpa using hk), List.filter_cons_of_pos (by simpa using hk),
        List.map_cons, List.map_cons, ih]

theorem tokensOf?_textOf {ws : List Lexeme} {gap : Text} (h : AllFit ws gap) (hg : isGap gap) :
    tokensOf? (textOf ws gap) = some (significant ws) := by
  unfold tokensOf? TokenStream.ofText
  rw [readAll_textOf h hg]
  exact congrArg some (significant_tokensAt _ ws)

namespace Block

/-! ## Comments and header -/

def commentLexemes : List Text → List Lexeme
  | [] => []
  | row :: rows =>
    (if row.isEmpty then [] else [⟨[], .comment, row⟩]) ++ lineFeed [] :: commentLexemes rows

def labelLexeme (label : Text) : Lexeme := ⟨[' '], .string, '"' :: (Escape.encode label ++ ['"'])⟩

def openingLexeme : Lexeme := ⟨[' '], .lbrace, ['{']⟩

def closingLexeme : Lexeme := ⟨[], .rbrace, ['}']⟩

/-- The lexemes of a header, its opening brace and the line feed behind it. -/
def headerLexemes (type : Text) (labels : List Text) : List Lexeme :=
  ⟨[], .ident, type⟩ :: (labels.map labelLexeme ++ [openingLexeme, lineFeed []])

theorem textOf_commentLexemes (rows : List Text) (after : Text) :
    textOf (commentLexemes rows) after = rows.flatMap (· ++ ['\n']) ++ after := by
  induction rows with
  | nil => rfl
  | cons row rows ih =>
    rw [commentLexemes, textOf_append, textOf_cons, ih, List.flatMap_cons]
    cases row with
    | nil => rfl
    | cons c row => simp [lineFeed, textOf_cons]

theorem unlines_comments (rows : List Text) {rest : List Text} (h : rest ≠ []) :
    Text.unlines (rows ++ rest) = rows.flatMap (· ++ ['\n']) ++ Text.unlines rest := by
  induction rows with
  | nil => rfl
  | cons row rows ih =>
    rw [List.cons_append, Text.unlines_cons (by simp [h]), ih, List.flatMap_cons]
    simp

theorem header_eq (type : Text) (labels : List Text) :
    header type labels =
      type ++ labels.flatMap fun label => ' ' :: '"' :: (Escape.encode label ++ ['"']) := by
  have hjoin (more : List Text) : ∀ first : Text,
      Text.joinWith [' '] (first :: more) = first ++ more.flatMap (' ' :: ·) := by
    induction more with
    | nil => simp [Text.joinWith]
    | cons second more ih =>
      intro first
      rw [Text.joinWith_cons_cons, ih, List.flatMap_cons]
      simp
  rw [header, hjoin, List.flatMap_map]
  rfl

theorem textOf_labelLexemes (labels : List Text) (after : Text) :
    textOf (labels.map labelLexeme) after =
      labels.flatMap (fun label => ' ' :: '"' :: (Escape.encode label ++ ['"'])) ++ after := by
  induction labels with
  | nil => rfl
  | cons label labels ih =>
    rw [List.map_cons, textOf_cons, ih, List.flatMap_cons, List.append_assoc]
    simp [labelLexeme]

theorem textOf_headerLexemes (type : Text) (labels : List Text) (after : Text) :
    textOf (headerLexemes type labels) after = header type labels ++ [' ', '{', '\n'] ++ after := by
  rw [header_eq, headerLexemes, textOf_cons, textOf_append, textOf_labelLexemes, List.nil_append]
  simp only [List.append_assoc]
  rfl

theorem fits_closing (after : Text) : Fits .rbrace ['}'] after := by
  refine .symbol ?_ (fun h => absurd h (by decide)) ?_
  · rintro (h | ⟨h, -⟩) <;> cases h
  · simp [symbol?, markKind?]

theorem fits_opening (after : Text) : Fits .lbrace ['{'] after := by
  refine .symbol ?_ (fun h => absurd h (by decide)) ?_
  · rintro (h | ⟨h, -⟩) <;> cases h
  · simp [symbol?, markKind?]

theorem fits_comment {row : Text} (h : isCommentOrBlank row = true) (hne : row ≠ []) (hn : '\n' ∉ row)
    (after : Text) : Fits .comment row ('\n' :: after) := by
  cases row with
  | nil => exact absurd rfl hne
  | cons c row =>
    rw [List.mem_cons, not_or] at hn
    refine .lineComment ?_ hn.2 (endsLine_newline after)
    simp only [isCommentOrBlank, List.isEmpty_cons, Bool.false_or, Bool.or_eq_true,
      List.isPrefixOf_iff_prefix, List.cons_prefix_cons, List.nil_prefix, and_true] at h
    obtain rfl | ⟨rfl, h⟩ := h
    · exact .inl rfl
    · exact .inr ⟨rfl, h⟩

theorem allFit_commentLexemes {rows : List Text} (h : IsCommentRows rows) (after : Text) :
    AllFit (commentLexemes rows) after := by
  have hrows := h.row
  clear h
  induction rows with
  | nil => trivial
  | cons row rows ih =>
    have hrest := ih fun r hr => hrows r (List.mem_cons_of_mem _ hr)
    obtain ⟨hn, -, hcomment⟩ := hrows row (List.mem_cons_self ..)
    rw [commentLexemes]
    split
    · exact ⟨nofun, .newline, hrest⟩
    · next hne =>
      exact ⟨nofun, fits_comment hcomment (by simpa using hne) hn _, nofun, .newline, hrest⟩

theorem isGap_space : isGap [' '] := by
  intro c hc
  rw [List.mem_singleton.mp hc]
  rfl

theorem allFit_headerLexemes {type : Text} (htype : ∃ after, Fits .ident type after)
    (labels : List Text) (after : Text) : AllFit (headerLexemes type labels) after := by
  have hlabels : AllFit (labels.map labelLexeme ++ [openingLexeme, lineFeed []]) after := by
    induction labels with
    | nil => exact ⟨isGap_space, fits_opening _, nofun, .newline, trivial⟩
    | cons label labels ih => exact ⟨isGap_space, .string (Escape.scans_encode label), ih⟩
  obtain ⟨after', hf⟩ := htype
  refine ⟨nofun, fits_of_meets hf (meets_of_stops _ ?_) nofun, hlabels⟩
  cases labels with
  | nil => exact stops_cons rfl _
  | cons label labels => exact stops_cons rfl _

/-! ## The body -/

/-- What is written between the line of the header and the closing brace. -/
def bodyText (b : Block) : Text :=
  if (Text.trim b.rawBody).isEmpty then [] else Text.trim b.rawBody ++ ['\n']

/-- Lexemes of the written body of a block. In another layout they still read as a body. -/
structure WrittenBody (b : Block) (body : List Lexeme) : Prop where
  text : textOf body [] = b.bodyText
  fits : ∀ after, AllFit body after
  tokens : tokensOf? b.rawBody = some (significant body)
  reads : ∀ {body' : List Lexeme}, Respaced true body body' →
    ∀ {source : Source} {c : Cursor} {p : Position} {closing : Token} {after : List Token},
      source.endToken.kind = .endOfText → closing.kind = .rbrace →
      c.rest = codeAt p (lineFeed [] :: body') ++ closing :: after →
      ∃ s, Body.read source c = .ok s ∧ s.next.rest = closing :: after

theorem forall_lineFeed {gap : Text} : ∀ w ∈ [lineFeed gap], w.kind = .newline := by
  intro w hw
  rw [List.mem_singleton.mp hw]
  rfl

/-- A raw body of white space is written as nothing. -/
theorem writtenBody_blank {b : Block} {ws : List Lexeme} {gap : Text} (h : ReadsBody b.rawBody ws gap)
    (hblank : Text.trim b.rawBody = []) : WrittenBody b [] := by
  have hnewlines : ∀ w ∈ ws, w.kind = .newline := by
    have hblankText : Text.isBlankText (textOf ws gap) := by
      rw [← h.text]
      exact Text.trim_eq_nil_iff.mp hblank
    exact newline_of_isBlankText h.fits hblankText
  refine ⟨?_, fun _ => trivial, ?_, ?_⟩
  · rw [bodyText, hblank]
    rfl
  · rw [h.text, tokensOf?_textOf h.fits h.gap, significant_newlines hnewlines]
    rfl
  · intro body' hbody' source c p closing after hend hclosing hc
    cases hbody'
    have hread : ReadsBody b.rawBody (ws ++ ([] ++ [])) gap := by simpa using h
    have hnil : Respaced true [] [] := .nil
    exact read_of_readsBody hread hnewlines nofun forall_lineFeed (List.forall_mem_nil _) hnil hend
      hclosing hc

theorem writtenBody_code {b : Block} {ws ws' : List Lexeme} {gap gap' : Text}
    (h : ReadsBody b.rawBody ws gap) (h' : ReadsBody (Text.trim b.rawBody) ws' gap')
    (hsig : significant ws' = significant ws) (hne : Text.trim b.rawBody ≠ []) :
    WrittenBody b (ws' ++ [lineFeed gap']) := by
  refine ⟨?_, allFit_concat_lineFeed h'.fits h'.gap, ?_, ?_⟩
  · have hemp : (Text.trim b.rawBody).isEmpty = false := by simpa using hne
    rw [bodyText, hemp, h'.text, textOf_concat, textOf_eq_append, textOf_eq_append ws' gap']
    simp [lineFeed]
  · rw [h.text, tokensOf?_textOf h.fits h.gap, significant_append,
      significant_newlines forall_lineFeed, List.append_nil, hsig]
  · intro body' hbody' source c p closing after hend hclosing hc
    obtain ⟨mid', below', rfl, hmid, hbelow⟩ := respaced_of_append hbody'
    have hread : ReadsBody (Text.trim b.rawBody) ([] ++ (ws' ++ [])) gap' := by simpa using h'
    have hbelow' := kind_of_respaced hbelow (p := (· = .newline)) forall_lineFeed
    have habove' : ∀ w ∈ [lineFeed []], w.kind = .newline := forall_lineFeed
    exact read_of_readsBody hread (List.forall_mem_nil _) (List.forall_mem_nil _) habove' hbelow' hmid hend hclosing hc

theorem exists_writtenBody {b : Block} (h : b.Sound) : ∃ body, WrittenBody b body := by
  obtain ⟨ws, gap, hreads⟩ := h.body
  by_cases hblank : Text.trim b.rawBody = []
  · exact ⟨[], writtenBody_blank hreads hblank⟩
  · obtain ⟨ws', gap', hreads', hsig⟩ := readsBody_trim hreads
    exact ⟨_, writtenBody_code hreads hreads' hsig hblank⟩

/-! ## The whole block -/

/-- The lexemes of a block that is written with a body. -/
def lexemes (b : Block) (body : List Lexeme) : List Lexeme :=
  commentLexemes (rowsOfComments b.leadingComments) ++
    (headerLexemes b.type b.labels ++ (body ++ [closingLexeme]))

theorem render_of_sound {b : Block} (h : b.Sound) :
    b.render = (rowsOfComments b.leadingComments).flatMap (· ++ ['\n']) ++
      (header b.type b.labels ++ [' ', '{', '\n'] ++ (b.bodyText ++ ['}'])) := by
  unfold render bodyText
  dsimp only
  change Text.unlines (rowsOfComments b.leadingComments ++ _) = _
  by_cases hblank : Text.trim b.rawBody = []
  · rw [h.empty hblank, hblank, unlines_comments _ (by simp)]
    simp [Body.rows, Body.empty, Body.sortedAttributes, NestedBlock.allRows, Text.unlines, Text.joinWith]
  · have hemp : (Text.trim b.rawBody).isEmpty = false := by simpa using hblank
    rw [hemp, unlines_comments _ (by simp)]
    simp [Text.unlines, Text.joinWith]

theorem render_eq_textOf {b : Block} {body : List Lexeme} (h : b.Sound) (hbody : WrittenBody b body)
    (after : Text) : textOf (b.lexemes body) after = b.render ++ after := by
  rw [render_of_sound h, lexemes, textOf_append, textOf_commentLexemes, textOf_append,
    textOf_headerLexemes, textOf_append, textOf_eq_append, hbody.text]
  simp [closingLexeme, textOf_cons]

theorem allFit_lexemes {b : Block} {body : List Lexeme} (h : b.Sound) (hbody : WrittenBody b body)
    (after : Text) : AllFit (b.lexemes body) after := by
  refine allFit_append.mpr ⟨allFit_commentLexemes h.comments _, allFit_append.mpr
    ⟨allFit_headerLexemes h.type _ _, allFit_append.mpr ⟨hbody.fits _, nofun, fits_closing _, trivial⟩⟩⟩

end Block

end HclTidy
