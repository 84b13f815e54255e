import HclTidy.Proofs.Block.Sound
import HclTidy.Proofs.Layout.Reread

/-!
# Leading comments, token by token

The lines above a block are told apart by their first characters. Where every token above the block
ends on the line it began on, and no byte order mark stands there, the tokens tell the same lines
apart: the leading comments are the lowest lines above the block that hold nothing or one line comment
and nothing else.
-/

set_option autoImplicit false

namespace HclTidy

open Token Layout

namespace Block

/-- A comment that runs to the end of its line. -/
def isLineComment (kind : Token.Kind) (text : Text) : Bool :=
  kind = .comment && !(['/', '*'].isPrefixOf text)

/-- The comment that the tokens of a line are; empty for a line without tokens. -/
def comment? : List Token → Option Text
  | [] => some []
  | [t] => if isLineComment t.kind t.text then some (Text.trim t.text) else none
  | _ => none

/-- The leading comments, as the tokens between the last block and the keyword of this one tell them.
The first line belongs to the block above when there is one. -/
def commentsOfTokens (isFirst : Bool) (region : List Token) : Text :=
  let above := (region.splitOnP (Token.isKind .newline)).dropLast
  let rows := if isFirst then above else above.tail
  let run := (rows.reverse.map comment?).takeWhile Option.isSome
  Text.unlines (trimRows run.reduceOption.reverse)

/-- The characters and the tokens of a line agree on whether it may stand among leading comments. -/
def Agrees (line : Text) (row : List Token) : Prop :=
  comment? row = if isCommentOrBlank (Text.trim line) then some (Text.trim line) else none

theorem takeWhile_agrees {lines : List Text} {rows : List (List Token)}
    (h : List.Forall₂ Agrees lines rows) :
    (lines.map Text.trim).takeWhile isCommentOrBlank =
      ((rows.map comment?).takeWhile Option.isSome).reduceOption := by
  induction h with
  | nil => rfl
  | cons hrow _ ih =>
    rw [Agrees] at hrow
    rw [List.map_cons, List.map_cons, hrow]
    split
    · next hcomment =>
      rw [List.takeWhile_cons_of_pos hcomment, List.takeWhile_cons_of_pos rfl,
        List.reduceOption_cons_of_some, ih]
    · next hcomment =>
      rw [List.takeWhile_cons_of_neg hcomment, List.takeWhile_cons_of_neg Bool.false_ne_true]
      rfl

/-! ## One line -/

theorem comment_of_beginsComment {kind : Kind} {c : Char} {t after : Text} (h : Fits kind (c :: t) after)
    (hbegins : beginsComment c (t ++ after)) : kind = .comment := by
  have hchar (hc : c ≠ '#') (hslash : c ≠ '/') : kind = .comment :=
    hbegins.elim (fun h => absurd h hc) fun h => absurd h.1 hslash
  generalize htext : c :: t = text at h
  cases h with
  | lineComment | blockComment => rfl
  | newline | string | heredoc =>
    cases htext
    exact hchar (by decide) (by decide)
  | number hdigit | ident _ hdigit =>
    cases htext
    refine hchar ?_ ?_ <;> rintro rfl <;> cases hdigit
  | symbol hcomment =>
    cases htext
    exact absurd hbegins hcomment

/-- A line that begins with another token is no comment line. -/
theorem not_isCommentOrBlank {kind : Kind} {text more after : Text} (h : Fits kind text (more ++ after))
    (hkind : kind ≠ .newline) (hcomment : isLineComment kind text = false) :
    isCommentOrBlank (Text.trim (text ++ more)) = false := by
  obtain ⟨c, t, rfl, hc⟩ := fits_head_notBlank h hkind
  rw [List.cons_append, Text.trim, Text.trimLeft_cons _ hc, Text.trimRight_cons_of_not_blank _ hc,
    Bool.eq_false_iff]
  intro hrow
  have hslash : c = '#' ∨ c = '/' ∧ ['/'] <+: t ++ more := by
    simp only [isCommentOrBlank, List.isEmpty_cons, Bool.false_or, Bool.or_eq_true,
      List.isPrefixOf_iff_prefix, List.cons_prefix_cons, List.nil_prefix, and_true] at hrow
    obtain hrow | ⟨hrow, hnext⟩ := hrow
    · exact .inl hrow.symm
    · exact .inr ⟨hrow.symm, hnext.trans (Text.trimRight_isPrefix _)⟩
  have hbegins : beginsComment c (t ++ (more ++ after)) := by
    refine hslash.imp_right (And.imp_right fun hnext => .inl ?_)
    rw [← List.append_assoc]
    exact hnext.trans (List.prefix_append ..)
  obtain rfl := comment_of_beginsComment h hbegins
  -- what is left is a block comment
  have hblock : ['/', '*'] <+: c :: t := by simpa [isLineComment] using hcomment
  obtain ⟨rest, hrest⟩ := hblock
  cases hrest
  obtain hc | ⟨-, hnext⟩ := hslash
  · cases hc
  · simp [List.cons_prefix_cons] at hnext

theorem isCommentOrBlank_of_isLineComment {kind : Kind} {text after : Text} (h : Fits kind text after)
    (hcomment : isLineComment kind text = true) : isCommentOrBlank (Text.trim text) = true := by
  rw [isLineComment, Bool.and_eq_true, decide_eq_true_eq] at hcomment
  obtain ⟨rfl, hline⟩ := hcomment
  cases h with
  | lineComment hc =>
    obtain rfl | ⟨rfl, u, rfl⟩ := hc
    · rw [Text.trim, Text.trimLeft_cons _ (by decide), Text.trimRight_cons_of_not_blank _ (by decide)]
      rfl
    · rw [List.singleton_append, Text.trim, Text.trimLeft_cons _ (by decide),
        Text.trimRight_cons_of_not_blank _ (by decide), Text.trimRight_cons_of_not_blank _ (by decide)]
      rfl
  | blockComment => cases hline
  | symbol _ _ hs =>
    have hkinds : Kind.comment ∉ symbolKinds := by decide
    exact absurd (symbol?_kind hs) hkinds

/-- Layout without a byte order mark is white space. -/
theorem isBlankText_of_isGap {gap : Text} (h : isGap gap) (hmark : '\uFEFF' ∉ gap) :
    Text.isBlankText gap := by
  intro c hc
  have hlayout := h c hc
  simp only [isLayout, Bool.or_eq_true, decide_eq_true_eq, or_assoc] at hlayout
  obtain rfl | rfl | rfl | rfl := hlayout
  · rfl
  · rfl
  · rfl
  · exact absurd hc hmark

/-- A line of tokens, none of which runs on behind it. -/
theorem agrees_row {us : List Lexeme} {gap rest : Text} (p : Position)
    (hfit : AllFit us (gap ++ '\n' :: rest)) (hgap : isGap gap) (hone : OneLine us)
    (hkind : ∀ w ∈ us, w.kind ≠ .newline) (hmark : '\uFEFF' ∉ textOf us gap) :
    Agrees (textOf us gap) (tokensAt p us) := by
  cases us with
  | nil =>
    have hblank := Text.trim_eq_nil_iff.mpr (isBlankText_of_isGap hgap hmark)
    rw [Agrees, textOf_nil, hblank]
    rfl
  | cons w more =>
    obtain ⟨hwgap, hw, hmore⟩ := hfit
    rw [textOf_eq_append, ← List.append_assoc, ← textOf_eq_append] at hw
    have hn : '\n' ∉ textOf more gap :=
      newline_not_mem_textOf (fun v hv => hone v (List.mem_cons_of_mem _ hv)) (isGap_newline hgap)
    rw [textOf_cons, List.mem_append, not_or] at hmark
    rw [Agrees, textOf_cons, trim_blank_append _ (isBlankText_of_isGap hwgap hmark.1), tokensAt]
    cases hcomment : isLineComment w.kind w.text with
    | false =>
      rw [not_isCommentOrBlank hw (hkind w (List.mem_cons_self ..)) hcomment, if_neg Bool.false_ne_true]
      cases more with
      | nil => exact if_neg (by rw [hcomment]; exact Bool.false_ne_true)
      | cons v more => rfl
    | true =>
      have hends : endsLine w.kind w.text = true := by
        rw [endsLine, Bool.or_eq_true]
        exact .inr hcomment
      -- nothing stands behind a line comment on its line
      have hnil := eq_nil_of_endsLine (fits_endsLine hw hends) hn
      cases more with
      | nil =>
        rw [hnil, List.append_nil, isCommentOrBlank_of_isLineComment hw hcomment, if_pos rfl]
        exact if_pos hcomment
      | cons v more =>
        obtain ⟨c, t, htext, -⟩ := fits_head hmore.2.1
        rw [textOf_cons, htext] at hnil
        simp at hnil

/-! ## The lines above a block -/

theorem not_isKind_newline {us : List Lexeme} (h : ∀ w ∈ us, w.kind ≠ .newline) (p : Position) :
    ∀ t ∈ tokensAt p us, Token.isKind .newline t = false :=
  fun t ht => decide_eq_false (tokensAt_kind (q := (· ≠ .newline)) h t ht)

/-- The lines of lexemes but for the last, in front of which `front` stands on the first. -/
theorem agrees_rows {gap after : Text} (hgap : isGap gap) :
    ∀ (ws front : List Lexeme) (p : Position), AllFit (front ++ ws) (gap ++ after) →
      (∀ w ∈ front ++ ws, w.kind ≠ .newline → '\n' ∉ w.text) → (∀ w ∈ front, w.kind ≠ .newline) →
      '\uFEFF' ∉ textOf (front ++ ws) gap →
      List.Forall₂ Agrees (Text.lines (textOf (front ++ ws) gap)).dropLast
        ((tokensAt p (front ++ ws)).splitOnP (Token.isKind .newline)).dropLast := by
  intro ws
  induction ws with
  | nil =>
    intro front p hfit hone hfront _
    rw [List.append_nil] at hfit hone ⊢
    have hn : '\n' ∉ textOf front gap :=
      newline_not_mem_textOf (fun w hw => ⟨isGap_newline (isGap_of_allFit hfit w hw),
        hone w hw (hfront w hw)⟩) (isGap_newline hgap)
    rw [Text.lines_of_not_mem hn, List.splitOnP_eq_singleton (not_isKind_newline hfront p)]
    exact .nil
  | cons w ws ih =>
    intro front p hfit hone hfront hmark
    by_cases hw : w.kind = .newline
    · obtain ⟨hbefore, hwgap, hwfit, hrest⟩ := allFit_append.mp hfit
      rw [hw] at hwfit
      have htext := fits_newline_text hwfit
      have hfrontOne : OneLine front := fun v hv =>
        ⟨isGap_newline (isGap_of_allFit hbefore v hv), hone v (List.mem_append_left _ hv) (hfront v hv)⟩
      rw [textOf_append_cons, htext, List.mem_append, not_or] at hmark
      have hline : AllFit front (w.gap ++ '\n' :: textOf ws (gap ++ after)) := by
        rwa [textOf_cons, htext] at hbefore
      have hn := newline_not_mem_textOf hfrontOne (isGap_newline hwgap)
      have hbreak : ∀ q, Token.isKind .newline ⟨w.kind, w.text, q⟩ = true := fun _ => decide_eq_true hw
      rw [textOf_append_cons, htext, List.singleton_append, Text.lines_append_newline _ hn, tokensAt_append,
        tokensAt, List.splitOnP_append_cons _ _ (hbreak _),
        List.splitOnP_eq_singleton (not_isKind_newline hfront p), List.singleton_append,
        List.dropLast_cons_of_ne_nil (Text.lines_ne_nil _),
        List.dropLast_cons_of_ne_nil (List.splitOnP_ne_nil _ _)]
      refine .cons (agrees_row p hline hwgap hfrontOne hfront hmark.1) (ih [] _ hrest ?_
        (List.forall_mem_nil _) fun h => hmark.2 (List.mem_append_right _ h))
      exact fun v hv => hone v (List.mem_append_right _ (List.mem_cons_of_mem _ hv))
    · rw [List.append_cons] at hfit hone hmark ⊢
      refine ih _ p hfit hone ?_ hmark
      exact List.forall_mem_append.mpr ⟨hfront, List.forall_mem_singleton.mpr hw⟩

/-- Every token but a line break stands on one line, and there is no byte order mark between them. -/
structure LineByLine (region : List Token) (between : Text) : Prop where
  oneLine : ∀ t ∈ region, t.kind ≠ .newline → '\n' ∉ t.text
  noMark : '\uFEFF' ∉ between

theorem exists_token_of_mem {us : List Lexeme} {w : Lexeme} (h : w ∈ us) (p : Position) :
    ∃ q, ⟨w.kind, w.text, q⟩ ∈ tokensAt p us := by
  obtain ⟨xs, ys, rfl⟩ := List.append_of_mem h
  rw [tokensAt_append, tokensAt]
  exact ⟨_, List.mem_append_right _ (List.mem_cons_self ..)⟩

/-- The lines and the tokens between two blocks tell the same leading comments. -/
theorem leadingCommentsAt_eq {before after gap : Text} {us : List Lexeme} (p : Position)
    (hfit : AllFit us (gap ++ after)) (hgap : isGap gap)
    (h : LineByLine (tokensAt p us) (textOf us gap)) :
    leadingCommentsAt (before ++ (textOf us gap ++ after)) (before ++ textOf us gap).length before.length =
      commentsOfTokens (before.length = 0) (tokensAt p us) := by
  have hrows : List.Forall₂ Agrees (Text.lines (textOf us gap)).dropLast
      ((tokensAt p us).splitOnP (Token.isKind .newline)).dropLast := by
    refine agrees_rows hgap _ [] p hfit (fun w hw hkind => ?_) (List.forall_mem_nil _) h.noMark
    obtain ⟨q, hq⟩ := exists_token_of_mem hw p
    exact h.oneLine _ hq hkind
  have hlength : before.length ≤ (before ++ textOf us gap).length := by
    rw [List.length_append]
    omega
  have hlength' : (before ++ textOf us gap).length ≤ (before ++ (textOf us gap ++ after)).length := by
    rw [← List.append_assoc, @List.length_append _ (before ++ _)]
    omega
  rw [leadingCommentsAt, if_pos ⟨by omega, by omega, by omega⟩, Int.toNat_natCast, Int.toNat_natCast,
    ← List.append_assoc, slice_between, commentsOfTokens]
  dsimp only
  by_cases hfirst : before.length = 0
  · rw [if_neg (by omega), if_pos (decide_eq_true hfirst),
      takeWhile_agrees (List.forall₂_reverse_iff.mpr hrows)]
  · rw [if_pos (by omega), if_neg (by simpa using hfirst), ← List.drop_one, ← List.drop_one,
      takeWhile_agrees (List.forall₂_reverse_iff.mpr (List.forall₂_drop 1 hrows))]

/-- Inside a comment that runs over several lines, a line may look like one. -/
example : leadingCommentsAt "/*\n# a\n*/ x {}".toList 10 0 = "# a".toList := by decide

/-- The blocks of a text among its tokens, comments included: for each the tokens in front of it, its
keyword, its header, its opening brace, its body and its closing brace. -/
inductive AmongTokens (text : Text) : Nat → List Token → List Block → Prop
  | done {previousEnd tokens} : AmongTokens text previousEnd tokens []
  | block {previousEnd : Nat} {b : Block} {more : List Block} {region header inside below : List Token}
      {name opening closing : Token} :
      name.kind = .ident → b.type = name.text → opening.kind = .lbrace → closing.kind = .rbrace →
      b.rawBody = rawBodyAt text opening.stop closing.start.offset →
      (LineByLine region (text.slice previousEnd name.start.offset) →
        b.leadingComments = commentsOfTokens (previousEnd = 0) region) →
      AmongTokens text closing.stop below more →
      AmongTokens text previousEnd
        (region ++ name :: (header ++ opening :: (inside ++ closing :: below))) (b :: more)

end Block

/-! ## Files -/

/-- Lexemes that stand in a text, up to its end. -/
structure Token.Behind (text before : Text) (ws : List Lexeme) (tail : Text) : Prop where
  text : text = before ++ textOf ws tail
  fits : AllFit ws tail

/-- A token that a reader is in front of, with the lexemes and the tokens before and behind it. -/
theorem Token.Behind.exists_token {text before tail : Text} {ws : List Lexeme}
    (h : Token.Behind text before ws tail) {t : Token} {ts : List Token}
    (hts : t :: ts <:+ codeAt (Position.start.after before) ws) :
    ∃ us gap after before' vs, text = before ++ (textOf us gap ++ after) ∧ AllFit us (gap ++ after) ∧
      isGap gap ∧ t.start.offset = (before ++ textOf us gap).length ∧
      Token.Behind text before' vs tail ∧ t.stop = before'.length ∧
      ts = codeAt (Position.start.after before') vs ∧
      tokensAt (Position.start.after before) ws =
        tokensAt (Position.start.after before) us ++ t :: tokensAt (Position.start.after before') vs := by
  obtain ⟨us, w, vs, rfl, ht, hrest⟩ := exists_of_suffix hts
  obtain ⟨hbefore, hgap, hw, hvs⟩ := allFit_append.mp h.fits
  rw [textOf_cons] at hbefore
  have hbehind : before ++ textOf (us ++ w :: vs) tail =
      (before ++ textOf (us ++ [w]) []) ++ textOf vs tail := by
    rw [List.append_cons us w vs, textOf_append, textOf_eq_append (us ++ [w]), List.append_assoc]
  refine ⟨us, w.gap, w.text ++ textOf vs tail, before ++ textOf (us ++ [w]) [], vs, ?_, hbefore, hgap, ?_,
    ⟨h.text.trans hbehind, hvs⟩, ?_, ?_, ?_⟩
  · rw [h.text, textOf_append_cons]
  · rw [ht, ← Position.after_append, start_after_offset]
  · rw [ht]
    exact stop_concat before us w
  · rw [hrest, ← Position.after_append]
  · rw [tokensAt_append_cons, ht, Position.after_append _ before (textOf (us ++ [w]) [])]

namespace ParsedFile

theorem amongTokens_of_reads {source : Source} {file tail : Text} {c : Cursor} {previousEnd : Nat}
    {blocks : List Block} (h : Reads source file true c previousEnd blocks) :
    ∀ (before : Text) (ws : List Lexeme), Token.Behind source.text before ws tail →
      previousEnd = before.length → c.rest <:+ codeAt (Position.start.after before) ws →
      Block.AmongTokens source.text previousEnd (tokensAt (Position.start.after before) ws) blocks := by
  induction h with
  | done => exact fun _ _ _ _ _ => .done
  | leftOut hsuffix _ ih => exact fun before ws hbehind hend hc => ih before ws hbehind hend (hsuffix.trans hc)
  | @block c previousEnd name labels header opening body closing more hname hlabels hheader hopening
      hbody hclosing hmore ih =>
    intro before ws hbehind hend hc
    obtain ⟨hnameView, hnameKind⟩ := Cursor.view_of_takeIf? (Cursor.expect_ok hname)
    obtain ⟨hopenView, hopenKind⟩ := Cursor.view_of_takeIf? (Cursor.expect_ok hopening)
    obtain ⟨hcloseView, hcloseKind⟩ := Cursor.view_of_takeIf? (Cursor.expect_ok hclosing)
    change c.skipNewlines.rest = name.value :: name.next.rest at hnameView
    change header.next.rest = opening.value :: opening.next.rest at hopenView
    change body.next.rest = closing.value :: closing.next.rest at hcloseView
    have hskip : c.skipNewlines.rest <:+ codeAt (Position.start.after before) ws :=
      (c.view_suffix .ignored).trans hc
    rw [hnameView] at hskip
    obtain ⟨us, gap, after, before₁, ws₁, htext, hfit, hgap, hstart, hbehind₁, -, hrest₁, htokens⟩ :=
      hbehind.exists_token hskip
    have hheaderRest := header.suffix.trans labels.suffix
    rw [hopenView, hrest₁] at hheaderRest
    obtain ⟨us₁, -, -, before₂, ws₂, -, -, -, -, hbehind₂, -, hrest₂, htokens₁⟩ :=
      hbehind₁.exists_token hheaderRest
    have hbodyRest := body.suffix
    rw [hcloseView, hrest₂] at hbodyRest
    obtain ⟨us₂, -, -, before₃, ws₃, -, -, -, -, hbehind₃, hstop, hrest₃, htokens₂⟩ :=
      hbehind₂.exists_token hbodyRest
    rw [htokens, htokens₁, htokens₂]
    refine .block (of_decide_eq_true hnameKind) rfl (of_decide_eq_true hopenKind)
      (of_decide_eq_true hcloseKind) rfl (fun hlines => ?_)
      (ih before₃ ws₃ hbehind₃ hstop (hrest₃ ▸ List.suffix_refl _))
    rw [if_pos rfl, hstart, hend, htext]
    rw [hstart, hend, htext, ← List.append_assoc, slice_between] at hlines
    exact Block.leadingCommentsAt_eq _ hfit hgap hlines

/-- The leading comments of the blocks of a file are those that the tokens of the file tell, where the
tokens between the blocks stand on one line each. -/
theorem amongTokens_of_ofText {file text : Text} {parsed : ParsedFile} {events : List ParseEvent}
    (h : ofText file true text = .ok (parsed, events)) :
    ∃ stream, TokenStream.ofText text = .ok stream ∧
      Block.AmongTokens text 0 stream.tokens parsed.blocks := by
  obtain ⟨stream, hstream, hreads⟩ := reads_of_ofText h
  refine ⟨stream, hstream, ?_⟩
  obtain ⟨ws, tail, rfl, hfit, -, rfl⟩ := exists_lexemes hstream
  exact amongTokens_of_reads hreads [] ws ⟨rfl, hfit⟩ rfl (List.suffix_refl _)

end ParsedFile

end HclTidy
