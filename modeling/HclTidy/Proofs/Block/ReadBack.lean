import HclTidy.Proofs.Block.Written

/-!
# Reading what was written

The canonical layout of written blocks is read back block by block. Type, labels and leading
comments are those of the block that was written, and the raw body has the same tokens.
-/

set_option autoImplicit false

namespace HclTidy

open Token Layout

/-! ## A cursor in front of lexemes -/

/-- What is left to read is `ws`, and the text in front of it is `done`. -/
structure Cursor.InFrontOf (source : Source) (done : Text) (ws : List Lexeme) (c : Cursor) : Prop where
  text : source.text = done ++ textOf ws []
  rest : c.rest = codeAt (Position.start.after done) ws

namespace Cursor.InFrontOf

variable {source : Source} {done : Text} {w : Lexeme} {ws : List Lexeme} {c : Cursor}

/-- The token of a lexeme behind a text. -/
def tokenAfter (done : Text) (w : Lexeme) : Token :=
  ⟨w.kind, w.text, Position.start.after (done ++ w.gap)⟩

theorem view (h : c.InFrontOf source done (w :: ws)) (hk : w.kind ≠ .comment) :
    c.view .significant =
      tokenAfter done w :: codeAt (Position.start.after (done ++ w.gap ++ w.text)) ws := by
  change c.rest = _
  rw [h.rest, codeAt_cons _ _ hk, tokenAfter]
  simp only [Position.after_append]

theorem behind (h : c.InFrontOf source done (w :: ws)) {c' : Cursor}
    (hrest : c'.rest = codeAt (Position.start.after (done ++ w.gap ++ w.text)) ws) :
    c'.InFrontOf source (done ++ w.gap ++ w.text) ws := by
  refine ⟨?_, hrest⟩
  rw [h.text, textOf_cons]
  simp only [List.append_assoc]

/-- A wanted token is taken. -/
theorem takeIf? (h : c.InFrontOf source done (w :: ws)) (hk : w.kind ≠ .comment)
    (wanted : Token → Bool) (hw : wanted (tokenAfter done w) = true) :
    ∃ s, c.takeIf? .significant wanted = some s ∧ s.value = tokenAfter done w ∧
      s.next.InFrontOf source (done ++ w.gap ++ w.text) ws := by
  obtain ⟨s, hs, hvalue, hrest⟩ := Cursor.takeIf?_of_view (h.view hk) hw
  exact ⟨s, hs, hvalue, h.behind hrest⟩

theorem expect (h : c.InFrontOf source done (w :: ws)) (kind : Kind) (hk : kind ≠ .comment)
    (hw : w.kind = kind) :
    ∃ s, c.expect source .significant kind = .ok s ∧ s.value = tokenAfter done w ∧
      s.next.InFrontOf source (done ++ w.gap ++ w.text) ws := by
  obtain ⟨s, hs, hvalue, hnext⟩ := h.takeIf? (by rwa [hw]) (isKind kind) (decide_eq_true hw)
  exact ⟨s, Cursor.expect_of_some hs, hvalue, hnext⟩

theorem tokenAfter_offset (done : Text) (w : Lexeme) :
    (tokenAfter done w).start.offset = (done ++ w.gap).length := start_after_offset _

theorem tokenAfter_stop (done : Text) (w : Lexeme) :
    (tokenAfter done w).stop = (done ++ w.gap ++ w.text).length := by
  rw [Token.stop, tokenAfter_offset, @List.length_append _ (done ++ w.gap)]
  rfl

/-- Lexemes may be passed over. -/
theorem split {us : List Lexeme} (h : c.InFrontOf source done (us ++ ws)) :
    c.rest = codeAt (Position.start.after done) us ++
        codeAt (Position.start.after (done ++ textOf us [])) ws ∧
      ∀ {c' : Cursor}, c'.rest = codeAt (Position.start.after (done ++ textOf us [])) ws →
        c'.InFrontOf source (done ++ textOf us []) ws := by
  refine ⟨?_, fun hrest => ⟨?_, hrest⟩⟩
  · rw [h.rest, codeAt_append, Position.after_append]
  · rw [h.text, textOf_append, textOf_eq_append us, List.append_assoc]

/-- Line breaks and comments in front of another token are passed over. -/
theorem skipNewlines {us : List Lexeme} (h : c.InFrontOf source done (us ++ w :: ws))
    (hus : ∀ u ∈ us, u.kind = .newline ∨ u.kind = .comment)
    (hw : w.kind ≠ .newline ∧ w.kind ≠ .comment) :
    c.skipNewlines.InFrontOf source (done ++ textOf us []) (w :: ws) := by
  obtain ⟨hrest, hbehind⟩ := h.split
  have hnewlines : Comparison.AllNewlines (codeAt (Position.start.after done) us) := by
    intro t ht
    obtain ⟨ht, hcomment⟩ := List.mem_filter.mp ht
    exact (tokensAt_kind (q := fun k => k = .newline ∨ k = .comment) hus t ht).resolve_right
      (by simpa using hcomment)
  refine hbehind ?_
  change c.rest.dropWhile _ = _
  rw [hrest, codeAt_cons _ _ hw.2, Comparison.dropWhile_newlines hnewlines _ hw.1]

end Cursor.InFrontOf

namespace Block

open Cursor.InFrontOf (tokenAfter tokenAfter_offset tokenAfter_stop)

/-! ## Headers -/

/-- The text of a lexeme is the same in every layout. -/
def IsFixed (w : Lexeme) : Prop := ∀ text, TextChange w.kind w.text text → text = w.text

theorem isFixed_of_fits {w : Lexeme} {after : Text} (h : Fits w.kind w.text after)
    (hk : isWordKind w.kind = true) : IsFixed w := fun _ hc => textChange_word h hk hc

theorem isFixed_label (label : Text) : IsFixed (labelLexeme label) := by
  have hs := Escape.scans_encode label
  have hfit : Fits .string (labelLexeme label).text [] := .string hs
  exact fun _ hc => textChange_literal hfit (Template.partsOf_of_scans hs).1 hc

/-- A line feed without a gap stays as it is. -/
theorem respaced_feed {first : Bool} {below vs : List Lexeme}
    (h : Respaced first (lineFeed [] :: below) vs) :
    ∃ below', vs = lineFeed [] :: below' ∧ Respaced true below below' := by
  cases h with
  | cons hkind htext hgap hline hrest =>
    rename_i w below'
    obtain ⟨wgap, wkind, wtext⟩ := w
    obtain rfl : wkind = .newline := hkind
    obtain rfl : wgap = [] := hline rfl rfl
    have hfit : Fits .newline ['\n'] [] := .newline
    obtain rfl : wtext = ['\n'] := textChange_newline hfit htext
    exact ⟨below', rfl, hrest⟩

theorem respaced_fixed {first : Bool} {w : Lexeme} {ws vs : List Lexeme} (hw : IsFixed w)
    (h : Respaced first (w :: ws) vs) :
    ∃ gap vs', vs = ⟨gap, w.kind, w.text⟩ :: vs' ∧
      GapChange (first || w.kind = .newline) w.gap gap ∧ Respaced (w.kind = .newline) ws vs' := by
  cases h with
  | cons hkind htext hgap hline hrest =>
    rename_i v vs'
    obtain ⟨vgap, vkind, vtext⟩ := v
    obtain rfl : vkind = w.kind := hkind
    obtain rfl : vtext = w.text := hw _ htext
    exact ⟨vgap, vs', rfl, hgap, hrest⟩

/-- A label in quotes is read as the label. -/
theorem labelText_label (c : Cursor) (label : Text) (p : Position) :
    Body.labelText c ⟨.string, '"' :: (Escape.encode label ++ ['"']), p⟩ = .ok label := by
  obtain ⟨hliteral, hwritten⟩ := Template.partsOf_of_scans (Escape.scans_encode label)
  have htext := (Template.flatMap_literalText hliteral).trans (List.append_cancel_right hwritten)
  unfold Body.labelText
  rw [if_neg nofun]
  unfold Body.decodeLabel
  dsimp only
  rw [if_pos hliteral, htext, Escape.decode_encode]

/-- The token of a label in quotes. -/
structure IsLabel (label : Text) (t : Token) : Prop where
  kind : t.kind = .string
  text : t.text = '"' :: (Escape.encode label ++ ['"'])

section Reading

variable {source : Source} {c : Cursor} {done after : Text} {first : Bool} {ws vs : List Lexeme}

/-- Labels in quotes are read up to the brace behind them. -/
theorem readLabels_tokens {labels : List Text} {ts : List Token} (h : List.Forall₂ IsLabel labels ts)
    {brace : Token} (hbrace : brace.kind = .lbrace) {behind : List Token}
    (hc : c.rest = ts ++ brace :: behind) :
    ∃ s, Body.readLabels source c = .ok s ∧ s.value = labels ∧ s.next.rest = brace :: behind := by
  induction h generalizing c with
  | nil =>
    have hnone : c.takeIf? .significant (fun t => t.kind = .string || t.kind = .ident) = none :=
      Cursor.takeIf?_none_of_view hc (by rw [hbrace]; rfl)
    refine ⟨⟨[], c, List.suffix_refl _⟩, ?_, rfl, hc⟩
    rw [Body.readLabels]
    split
    · rfl
    · next step hsome =>
      rw [hnone] at hsome
      cases hsome
  | @cons label t labels ts ht _ ih =>
    obtain ⟨kind, text, p⟩ := t
    obtain ⟨rfl, rfl⟩ := ht
    have hview : c.view .significant =
        ⟨.string, '"' :: (Escape.encode label ++ ['"']), p⟩ :: (ts ++ brace :: behind) := hc
    obtain ⟨step, hstep, hvalue, hnext⟩ : ∃ s,
        c.takeIf? .significant (fun t => t.kind = .string || t.kind = .ident) = some s ∧
          s.value = _ ∧ s.next.rest = _ := Cursor.takeIf?_of_view hview rfl
    obtain ⟨more, hmore, hlabels, hend⟩ := ih hnext
    have hlabel : Body.labelText step.next step.value = .ok label := by
      rw [hvalue]
      exact labelText_label _ _ _
    refine ⟨⟨label :: more.value, more.next, more.suffix.trans step.suffix⟩, ?_, ?_, hend⟩
    · rw [Body.readLabels]
      simp only [hstep, bind, Except.bind, hlabel, hmore]
    · exact congrArg _ hlabels

theorem isLabel_codeAt {labels : List Text} (h : Respaced first (labels.map labelLexeme) vs)
    (p : Position) : List.Forall₂ IsLabel labels (codeAt p vs) := by
  induction labels generalizing first vs p with
  | nil =>
    cases h
    exact .nil
  | cons label labels ih =>
    obtain ⟨gap, vs, rfl, -, hrest⟩ := respaced_fixed (isFixed_label label) h
    rw [codeAt_cons p vs (show Kind.string ≠ Kind.comment by decide)]
    exact .cons ⟨rfl, rfl⟩ (ih hrest _)

/-- The labels of a header are read back. -/
theorem readLabels_written {labels : List Text} {w : Lexeme} (hw : w.kind = .lbrace)
    (hvs : Respaced first (labels.map labelLexeme) vs)
    (h : c.InFrontOf source done (vs ++ w :: ws)) :
    ∃ s, Body.readLabels source c = .ok s ∧ s.value = labels ∧
      s.next.InFrontOf source (done ++ textOf vs []) (w :: ws) := by
  obtain ⟨hrest, hbehind⟩ := h.split
  have hcode := codeAt_cons (Position.start.after (done ++ textOf vs [])) ws
    (show w.kind ≠ .comment by rw [hw]; decide)
  rw [hcode] at hrest
  obtain ⟨s, hs, hvalue, hnext⟩ := readLabels_tokens (isLabel_codeAt hvs _) hw hrest
  exact ⟨s, hs, hvalue, hbehind (by rw [hnext, hcode])⟩

/-- What is left of a written block behind its comments is read as the block. -/
theorem checkLabels_of_sound {b : Block} (h : b.Sound) (name : Token) (hname : name.text = b.type)
    (c : Cursor) :
    ∃ s, ParsedFile.checkLabels name b.labels c = .ok s ∧ s.next.rest = c.rest := by
  unfold ParsedFile.checkLabels
  split
  · exact ⟨_, rfl, rfl⟩
  · next count hcount =>
    rw [hname] at hcount
    rw [if_pos (h.labels count hcount)]
    exact ⟨_, rfl, rfl⟩

end Reading

/-! ## Comments -/

/-- Comment lines in another layout: white space may stand in front of a line. -/
theorem exists_rows_of_respaced {rows : List Text} (hrows : ∀ row ∈ rows, '\n' ∉ row ∧ Text.trim row = row)
    {vs : List Lexeme} (h : Respaced true (commentLexemes rows) vs) (after : Text) :
    ∃ rows', textOf vs after = rows'.flatMap (· ++ ['\n']) ++ after ∧
      List.Forall₂ (fun row row' => '\n' ∉ row' ∧ Text.trim row' = row) rows rows' := by
  induction rows generalizing vs with
  | nil =>
    cases h
    exact ⟨[], rfl, .nil⟩
  | cons row rows ih =>
    obtain ⟨hn, htrim⟩ := hrows row (List.mem_cons_self ..)
    have hbelow := fun r hr => hrows r (List.mem_cons_of_mem row hr)
    rw [commentLexemes] at h
    cases row with
    | nil =>
      obtain ⟨vs, rfl, hrest⟩ := respaced_feed h
      obtain ⟨rows', htext, hrows'⟩ := ih hbelow hrest
      refine ⟨[] :: rows', ?_, .cons ⟨List.not_mem_nil, rfl⟩ hrows'⟩
      rw [textOf_cons, htext]
      rfl
    | cons d row =>
      have hfixed : IsFixed ⟨[], .comment, d :: row⟩ := by
        have hright : Text.trimRight (d :: row) = d :: row := by
          rw [← htrim, Text.trimRight_trim]
        rintro text (htext | htext | ⟨-, htext⟩)
        · exact htext
        · rwa [Text.trimFirst_of_not_mem hn, hright] at htext
        · rwa [hright] at htext
      obtain ⟨gap, vs, rfl, hgap, hfeed⟩ := respaced_fixed hfixed h
      obtain ⟨vs, rfl, hrest⟩ := respaced_feed hfeed
      obtain ⟨rows', htext, hrows'⟩ := ih hbelow hrest
      have hblank := hgap.blank (List.forall_mem_nil _)
      refine ⟨(gap ++ d :: row) :: rows', ?_, .cons ⟨?_, ?_⟩ hrows'⟩
      · rw [textOf_cons, textOf_cons, htext]
        simp [lineFeed]
      · rw [List.mem_append, not_or]
        exact ⟨isGap_newline hgap.isGap, hn⟩
      · rw [Text.trim, Text.trimLeft_blank_append _ hblank]
        exact htrim

theorem textOf_feeds (n : Nat) (after : Text) :
    textOf (List.replicate n (lineFeed [])) after =
      (List.replicate n ([] : Text)).flatMap (· ++ ['\n']) ++ after := by
  induction n with
  | zero => rfl
  | succ n ih =>
    rw [List.replicate_succ, textOf_cons, ih, List.replicate_succ, List.flatMap_cons]
    rfl

theorem map_trim_of_forall₂ {rows rows' : List Text}
    (h : List.Forall₂ (fun row row' => '\n' ∉ row' ∧ Text.trim row' = row) rows rows') :
    rows'.map Text.trim = rows ∧ ∀ row' ∈ rows', '\n' ∉ row' := by
  induction h with
  | nil => exact ⟨rfl, nofun⟩
  | cons hrow _ ih =>
    refine ⟨by rw [List.map_cons, hrow.2, ih.1], ?_⟩
    intro row' hmem
    obtain rfl | hmem := List.mem_cons.mp hmem
    · exact hrow.1
    · exact ih.2 row' hmem

/-- The comments above a written block are its leading comments. In front of them stand two line
feeds behind the block before, or nothing at the top of the file. -/
theorem leadingCommentsAt_written {comments : Text} (h : IsCommentRows (rowsOfComments comments))
    {done gap : Text} {n : Nat} (hn : n = 0 ∧ done = [] ∨ n = 2 ∧ done ≠ [])
    {vs : List Lexeme} (hvs : Respaced true (commentLexemes (rowsOfComments comments)) vs)
    (hgap : isGap gap) (after : Text) :
    leadingCommentsAt (done ++ textOf (List.replicate n (lineFeed []) ++ vs) gap ++ after)
      ((done ++ textOf (List.replicate n (lineFeed []) ++ vs) gap).length : Nat)
      (done.length : Nat) = comments := by
  obtain ⟨rows', htext, hrows'⟩ :=
    exists_rows_of_respaced (fun row hrow => ⟨(h.row row hrow).1, (h.row row hrow).2.1⟩) hvs gap
  obtain ⟨htrim, hnewline⟩ := map_trim_of_forall₂ hrows'
  have hlines : Text.lines (textOf (List.replicate n (lineFeed []) ++ vs) gap) =
      (List.replicate n [] ++ rows') ++ [gap] := by
    rw [textOf_append, textOf_feeds, htext, ← List.append_assoc, ← List.flatMap_append]
    have hunlines := unlines_comments (List.replicate n [] ++ rows') (List.cons_ne_nil gap [])
    rw [Text.unlines_singleton] at hunlines
    rw [← hunlines, Text.lines_unlines (by simp)]
    simp only [List.mem_append, List.mem_replicate, List.mem_singleton]
    rintro l ((⟨-, rfl⟩ | hl) | rfl)
    · exact List.not_mem_nil
    · exact hnewline l hl
    · exact isGap_newline hgap
  have habove : ∃ m, (if (done.length : Int) > 0 then (List.replicate n [] ++ rows').tail
      else List.replicate n [] ++ rows') = List.replicate m [] ++ rows' := by
    obtain ⟨rfl, rfl⟩ | ⟨rfl, hdone⟩ := hn
    · exact ⟨0, rfl⟩
    · have hpos : (done.length : Int) > 0 := by
        have := List.length_pos_iff.mpr hdone
        omega
      exact ⟨1, by rw [if_pos hpos]; rfl⟩
  obtain ⟨m, habove⟩ := habove
  have hrun : ((List.replicate m [] ++ rows').reverse.map Text.trim).takeWhile isCommentOrBlank =
      (List.replicate m [] ++ rowsOfComments comments).reverse := by
    have hmap : (List.replicate m [] ++ rows').reverse.map Text.trim =
        (List.replicate m [] ++ rowsOfComments comments).reverse := by
      rw [List.map_reverse, List.map_append, htrim, List.map_replicate]
      rfl
    rw [hmap, List.takeWhile_eq_self_iff]
    intro row hrow
    obtain hrow | hrow := List.mem_append.mp (List.mem_reverse.mp hrow)
    · rw [List.eq_of_mem_replicate hrow]
      rfl
    · exact (h.row row hrow).2.2
  have hrange : done.length ≤
      (done ++ textOf (List.replicate n (lineFeed []) ++ vs) gap).length := by
    rw [List.length_append]
    omega
  have hstop := (List.prefix_append
    (done ++ textOf (List.replicate n (lineFeed []) ++ vs) gap) after).length_le
  rw [leadingCommentsAt, if_pos ⟨by omega, by omega, by omega⟩, Int.toNat_natCast, Int.toNat_natCast,
    slice_between]
  dsimp only
  rw [hlines, List.dropLast_concat, habove, hrun, List.reverse_reverse, trimRows_blank h,
    unlines_rowsOfComments]

/-! ## One block -/

/-- Blocks that agree but for the layout of their bodies. -/
structure Alike (b b' : Block) : Prop where
  type : b'.type = b.type
  labels : b'.labels = b.labels
  leadingComments : b'.leadingComments = b.leadingComments
  body : ∃ tokens, tokensOf? b.rawBody = some tokens ∧ tokensOf? b'.rawBody = some tokens

/-- The lexemes of a written block in another layout, in front of other lexemes. -/
structure Relaid (b : Block) (body : List Lexeme) (vs behind : List Lexeme) where
  comments : List Lexeme
  nameGap : Text
  labels : List Lexeme
  openingGap : Text
  inner : List Lexeme
  closingGap : Text
  eq : vs = comments ++ ⟨nameGap, .ident, b.type⟩ :: (labels ++ ⟨openingGap, .lbrace, ['{']⟩ ::
    lineFeed [] :: (inner ++ ⟨closingGap, .rbrace, ['}']⟩ :: behind))
  isGap_name : isGap nameGap
  isGap_closing : isGap closingGap
  respaced_comments : Respaced true (commentLexemes (rowsOfComments b.leadingComments)) comments
  respaced_labels : ∃ first, Respaced first (b.labels.map labelLexeme) labels
  respaced_inner : Respaced true body inner

theorem exists_relaid {b : Block} (h : b.Sound) {body behind vs : List Lexeme}
    (hvs : Respaced true (b.lexemes body ++ behind) vs) :
    ∃ behind', Respaced false behind behind' ∧ Nonempty (b.Relaid body vs behind') := by
  obtain ⟨after, htype⟩ := h.type
  have hname : IsFixed ⟨[], .ident, b.type⟩ := isFixed_of_fits htype rfl
  have hopening : IsFixed openingLexeme := isFixed_of_fits (fits_opening []) rfl
  have hclosing : IsFixed closingLexeme := isFixed_of_fits (fits_closing []) rfl
  simp only [lexemes, headerLexemes, List.append_assoc, List.cons_append, List.nil_append] at hvs
  obtain ⟨comments, vs, rfl, hcomments, hvs⟩ := respaced_of_append hvs
  obtain ⟨nameGap, vs, rfl, hnameGap, hvs⟩ := respaced_fixed hname hvs
  obtain ⟨labels, vs, rfl, hlabels, hvs⟩ := respaced_of_append hvs
  obtain ⟨openingGap, vs, rfl, -, hvs⟩ := respaced_fixed hopening hvs
  obtain ⟨vs, rfl, hbody⟩ := respaced_feed hvs
  obtain ⟨inner, vs, rfl, hinner, hend⟩ := respaced_of_append hbody
  obtain ⟨closingGap, vs, rfl, hclosingGap, hbehind⟩ := respaced_fixed hclosing hend
  exact ⟨vs, hbehind, ⟨⟨comments, nameGap, labels, openingGap, inner, closingGap, rfl, hnameGap.isGap,
    hclosingGap.isGap, hcomments, ⟨_, hlabels⟩, hinner⟩⟩⟩

section File

variable {source : Source} {file : Text} {done : Text} {c : Cursor}

theorem kind_commentLexemes (rows : List Text) :
    ∀ w ∈ commentLexemes rows, w.kind = .newline ∨ w.kind = .comment := by
  induction rows with
  | nil => nofun
  | cons row rows ih =>
    intro w hw
    rw [commentLexemes, List.mem_append, List.mem_cons] at hw
    obtain hw | rfl | hw := hw
    · split at hw
      · cases hw
      · rw [List.mem_singleton.mp hw]
        exact .inr rfl
    · exact .inl rfl
    · exact ih w hw

theorem kind_above {rows : List Text} {comments : List Lexeme} (n : Nat)
    (h : Respaced true (commentLexemes rows) comments) :
    ∀ w ∈ List.replicate n (lineFeed []) ++ comments, w.kind = .newline ∨ w.kind = .comment := by
  intro w hw
  obtain hw | hw := List.mem_append.mp hw
  · rw [List.eq_of_mem_replicate hw]
    exact .inl rfl
  · exact kind_of_respaced h (p := fun k => k = .newline ∨ k = .comment) (kind_commentLexemes rows) w hw

theorem accept?_equal {ws : List Lexeme} (h : c.InFrontOf source done ws)
    (hhead : ∃ w rest, ws = w :: rest ∧ w.kind ≠ .comment ∧ w.kind ≠ .equal) :
    c.accept? .significant .equal = none := by
  obtain ⟨w, rest, rfl, hcomment, hequal⟩ := hhead
  exact Cursor.takeIf?_none_of_view (h.view hcomment) (decide_eq_false hequal)

/-- The text between the braces of a written block has the tokens of its raw body. -/
theorem tokens_written {b : Block} {body inner : List Lexeme} (h : WrittenBody b body)
    (hinner : Respaced true body inner) {gap : Text} (hg : isGap gap) :
    tokensOf? (textOf (lineFeed [] :: inner) gap) = some (significant body) := by
  have hfit := allFit_respaced hinner ⟨meets_refl gap, id⟩ (h.fits gap)
  have hfeed : AllFit (lineFeed [] :: inner) gap := ⟨nofun, .newline, hfit⟩
  rw [tokensOf?_textOf hfeed hg, ← significant_respaced hinner]
  rfl

/-- What stands behind the opening brace of a written block is read up to the end of its line. -/
theorem readBody_written {b : Block} {body inner behind : List Lexeme} (hbody : WrittenBody b body)
    (hinner : Respaced true body inner) (hend : source.endToken.kind = .endOfText) {gap : Text}
    (hc : c.InFrontOf source done
      (lineFeed [] :: inner ++ ⟨gap, .rbrace, ['}']⟩ :: lineFeed [] :: behind)) :
    ∃ (inside : Tail Body c) (closing : Step Token inside.next), Body.read source c = .ok inside ∧
      inside.next.expect source .significant .rbrace = .ok closing ∧
      closing.next.endOfItem source = .ok () ∧
      rawBodyAt source.text (done.length : Nat) closing.value.start.offset =
        textOf (lineFeed [] :: inner) gap ∧
      ∃ done', done' ≠ [] ∧ closing.value.stop = done'.length ∧
        closing.next.InFrontOf source done' (lineFeed [] :: behind) := by
  obtain ⟨hrest, hbehind⟩ := hc.split
  have hbrace : codeAt (Position.start.after (done ++ textOf (lineFeed [] :: inner) []))
      (⟨gap, .rbrace, ['}']⟩ :: lineFeed [] :: behind) = _ := codeAt_cons _ _ nofun
  rw [hbrace] at hrest hbehind
  obtain ⟨inside, hinside, hinsideRest⟩ := hbody.reads hinner hend rfl hrest
  obtain ⟨closing, hclosing, hvalue, hnext⟩ := (hbehind hinsideRest).expect .rbrace nofun rfl
  have hgap : done ++ textOf (lineFeed [] :: inner) [] ++ gap =
      done ++ textOf (lineFeed [] :: inner) gap := by
    rw [List.append_assoc, ← textOf_eq_append]
  refine ⟨inside, closing, hinside, hclosing, ?_, ?_, _, ?_, ?_, hnext⟩
  · unfold Cursor.endOfItem
    rw [Cursor.peek_of_view source (hnext.view nofun)]
    rfl
  · rw [hvalue, tokenAfter_offset, hgap]
    exact eq_of_range (hc.text.trans (congrArg _ (textOf_append_cons _ _ _ _)))
  · simp
  · rw [hvalue, tokenAfter_stop]

/-- The header of a written block is read up to the opening brace. -/
theorem readHeader_written {b : Block} (h : b.Sound) {n : Nat} {comments labels behind : List Lexeme}
    {nameGap openingGap : Text}
    (hcomments : Respaced true (commentLexemes (rowsOfComments b.leadingComments)) comments)
    {first : Bool} (hlabels : Respaced first (b.labels.map labelLexeme) labels)
    (hc : c.InFrontOf source done (List.replicate n (lineFeed []) ++ comments ++
      ⟨nameGap, .ident, b.type⟩ :: (labels ++ ⟨openingGap, .lbrace, ['{']⟩ :: behind))) :
    ∃ (name : Step Token c.skipNewlines) (read : Tail (List Text) name.next)
      (header : Tail Unit read.next) (opening : Step Token header.next),
      c.skipNewlines.expect source .significant .ident = .ok name ∧
      name.value = tokenAfter (done ++ textOf (List.replicate n (lineFeed []) ++ comments) [])
        ⟨nameGap, .ident, b.type⟩ ∧
      name.next.accept? .significant .equal = none ∧
      Body.readLabels source name.next = .ok read ∧ read.value = b.labels ∧
      ParsedFile.checkLabels name.value read.value read.next = .ok header ∧
      header.next.expect source .significant .lbrace = .ok opening ∧
      ∃ done', opening.value.stop = done'.length ∧ opening.next.InFrontOf source done' behind := by
  have hskip := hc.skipNewlines (w := ⟨nameGap, .ident, b.type⟩) (kind_above n hcomments)
    ⟨nofun, nofun⟩
  obtain ⟨name, hname, hnameValue, hbehindName⟩ := hskip.expect .ident nofun rfl
  obtain ⟨read, hread, hreadValue, hbehindLabels⟩ := readLabels_written rfl hlabels hbehindName
  obtain ⟨header, hheader, hheaderRest⟩ := checkLabels_of_sound h name.value
    (by rw [hnameValue]; rfl) read.next
  obtain ⟨opening, hopening, hopeningValue, hbehindOpening⟩ :=
    Cursor.InFrontOf.expect (c := header.next) ⟨hbehindLabels.text, hheaderRest.trans hbehindLabels.rest⟩
      .lbrace nofun rfl
  refine ⟨name, read, header, opening, hname, hnameValue, ?_, hread, hreadValue, ?_, hopening, _, ?_,
    hbehindOpening⟩
  · refine accept?_equal hbehindName ?_
    cases labels with
    | nil => exact ⟨_, _, rfl, nofun, nofun⟩
    | cons label rest =>
      have hkind := kind_of_respaced hlabels (p := (· = .string)) (fun w hw => by
        obtain ⟨l, -, rfl⟩ := List.mem_map.mp hw
        rfl) label (List.mem_cons_self ..)
      exact ⟨_, _, rfl, by rw [hkind]; decide, by rw [hkind]; decide⟩
  · rw [hreadValue]
    exact hheader
  · rw [hopeningValue, tokenAfter_stop]

/-- A written block is read back, and what is left to read is what stands behind it. -/
theorem readBlocks_written {b : Block} (h : b.Sound) {body : List Lexeme} (hbody : WrittenBody b body)
    (hend : source.endToken.kind = .endOfText) {n : Nat} (hn : n = 0 ∧ done = [] ∨ n = 2 ∧ done ≠ [])
    {vs behind : List Lexeme} (parts : b.Relaid body vs (lineFeed [] :: behind))
    (hc : c.InFrontOf source done (List.replicate n (lineFeed []) ++ vs)) :
    ∃ (next : Cursor) (b' : Block) (done' : Text), done' ≠ [] ∧
      next.InFrontOf source done' (lineFeed [] :: behind) ∧ b.Alike b' ∧
      ∀ more events, ParsedFile.readBlocks source file true done'.length next = .ok (more, events) →
        ParsedFile.readBlocks source file true done.length c = .ok (b' :: more, events) := by
  obtain ⟨comments, nameGap, labels, openingGap, inner, closingGap, rfl, hnameGap, hclosingGap, hcomments,
    ⟨first, hlabels⟩, hinner⟩ := parts
  rw [← List.append_assoc] at hc
  obtain ⟨name, read, header, opening, hname, hnameValue, hequal, hread, hlabelsRead, hheader, hopening,
    done', hopeningStop, hbehindOpening⟩ := readHeader_written h hcomments hlabels hc
  obtain ⟨inside, closing, hinside, hclosing, hitem, hraw, done'', hdone'', hclosingStop, hnext⟩ :=
    readBody_written hbody hinner hend hbehindOpening
  have hpeek : (c.skipNewlines.peek source .significant).kind ≠ .endOfText := by
    obtain ⟨hview, -⟩ := Cursor.view_of_takeIf? (Cursor.expect_ok hname)
    rw [Cursor.peek_of_view source hview, hnameValue]
    nofun
  have hcomments' : leadingCommentsAt source.text name.value.start.offset done.length =
      b.leadingComments := by
    rw [hc.text, hnameValue, tokenAfter_offset, textOf_append_cons, List.append_assoc done _ nameGap,
      ← textOf_eq_append, ← List.append_assoc]
    exact leadingCommentsAt_written h.comments hn hcomments hnameGap _
  refine ⟨closing.next, ⟨name.value.text, read.value, inside.value,
    rawBodyAt source.text opening.value.stop closing.value.start.offset,
    leadingCommentsAt source.text name.value.start.offset done.length, file⟩, done'', hdone'', hnext,
    ⟨?_, hlabelsRead, hcomments', _, hbody.tokens, ?_⟩, fun more events hmore => ?_⟩
  · rw [hnameValue]
    rfl
  · rw [hopeningStop, hraw]
    exact tokens_written hbody hinner hclosingGap
  · rw [ParsedFile.readBlocks, if_neg hpeek]
    simp only [hname, bind, Except.bind, hequal, hread, hheader, hopening, hinside, hclosing, hitem,
      hclosingStop, hmore, if_true]

end File

end Block

end HclTidy
