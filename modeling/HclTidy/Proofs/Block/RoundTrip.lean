import HclTidy.Proofs.Block.ReadBack

/-!
# Written files

Blocks that are written one below the other and laid out canonically are read back as the same
blocks in the same order.
-/

set_option autoImplicit false

namespace HclTidy

open Token Layout

namespace Block

/-- The lexemes of blocks with an empty line between neighbours. -/
inductive Written : List Block → List Lexeme → Prop
  | single {b : Block} {body : List Lexeme} : b.Sound → WrittenBody b body →
      Written [b] (b.lexemes body)
  | cons {b : Block} {body : List Lexeme} {blocks : List Block} {ws : List Lexeme} :
      b.Sound → WrittenBody b body → Written blocks ws →
      Written (b :: blocks) (b.lexemes body ++ lineFeed [] :: lineFeed [] :: ws)

theorem exists_written {blocks : List Block} (hne : blocks ≠ []) (h : ∀ b ∈ blocks, b.Sound) :
    ∃ ws, Written blocks ws := by
  induction blocks with
  | nil => exact absurd rfl hne
  | cons b blocks ih =>
    have hb := h b (List.mem_cons_self ..)
    obtain ⟨body, hbody⟩ := exists_writtenBody hb
    by_cases hblocks : blocks = []
    · rw [hblocks]
      exact ⟨_, .single hb hbody⟩
    · obtain ⟨ws, hws⟩ := ih hblocks fun b' hb' => h b' (List.mem_cons_of_mem _ hb')
      exact ⟨_, .cons hb hbody hws⟩

section Written

variable {blocks : List Block} {ws : List Lexeme}

theorem ne_nil_of_written (h : Written blocks ws) : blocks ≠ [] := by
  cases h <;> simp

theorem textOf_written (h : Written blocks ws) (after : Text) :
    textOf ws after = joined blocks ++ after := by
  induction h generalizing after with
  | single hb hbody => exact render_eq_textOf hb hbody after
  | cons hb hbody hws ih =>
    rename_i b body blocks ws
    have hjoin : joined (b :: blocks) = b.render ++ ['\n', '\n'] ++ joined blocks :=
      Text.joinWith_cons_of_ne_nil _ _ (by simpa using ne_nil_of_written hws)
    rw [textOf_append, textOf_cons, textOf_cons, ih, render_eq_textOf hb hbody, hjoin]
    simp [lineFeed]

theorem allFit_written (h : Written blocks ws) (after : Text) : AllFit ws after := by
  induction h generalizing after with
  | single hb hbody => exact allFit_lexemes hb hbody after
  | cons hb hbody hws ih =>
    exact allFit_append.mpr ⟨allFit_lexemes hb hbody _, nofun, .newline, nofun, .newline, ih after⟩

theorem head_lexemes {b : Block} (h : b.Sound) (body : List Lexeme) :
    ∃ w more, b.lexemes body = w :: more ∧ w.kind ≠ .newline := by
  unfold lexemes
  cases hrows : rowsOfComments b.leadingComments with
  | nil => exact ⟨_, _, rfl, show Kind.ident ≠ Kind.newline by decide⟩
  | cons row rows =>
    have hne := h.comments.first row (by rw [hrows]; rfl)
    have hemp : row.isEmpty = false := by simpa using hne
    rw [commentLexemes, hemp]
    exact ⟨_, _, rfl, show Kind.comment ≠ Kind.newline by decide⟩

theorem head_written (h : Written blocks ws) : ∃ w more, ws = w :: more ∧ w.kind ≠ .newline := by
  cases h with
  | single hb hbody => exact head_lexemes hb _
  | cons hb hbody hws =>
    obtain ⟨w, more, hhead, hk⟩ := head_lexemes hb _
    exact ⟨w, _, by rw [hhead]; rfl, hk⟩

theorem last_written (h : Written blocks ws) : ∃ w front, ws = front ++ [w] ∧ w.kind ≠ .newline := by
  induction h with
  | single hb hbody =>
    exact ⟨closingLexeme, _, by rw [lexemes, ← List.append_assoc, ← List.append_assoc], nofun⟩
  | cons hb hbody hws ih =>
    obtain ⟨w, front, rfl, hk⟩ := ih
    exact ⟨w, _, by rw [← List.cons_append, ← List.cons_append, ← List.append_assoc], hk⟩

/-- The text of a file is the written blocks in another layout. -/
theorem renderAll_written (h : Written blocks ws) :
    ∃ vs, renderAll blocks = textOf vs [] ∧ Respaced true (ws ++ [lineFeed []]) vs ∧ Tidy true vs := by
  have hsplit : ws ++ [lineFeed []] = [] ++ (ws ++ lineFeed [] :: []) := rfl
  obtain ⟨mid, gap, htext, hrespaced, htidy, -⟩ := format_code (allFit_written h []) nofun hsplit
    (List.forall_mem_nil _) (List.forall_mem_nil _) (head_written h) (last_written h)
  rw [textOf_written h, List.append_nil] at htext
  exact ⟨_, htext, hrespaced, htidy⟩

end Written

/-! ## Reading a written file -/

section Reading

variable {source : Source} {done : Text} {c : Cursor} (file : Text)

theorem readBlocks_end (hend : source.endToken.kind = .endOfText) (hc : c.skipNewlines.rest = [])
    (keepSource : Bool) (previousEnd : Nat) :
    ParsedFile.readBlocks source file keepSource previousEnd c = .ok ([], c.events) := by
  have hpeek : (c.skipNewlines.peek source .significant).kind = .endOfText := by
    rw [Cursor.peek, show c.skipNewlines.view .significant = [] from hc]
    exact hend
  rw [ParsedFile.readBlocks, if_pos hpeek]

theorem skipNewlines_lineFeed (h : c.InFrontOf source done [lineFeed []]) : c.skipNewlines.rest = [] := by
  change c.rest.dropWhile _ = []
  rw [h.rest, codeAt_cons _ (w := lineFeed []) _ nofun]
  rfl

/-- Written blocks are read back one after the other. -/
theorem readBlocks_all (hend : source.endToken.kind = .endOfText) {blocks : List Block} {ws : List Lexeme}
    (h : Written blocks ws) {n : Nat} (hn : n = 0 ∧ done = [] ∨ n = 2 ∧ done ≠ []) {vs : List Lexeme}
    (hvs : Respaced true (ws ++ [lineFeed []]) vs)
    (hc : c.InFrontOf source done (List.replicate n (lineFeed []) ++ vs)) :
    ∃ blocks' events, ParsedFile.readBlocks source file true done.length c = .ok (blocks', events) ∧
      List.Forall₂ Alike blocks blocks' := by
  induction h generalizing done c n vs with
  | single hb hbody =>
    obtain ⟨behind, hbehind, ⟨parts⟩⟩ := exists_relaid hb hvs
    obtain ⟨vs, rfl, hnil⟩ := respaced_feed hbehind
    cases hnil
    obtain ⟨next, b', done', -, hnext, halike, hread⟩ := readBlocks_written hb hbody hend hn parts hc
    exact ⟨[b'], next.events, hread [] _ (readBlocks_end _ hend (skipNewlines_lineFeed hnext) _ _), .cons halike .nil⟩
  | cons hb hbody hws ih =>
    rw [List.append_assoc, List.cons_append, List.cons_append] at hvs
    obtain ⟨behind, hbehind, ⟨parts⟩⟩ := exists_relaid hb hvs
    obtain ⟨behind, rfl, hline⟩ := respaced_feed hbehind
    obtain ⟨vs, rfl, hmore⟩ := respaced_feed hline
    obtain ⟨next, b', done', hdone', hnext, halike, hread⟩ :=
      readBlocks_written hb hbody hend hn parts hc
    obtain ⟨blocks', events, hblocks, hall⟩ := ih (n := 2) (.inr ⟨rfl, hdone'⟩) hmore hnext
    exact ⟨b' :: blocks', events, hread _ _ hblocks, .cons halike hall⟩

end Reading

/-- Sound blocks are read back from the text that is written for them. -/
theorem ofText_renderAll (file : Text) {blocks : List Block} (h : ∀ b ∈ blocks, b.Sound) :
    ∃ parsed events, ParsedFile.ofText file true (renderAll blocks) = .ok (parsed, events) ∧
      List.Forall₂ Alike blocks parsed.blocks := by
  by_cases hne : blocks = []
  · rw [hne]
    have hlexical : TokenStream.ofText (renderAll []) = .ok ⟨[], Position.start⟩ := by decide +kernel
    refine ⟨⟨file, []⟩, [], ?_, .nil⟩
    unfold ParsedFile.ofText
    rw [hlexical]
    dsimp only
    rw [readBlocks_end _ rfl rfl _]
    rfl
  · obtain ⟨ws, hws⟩ := exists_written hne h
    obtain ⟨vs, htext, hvs, -⟩ := renderAll_written hws
    have hfit : AllFit vs [] := allFit_respaced hvs ⟨meets_refl [], id⟩
      (allFit_append.mpr ⟨allFit_written hws _, nofun, .newline, trivial⟩)
    rw [htext]
    unfold ParsedFile.ofText TokenStream.ofText
    rw [readAll_textOf hfit nofun]
    dsimp only
    let source : Source := ⟨textOf vs [],
      TokenStream.endToken ⟨tokensAt Position.start vs, Position.start.after (textOf vs [])⟩⟩
    have hc : (Cursor.ofTokens (tokensAt Position.start vs)).InFrontOf source []
        (List.replicate 0 (lineFeed []) ++ vs) := ⟨rfl, rfl⟩
    obtain ⟨blocks', events, hread, hall⟩ := readBlocks_all file rfl hws (.inl ⟨rfl, rfl⟩) hvs hc
    exact ⟨⟨file, blocks'⟩, events, by rw [← List.length_nil, hread]; rfl, hall⟩

end Block

namespace ParsedFile

/-- The blocks of a file are read back from the text that is written for them: the same blocks in
the same order, each with its type, labels and leading comments, and with the tokens of its body. -/
theorem blocks_readBack {file text : Text} {parsed : ParsedFile} {events : List ParseEvent}
    (h : ofText file true text = .ok (parsed, events)) (file' : Text) :
    ∃ parsed' events', ofText file' true (Block.renderAll parsed.blocks) = .ok (parsed', events') ∧
      List.Forall₂ Block.Alike parsed.blocks parsed'.blocks :=
  Block.ofText_renderAll file' (sound_of_ofText h)

/-- Two blocks with a comment above a brace, a heredoc, a template and a comment that closes a line. -/
theorem blocks_readBack_heredoc :
    let text := "# a\n\n  // b\nfoo \"x\\ty\" z \x7b # c\n a=<<-E\n  \x7d\n  E\n\x7d\nlocals \x7bbb = \"$\x7b 1 \x7d\" /* d */\x7d\n".toList
    ∃ parsed events, ofText [] true text = .ok (parsed, events) ∧
      parsed.blocks.map (fun b => (b.type, b.labels, b.leadingComments)) =
        [("foo".toList, ["x\ty".toList, ['z']], "# a\n\n// b".toList), ("locals".toList, [], [])] ∧
      ∃ parsed' events', ofText [] true (Block.renderAll parsed.blocks) = .ok (parsed', events') ∧
        List.Forall₂ Block.Alike parsed.blocks parsed'.blocks := by
  intro text
  have hread : (ofText [] true text).toOption.map (fun r => r.1.blocks.map fun b =>
      (b.type, b.labels, b.leadingComments)) =
      some [("foo".toList, ["x\ty".toList, ['z']], "# a\n\n// b".toList), ("locals".toList, [], [])] := by
    decide +kernel
  cases h : ofText [] true text with
  | error e =>
    rw [h] at hread
    cases hread
  | ok result =>
    obtain ⟨parsed, events⟩ := result
    rw [h] at hread
    exact ⟨parsed, events, rfl, Option.some.inj hread, blocks_readBack h []⟩

end ParsedFile

end HclTidy
