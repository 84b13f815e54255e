import HclTidy.Proofs.Block.RoundTrip
import HclTidy.Proofs.Expr.Excerpt

/-!
# Raw bodies

The raw body of a block and its body agree: between the braces of a block of another file, the raw
body reads as the body. Its lexemes are those between the braces of the block, they fit in front of
any closing brace, and bodies are read alike up to their closing braces.
-/

set_option autoImplicit false

namespace HclTidy

open Token

/-- The lexemes between two braces read as the same body between the braces of another text. -/
theorem Body.read_samePlace {source source' : Source} {before before' gap behind behind' : Text}
    {us : List Lexeme} (htext : source.text = before ++ (textOf us gap ++ behind))
    (htext' : source'.text = before' ++ (textOf us gap ++ behind'))
    (hend : source'.endToken.kind = .endOfText) (e e' : Ending) {c c' : Cursor}
    (hc : c.rest = codeAt (Position.start.after before) us ++ e.brace :: e.after)
    (hc' : c'.rest = codeAt (Position.start.after before') us ++ e'.brace :: e'.after)
    {s : Tail Body c} (hs : read source c = .ok s) (hrest : s.next.rest = e.brace :: e.after) :
    ∃ s', read source' c' = .ok s' ∧ s'.next.rest = e'.brace :: e'.after ∧ s'.value = s.value := by
  let f : Comparison := .bodies e e' (Position.start.after before').line
    (Position.start.after before).line True (Text.SamePlace before before' (textOf us gap))
  have hf : f.Braced e e' := Comparison.braced_bodies ..
  have hsources : f.Sources source source' := Comparison.sources_of_samePlace rfl htext htext' hend
  have hlength : (textOf us []).length ≤ (textOf us gap).length := by
    rw [textOf_eq_append us gap, List.length_append]
    omega
  have halike : f.Alike c.rest c'.rest := by
    rw [hc, hc']
    refine Comparison.alike_samePlace (f := f) rfl rfl rfl hlength (.ended ?_ ?_)
    · exact ⟨[], List.forall_mem_nil _, rfl⟩
    · exact ⟨[], List.forall_mem_nil _, rfl⟩
  obtain ⟨s', hs', hrest', hvalue⟩ :=
    read_closing hf hsources (alike_skipNewlines hf halike) hs hrest
  exact ⟨s', hs', hrest', hvalue trivial⟩

/-! ## A text of one block -/

/-- The lexemes of a block without labels around those of its body. -/
def bracedLexemes (us : List Lexeme) (gap : Text) : List Lexeme :=
  ⟨[], .ident, ['t']⟩ :: ⟨[' '], .lbrace, ['{']⟩ :: (us ++ [⟨gap, .rbrace, ['}']⟩])

theorem textOf_bracedLexemes (us : List Lexeme) (gap : Text) :
    textOf (bracedLexemes us gap) [] = ['t', ' ', '{'] ++ (textOf us gap ++ ['}']) := by
  rw [bracedLexemes, textOf_cons, textOf_cons, textOf_append_cons]
  rfl

theorem allFit_bracedLexemes {us : List Lexeme} {gap : Text} (hfit : AllFit us (gap ++ ['}']))
    (hgap : isGap gap) : AllFit (bracedLexemes us gap) [] := by
  have hname (after : Text) : Fits .ident ['t'] (' ' :: after) := by
    refine .ident (by decide) (by decide) (List.forall_mem_nil _) fun d hd => ?_
    cases hd
    decide
  exact ⟨List.forall_mem_nil _, hname _, Block.isGap_space, Block.fits_opening _,
    allFit_append.mpr ⟨hfit, hgap, Block.fits_closing _, trivial⟩⟩

section Braced

variable {source : Source} {c : Cursor} {us : List Lexeme} {gap : Text}

/-- The block begins with a name and an opening brace; no labels are asked of it. -/
theorem Cursor.InFrontOf.readHeader_braced (h : c.InFrontOf source [] (bracedLexemes us gap)) :
    ∃ (name : Step Token c.skipNewlines) (labels : Tail (List Text) name.next)
      (header : Tail Unit labels.next) (opening : Step Token header.next) (closing : Token),
      (c.skipNewlines.peek source .significant).kind ≠ .endOfText ∧
      c.skipNewlines.expect source .significant .ident = .ok name ∧
      name.next.accept? .significant .equal = none ∧
      Body.readLabels source name.next = .ok labels ∧
      ParsedFile.checkLabels name.value labels.value labels.next = .ok header ∧
      header.next.expect source .significant .lbrace = .ok opening ∧ closing.kind = .rbrace ∧
      opening.next.rest = codeAt (Position.start.after ['t', ' ', '{']) us ++ [closing] := by
  have hall : c.InFrontOf source [] ([] ++ bracedLexemes us gap) := h
  have hskip : c.skipNewlines.InFrontOf source [] (bracedLexemes us gap) :=
    hall.skipNewlines (List.forall_mem_nil _) (by decide)
  obtain ⟨name, hname, hvalue, hbehindName⟩ := hskip.expect .ident (by decide) rfl
  have hlabelless : Respaced true (List.map Block.labelLexeme []) [] := .nil
  obtain ⟨labels, hlabels, -, hbehindLabels⟩ := Block.readLabels_written rfl hlabelless hbehindName
  obtain ⟨header, hheader, hrest⟩ :
      ∃ s, ParsedFile.checkLabels name.value labels.value labels.next = .ok s ∧
        s.next.rest = labels.next.rest := by
    rw [hvalue]
    exact ⟨_, rfl, rfl⟩
  obtain ⟨opening, hopening, -, hbehindOpening⟩ :=
    Cursor.InFrontOf.expect (c := header.next) ⟨hbehindLabels.text, hrest.trans hbehindLabels.rest⟩
      .lbrace (by decide) rfl
  obtain ⟨hinside, -⟩ := hbehindOpening.split
  rw [codeAt_cons _ [] (show Kind.rbrace ≠ Kind.comment by decide)] at hinside
  refine ⟨name, labels, header, opening, _, ?_, hname, ?_, hlabels, hheader, hopening, rfl, hinside⟩
  · rw [Cursor.peek_of_view source (Cursor.view_of_takeIf? (Cursor.expect_ok hname)).1, hvalue]
    exact show Kind.ident ≠ Kind.endOfText by decide
  · exact Block.accept?_equal hbehindName ⟨_, _, rfl, by decide, by decide⟩

/-- A closing brace that is the last token ends the block and the file. -/
theorem readBlocks_closing (hend : source.endToken.kind = .endOfText) {closing : Token}
    (hkind : closing.kind = .rbrace) (h : c.rest = [closing]) (file : Text) (keepSource : Bool) :
    ∃ (s : Step Token c) (events : List ParseEvent),
      c.expect source .significant .rbrace = .ok s ∧ s.next.endOfItem source = .ok () ∧
      ParsedFile.readBlocks source file keepSource s.value.stop s.next = .ok ([], events) := by
  have hview : c.view .significant = [closing] := h
  obtain ⟨s, hs, -, hnil⟩ :=
    Cursor.takeIf?_of_view hview (show closing.isKind .rbrace = true from decide_eq_true hkind)
  have hpeek : s.next.peek source .significant = source.endToken := by
    rw [Cursor.peek, show s.next.view .significant = [] from hnil, List.headD_nil]
  have hskip : s.next.skipNewlines.rest = [] := by
    rw [Cursor.skipNewlines, Cursor.view, hnil]
    rfl
  refine ⟨s, _, Cursor.expect_of_some hs, ?_, Block.readBlocks_end file hend hskip keepSource _⟩
  unfold Cursor.endOfItem
  rw [hpeek]
  simp [hend]

/-- A text of one block is read when what stands between its braces is read as a body. -/
theorem ParsedFile.ofText_bracedLexemes (hfit : AllFit us (gap ++ ['}'])) (hgap : isGap gap)
    {body : Body}
    (hread : ∀ (source : Source) (c : Cursor) (closing : Token),
      source.text = ['t', ' ', '{'] ++ (textOf us gap ++ ['}']) →
      source.endToken.kind = .endOfText → closing.kind = .rbrace →
      c.rest = codeAt (Position.start.after ['t', ' ', '{']) us ++ [closing] →
      ∃ s, Body.read source c = .ok s ∧ s.next.rest = [closing] ∧ s.value = body)
    (file : Text) (keepSource : Bool) :
    ∃ b events, ofText file keepSource (['t', ' ', '{'] ++ (textOf us gap ++ ['}'])) =
      .ok (⟨file, [b]⟩, events) ∧ b.body = body := by
  let tokens := tokensAt Position.start (bracedLexemes us gap)
  let source : Source := ⟨textOf (bracedLexemes us gap) [],
    TokenStream.endToken ⟨tokens, Position.start.after (textOf (bracedLexemes us gap) [])⟩⟩
  have hc : (Cursor.ofTokens tokens).InFrontOf source [] (bracedLexemes us gap) := ⟨rfl, rfl⟩
  obtain ⟨name, labels, header, opening, closing, hfirst, hname, hequal, hlabels, hheader, hopening,
    hkind, hinside⟩ := hc.readHeader_braced
  obtain ⟨inside, hbody, hrest, hvalue⟩ := hread source opening.next closing
    (textOf_bracedLexemes us gap) rfl hkind hinside
  obtain ⟨brace, events, hclosing, hitem, hblocks⟩ :=
    readBlocks_closing (show source.endToken.kind = .endOfText from rfl) hkind hrest file keepSource
  rw [← textOf_bracedLexemes]
  unfold ofText TokenStream.ofText
  rw [readAll_textOf (allFit_bracedLexemes hfit hgap) (List.forall_mem_nil _)]
  change ∃ b events, (readBlocks source file keepSource 0 (.ofTokens tokens) >>= _) = _ ∧ _
  rw [readBlocks, if_neg hfirst]
  simp only [hname, bind, Except.bind, hequal, hlabels, hheader, hopening, hbody, hclosing, hitem,
    hblocks]
  exact ⟨_, _, rfl, hvalue⟩

end Braced

namespace ParsedFile

/-- The raw body of a block reads as its body between the braces of another block, and where it is
white space only, the body is empty. -/
theorem ofText_rawBody {file text : Text} {parsed : ParsedFile} {events : List ParseEvent}
    (h : ofText file true text = .ok (parsed, events)) {b : Block} (hb : b ∈ parsed.blocks)
    (file' : Text) (keepSource : Bool) :
    (∃ b' events', ofText file' keepSource (['t', ' ', '{'] ++ (b.rawBody ++ ['}'])) =
      .ok (⟨file', [b']⟩, events') ∧ b'.body = b.body) ∧
    (Text.isBlankText b.rawBody → b.body = .empty) := by
  refine ⟨?_, fun hblank => (sound_of_ofText h b hb).empty (Text.trim_eq_nil_iff.mpr hblank)⟩
  obtain ⟨stream, hstream, hreads⟩ := reads_of_ofText h
  obtain ⟨ws, tail, rfl, hfit, -, rfl⟩ := exists_lexemes hstream
  obtain ⟨d, opening, body, closing, hd, hopening, hbody, hclosing, hvalue, hraw⟩ :=
    hreads.exists_braces (List.suffix_refl _) hb
  obtain ⟨before, us, gap, behind, htext, hbetween, hfits, hgap, hcode⟩ :=
    exists_between rfl hfit hd hopening hclosing
  obtain ⟨hview, hkind⟩ := Cursor.view_of_takeIf? (Cursor.expect_ok hclosing)
  rw [hraw rfl, hbetween, hvalue]
  refine ofText_bracedLexemes hfits hgap (fun source' c' closing' htext' hend' hkind' hc' => ?_)
    file' keepSource
  let e : Ending := ⟨closing.value, closing.next.rest, of_decide_eq_true hkind⟩
  let e' : Ending := ⟨closing', [], hkind'⟩
  exact Body.read_samePlace htext htext' hend' e e' hcode hc' hbody hview

/-- Braces in comments, in a template and in a heredoc stand between those of the block. -/
theorem ofText_rawBody_heredoc :
    let raw := " # \x7d\n b = \"$\x7b\"\x7d\"\x7d\"\n c \x7b\x7d\n d = <<E\n\x7d\nE\n/* \x7d */".toList
    let text := "a \x7b".toList ++ raw ++ "\x7d\n".toList
    ∃ parsed events, ofText [] true text = .ok (parsed, events) ∧ ∃ b ∈ parsed.blocks, b.rawBody = raw ∧
      (∃ b' events', ofText [] false (['t', ' ', '{'] ++ (b.rawBody ++ ['}'])) =
        .ok (⟨[], [b']⟩, events') ∧ b'.body = b.body) ∧
      (Text.isBlankText b.rawBody → b.body = .empty) := by
  intro raw text
  have hread : (ofText [] true text).toOption.bind (fun r => r.1.blocks.head?.map Block.rawBody) =
      some raw := by
    decide +kernel
  cases h : ofText [] true text with
  | error e =>
    rw [h] at hread
    cases hread
  | ok result =>
    obtain ⟨parsed, events⟩ := result
    simp only [h, Except.toOption, Option.bind_some, Option.map_eq_some_iff] at hread
    obtain ⟨b, hb, hraw⟩ := hread
    have hmem := List.mem_of_mem_head? hb
    exact ⟨parsed, events, rfl, b, hmem, hraw, ofText_rawBody h hmem [] false⟩

end ParsedFile

end HclTidy
