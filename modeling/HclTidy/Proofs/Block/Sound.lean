import HclTidy.Proofs.Block.Body
import HclTidy.Proofs.Block.Comments
import HclTidy.Proofs.Token.Places

/-!
# Sound blocks

A block is sound when its type is a name, its labels are as many as its type asks for, its leading
comments are comment lines and its raw body is a text that reads as a body in front of a closing
brace. The blocks of a file are sound.
-/

set_option autoImplicit false

namespace HclTidy

open Token

/-- The lexemes of a text that reads as a body. -/
structure ReadsBody (raw : Text) (ws : List Lexeme) (gap : Text) : Prop where
  text : raw = textOf ws gap
  fits : AllFit ws gap
  gap : isGap gap
  reads : ∃ (source : Source) (c : Cursor) (s : Tail Body c) (p : Position) (closing : Token)
    (after : List Token), c.rest = codeAt p ws ++ closing :: after ∧ closing.kind = .rbrace ∧
      Body.read source c = .ok s ∧ s.next.rest = closing :: after

namespace Block

structure Sound (b : Block) : Prop where
  type : ∃ after, Fits .ident b.type after
  labels : ∀ count, labelCounts.lookup b.type = some count → b.labels.length = count
  comments : IsCommentRows (rowsOfComments b.leadingComments)
  body : ∃ ws gap, ReadsBody b.rawBody ws gap
  empty : Text.trim b.rawBody = [] → b.body = .empty

end Block

theorem newline_of_isBlankText {ws : List Lexeme} {after gap : Text} (h : AllFit ws after)
    (hb : Text.isBlankText (textOf ws gap)) : ∀ w ∈ ws, w.kind = .newline := by
  induction ws with
  | nil => nofun
  | cons w ws ih =>
    obtain ⟨-, hf, hws⟩ := h
    intro v hv
    obtain rfl | hv := List.mem_cons.mp hv
    · by_contra hk
      obtain ⟨c, t, ht, hc⟩ := fits_head_notBlank hf hk
      rw [hb c (by rw [textOf_cons, ht]; simp)] at hc
      cases hc
    · refine ih hws (fun c hc => hb c ?_) v hv
      rw [textOf_cons]
      simp [hc]

/-- A body of line breaks only is empty. -/
theorem Body.read_newlines {source : Source} {c : Cursor} {ts after : List Token} {closing : Token}
    (hc : c.rest = ts ++ closing :: after) (hts : ∀ t ∈ ts, t.kind = .newline)
    (hclosing : closing.kind = .rbrace) {s : Tail Body c} (hs : read source c = .ok s) :
    s.value = .empty := by
  have hview : c.skipNewlines.view .significant = closing :: after := by
    change c.rest.dropWhile _ = _
    rw [hc]
    exact Comparison.dropWhile_newlines hts after (by rw [hclosing]; decide)
  rw [read, Cursor.peek_of_view source hview, if_pos hclosing] at hs
  cases hs
  rfl

theorem eq_of_range {text a b c : Text} (h : text = a ++ (b ++ c)) :
    Block.rawBodyAt text (a.length : Nat) ((a ++ b).length : Nat) = b := by
  have hlength : (a ++ b).length ≤ text.length := by
    rw [h, ← List.append_assoc, @List.length_append _ (a ++ b)]
    omega
  have hle : a.length ≤ (a ++ b).length := by
    rw [List.length_append]
    omega
  rw [Block.rawBodyAt, if_pos ⟨by omega, by omega, by omega⟩, Int.toNat_natCast, Int.toNat_natCast, h,
    ← List.append_assoc, slice_between]

theorem checkLabels_ok {name : Token} {labels : List Text} {c : Cursor} {t : Tail Unit c} {count : Nat}
    (h : ParsedFile.checkLabels name labels c = .ok t)
    (hcount : Block.labelCounts.lookup name.text = some count) : labels.length = count := by
  unfold ParsedFile.checkLabels at h
  rw [hcount] at h
  dsimp only at h
  split at h
  · next hlength => exact hlength
  · cases h

/-! ## What is read -/

/-- What reading makes of a text, block by block. -/
inductive ParsedFile.Reads (source : Source) (file : Text) (keepSource : Bool) :
    Cursor → Nat → List Block → Prop
  | done {c previousEnd} : Reads source file keepSource c previousEnd []
  | leftOut {c next : Cursor} {previousEnd blocks} : next.rest <:+ c.rest →
      Reads source file keepSource next previousEnd blocks →
      Reads source file keepSource c previousEnd blocks
  | block {c : Cursor} {previousEnd : Nat} {name : Step Token c.skipNewlines}
      {labels : Tail (List Text) name.next} {header : Tail Unit labels.next}
      {opening : Step Token header.next} {body : Tail Body opening.next}
      {closing : Step Token body.next} {more : List Block} :
      c.skipNewlines.expect source .significant .ident = .ok name →
      Body.readLabels source name.next = .ok labels →
      checkLabels name.value labels.value labels.next = .ok header →
      header.next.expect source .significant .lbrace = .ok opening →
      Body.read source opening.next = .ok body →
      body.next.expect source .significant .rbrace = .ok closing →
      Reads source file keepSource closing.next closing.value.stop more →
      Reads source file keepSource c previousEnd
        ({ type := name.value.text
           labels := labels.value
           body := body.value
           rawBody :=
             if keepSource then
               Block.rawBodyAt source.text opening.value.stop closing.value.start.offset
             else []
           leadingComments :=
             if keepSource then
               Block.leadingCommentsAt source.text name.value.start.offset previousEnd
             else []
           file := file } :: more)

theorem ParsedFile.reads_of_readBlocks {source : Source} {file : Text} {keepSource : Bool} :
    ∀ {c : Cursor} {previousEnd : Nat} {blocks : List Block} {events : List ParseEvent},
      readBlocks source file keepSource previousEnd c = .ok (blocks, events) →
      Reads source file keepSource c previousEnd blocks := by
  intro c
  induction hn : c.rest.length using Nat.strongRecOn generalizing c with
  | ind n ih =>
    subst hn
    intro previousEnd blocks events hs
    have hshort := c.skipNewlines_length_le
    rw [readBlocks] at hs
    split at hs
    · cases hs
      exact .done
    · obtain ⟨name, hname, hs⟩ := Reading.bind_ok hs
      have h₁ := name.shorter
      dsimp only at hs
      split at hs
      · next equal hequal =>
        obtain ⟨value, hvalue, hs⟩ := Reading.bind_ok hs
        obtain ⟨⟨⟩, hitem, hs⟩ := Reading.bind_ok hs
        have h₂ := equal.shorter
        have h₃ := value.shorter
        refine .leftOut ?_ (ih value.next.rest.length (by omega)
          (c := value.next.record (.skippedAttribute name.value.text name.value.start.line)) rfl hs)
        exact value.suffix.trans (equal.suffix.trans (name.suffix.trans (c.view_suffix .ignored)))
      · obtain ⟨labels, hlabels, hs⟩ := Reading.bind_ok hs
        obtain ⟨header, hheader, hs⟩ := Reading.bind_ok hs
        obtain ⟨opening, hopening, hs⟩ := Reading.bind_ok hs
        obtain ⟨body, hbody, hs⟩ := Reading.bind_ok hs
        obtain ⟨closing, hclosing, hs⟩ := Reading.bind_ok hs
        obtain ⟨⟨⟩, hitem, hs⟩ := Reading.bind_ok hs
        obtain ⟨⟨more, later⟩, hmore, hs⟩ := Reading.bind_ok hs
        have h₂ := labels.notLonger
        have h₃ := header.notLonger
        have h₄ := opening.shorter
        have h₅ := body.notLonger
        have h₆ := closing.shorter
        cases hs
        exact .block hname hlabels hheader hopening hbody hclosing
          (ih closing.next.rest.length (by omega) rfl hmore)

/-- The blocks of a file are read from its tokens. -/
theorem ParsedFile.reads_of_ofText {file text : Text} {keepSource : Bool} {parsed : ParsedFile}
    {events : List ParseEvent} (h : ofText file keepSource text = .ok (parsed, events)) :
    ∃ stream, TokenStream.ofText text = .ok stream ∧
      Reads ⟨text, stream.endToken⟩ file keepSource (.ofTokens stream.tokens) 0 parsed.blocks := by
  unfold ofText at h
  split at h
  · cases h
  · next stream hstream =>
    obtain ⟨⟨blocks, events'⟩, hblocks, h⟩ := Reading.bind_ok h
    cases h
    exact ⟨stream, hstream, reads_of_readBlocks hblocks⟩

/-- The braces of a block and the body between them, among the tokens of its file. -/
theorem ParsedFile.Reads.exists_braces {source : Source} {file : Text} {keepSource : Bool} {c : Cursor}
    {previousEnd : Nat} {blocks : List Block} {ts : List Token}
    (h : Reads source file keepSource c previousEnd blocks) (hc : c.rest <:+ ts) {b : Block}
    (hb : b ∈ blocks) :
    ∃ (d : Cursor) (opening : Step Token d) (body : Tail Body opening.next)
      (closing : Step Token body.next), d.rest <:+ ts ∧
      d.expect source .significant .lbrace = .ok opening ∧
      Body.read source opening.next = .ok body ∧
      body.next.expect source .significant .rbrace = .ok closing ∧ b.body = body.value ∧
      (keepSource = true →
        b.rawBody = Block.rawBodyAt source.text opening.value.stop closing.value.start.offset) := by
  induction h with
  | done => cases hb
  | leftOut hsuffix _ ih => exact ih (hsuffix.trans hc) hb
  | @block c previousEnd name labels header opening body closing more hname hlabels hheader hopening
      hbody hclosing hmore ih =>
    have hskip : c.skipNewlines.rest <:+ ts := (c.view_suffix .ignored).trans hc
    have hheaderRest := header.suffix.trans (labels.suffix.trans (name.suffix.trans hskip))
    obtain rfl | hb := List.mem_cons.mp hb
    · exact ⟨_, opening, body, closing, hheaderRest, hopening, hbody, hclosing, rfl,
        fun hkeep => if_pos hkeep⟩
    · exact ih (closing.suffix.trans (body.suffix.trans (opening.suffix.trans hheaderRest))) hb

section File

variable {source : Source} {ws : List Lexeme} {tail : Text}

/-- The text between the braces of a block, and what is read off it. -/
theorem exists_between (htext : source.text = textOf ws tail) (hfit : AllFit ws tail)
    {c : Cursor} (hc : c.rest <:+ codeAt Position.start ws)
    {opening : Step Token c} (hopening : c.expect source .significant .lbrace = .ok opening)
    {body : Tail Body opening.next} {closing : Step Token body.next}
    (hclosing : body.next.expect source .significant .rbrace = .ok closing) :
    ∃ before us gap behind, source.text = before ++ (textOf us gap ++ behind) ∧
      Block.rawBodyAt source.text opening.value.stop closing.value.start.offset = textOf us gap ∧
      AllFit us (gap ++ ['}']) ∧ isGap gap ∧
      opening.next.rest =
        codeAt (Position.start.after before) us ++ closing.value :: closing.next.rest := by
  have hopen : c.rest = opening.value :: opening.next.rest :=
    (Cursor.view_of_takeIf? (Cursor.expect_ok hopening)).1
  obtain ⟨hclose, hkind⟩ := Cursor.view_of_takeIf? (Cursor.expect_ok hclosing)
  change body.next.rest = closing.value :: closing.next.rest at hclose
  rw [hopen] at hc
  obtain ⟨us₁, w₁, vs₁, rfl, hvalue, hrest⟩ := exists_of_suffix hc
  have hsuffix := body.suffix
  rw [hclose, hrest] at hsuffix
  obtain ⟨us₂, w₂, vs₂, rfl, hvalue', hrest'⟩ := exists_of_suffix hsuffix
  have hbrace : w₂.kind = .rbrace := by
    rw [hvalue'] at hkind
    exact of_decide_eq_true hkind
  have hsplit : us₁ ++ w₁ :: (us₂ ++ w₂ :: vs₂) = (us₁ ++ [w₁]) ++ (us₂ ++ w₂ :: vs₂) := by simp
  rw [hsplit] at htext hfit
  obtain ⟨hfit₂, -, hfits, -⟩ := allFit_append.mp (allFit_append.mp hfit).2
  rw [hbrace] at hfits
  have hword := fits_mark (d := '}') rfl hfits
  have hsource : source.text =
      textOf (us₁ ++ [w₁]) [] ++ (textOf us₂ w₂.gap ++ ('}' :: textOf vs₂ tail)) := by
    rw [htext, textOf_append, textOf_eq_append (us₁ ++ [w₁]), textOf_append_cons us₂, hword]
    rfl
  refine ⟨textOf (us₁ ++ [w₁]) [], us₂, w₂.gap, '}' :: textOf vs₂ tail, hsource, ?_, ?_,
    isGap_of_allFit hfit w₂ (by simp), ?_⟩
  · have hstop : opening.value.stop = (textOf (us₁ ++ [w₁]) []).length := by
      rw [hvalue]
      exact stop_concat [] us₁ w₁
    have hstart : closing.value.start.offset =
        (textOf (us₁ ++ [w₁]) [] ++ textOf us₂ w₂.gap).length := by
      rw [hvalue']
      change ((Position.start.after _).after _).offset = _
      rw [← Position.after_append, start_after_offset]
    rw [hstop, hstart]
    exact eq_of_range hsource
  · refine allFit_tailChange hfit₂ ?_
    have hafter : textOf (w₂ :: vs₂) tail = (w₂.gap ++ ['}']) ++ textOf vs₂ tail := by
      rw [textOf_cons, hword, List.append_assoc]
    rw [hafter]
    exact tailChange_append _ _
  · rw [hrest, codeAt_append_cons _ _ _ (by rw [hbrace]; decide), hvalue', hrest']

/-- The text between the braces of a block reads as its body. -/
theorem readsBody_between (htext : source.text = textOf ws tail) (hfit : AllFit ws tail)
    {c : Cursor} (hc : c.rest <:+ codeAt Position.start ws)
    {opening : Step Token c} (hopening : c.expect source .significant .lbrace = .ok opening)
    {body : Tail Body opening.next} (hbody : Body.read source opening.next = .ok body)
    {closing : Step Token body.next}
    (hclosing : body.next.expect source .significant .rbrace = .ok closing) :
    ∃ us gap, ReadsBody (Block.rawBodyAt source.text opening.value.stop closing.value.start.offset)
      us gap ∧
      (Text.trim (Block.rawBodyAt source.text opening.value.stop closing.value.start.offset) = [] →
        body.value = .empty) := by
  obtain ⟨before, us, gap, behind, -, hraw, hfits, hgap, hcode⟩ :=
    exists_between htext hfit hc hopening hclosing
  obtain ⟨hclose, hkind⟩ := Cursor.view_of_takeIf? (Cursor.expect_ok hclosing)
  have hfit' : AllFit us gap := allFit_tailChange hfits (tailChange_append gap ['}'])
  rw [hraw]
  refine ⟨us, gap, ⟨rfl, hfit', hgap, source, _, body, _, _, _, hcode, of_decide_eq_true hkind, hbody,
    hclose⟩, fun hblank => ?_⟩
  rw [Text.trim_eq_nil_iff] at hblank
  exact Body.read_newlines hcode (fun t ht =>
    tokensAt_kind (q := (· = .newline)) (newline_of_isBlankText hfit' hblank) t
      (List.mem_of_mem_filter ht))
    (of_decide_eq_true hkind) hbody

/-- The blocks that are read are sound. -/
theorem sound_of_reads (htext : source.text = textOf ws tail) (hfit : AllFit ws tail) {file : Text}
    {c : Cursor} {previousEnd : Nat} {blocks : List Block}
    (h : ParsedFile.Reads source file true c previousEnd blocks) (hc : c.rest <:+ codeAt Position.start ws) :
    ∀ b ∈ blocks, b.Sound := by
  induction h with
  | done => exact List.forall_mem_nil _
  | leftOut hsuffix _ ih => exact ih (hsuffix.trans hc)
  | @block c previousEnd name labels header opening body closing more hname hlabels hheader hopening
      hbody hclosing hmore ih =>
    have hskip : c.skipNewlines.rest <:+ codeAt Position.start ws := (c.view_suffix .ignored).trans hc
    have hheaderRest := header.suffix.trans (labels.suffix.trans (name.suffix.trans hskip))
    have hclosingRest := closing.suffix.trans (body.suffix.trans (opening.suffix.trans hheaderRest))
    obtain ⟨us, gap, hreads, hempty⟩ := readsBody_between htext hfit hheaderRest hopening hbody hclosing
    refine List.forall_mem_cons.mpr ⟨⟨?_, fun count hcount => checkLabels_ok hheader hcount,
      Block.isCommentRows_leadingCommentsAt _ _ _, ⟨us, gap, hreads⟩, hempty⟩, ih hclosingRest⟩
    obtain ⟨hview, hkind⟩ := Cursor.view_of_takeIf? (Cursor.expect_ok hname)
    change c.skipNewlines.rest = name.value :: name.next.rest at hview
    rw [hview] at hskip
    obtain ⟨us, w, vs, rfl, hvalue, -⟩ := exists_of_suffix hskip
    obtain ⟨after, hf⟩ := fits_of_mem hfit w (by simp)
    rw [hvalue] at hkind ⊢
    have hident : w.kind = .ident := of_decide_eq_true hkind
    rw [hident] at hf
    exact ⟨after, hf⟩

end File

/-- The blocks of a file are sound. -/
theorem sound_of_ofText {file text : Text} {parsed : ParsedFile} {events : List ParseEvent}
    (h : ParsedFile.ofText file true text = .ok (parsed, events)) : ∀ b ∈ parsed.blocks, b.Sound := by
  obtain ⟨stream, hstream, hreads⟩ := ParsedFile.reads_of_ofText h
  obtain ⟨ws, tail, rfl, hfit, -, rfl⟩ := exists_lexemes hstream
  exact sound_of_reads rfl hfit hreads (List.suffix_refl _)

end HclTidy
