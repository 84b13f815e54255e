import HclTidy.Proofs.Block.ReadBack

/-!
# Labels in headers

A header with its opening brace is read as the block's type, one string for each label, and the
brace, whatever characters the labels hold; and the strings are read as the labels.
-/

set_option autoImplicit false

namespace HclTidy

open Token Layout

namespace Block

/-- The lexemes of a header and its opening brace. -/
def openLexemes (type : Text) (labels : List Text) : List Lexeme :=
  ⟨[], .ident, type⟩ :: (labels.map labelLexeme ++ [openingLexeme])

theorem headerLexemes_eq (type : Text) (labels : List Text) :
    headerLexemes type labels = openLexemes type labels ++ [lineFeed []] := by
  simp [headerLexemes, openLexemes]

theorem textOf_openLexemes (type : Text) (labels : List Text) :
    textOf (openLexemes type labels) [] = header type labels ++ [' ', '{'] := by
  rw [header_eq, openLexemes, textOf_cons, textOf_append, textOf_labelLexemes, List.append_assoc]
  rfl

theorem allFit_openLexemes {type : Text} (htype : ∃ after, Fits .ident type after)
    (labels : List Text) : AllFit (openLexemes type labels) [] := by
  have hfit := allFit_headerLexemes htype labels []
  rw [headerLexemes_eq] at hfit
  exact allFit_tailChange (allFit_append.mp hfit).1 ⟨meets_of_stops _ stops_nil, fun _ => endsLine_nil⟩

theorem tokensAt_openLexemes (type : Text) (labels : List Text) (p : Position) :
    ∃ first inner last, tokensAt p (openLexemes type labels) =
      ⟨.ident, type, first⟩ ::
        (tokensAt inner (labels.map labelLexeme) ++ [⟨.lbrace, ['{'], last⟩]) := by
  rw [openLexemes, tokensAt, tokensAt_append]
  exact ⟨_, _, _, rfl⟩

theorem isLabel_tokensAt (labels : List Text) (p : Position) :
    List.Forall₂ IsLabel labels (tokensAt p (labels.map labelLexeme)) := by
  induction labels generalizing p with
  | nil => exact .nil
  | cons label labels ih => exact .cons ⟨rfl, rfl⟩ (ih _)

/-- The tokens of a header with its opening brace, and what is read from the strings among them,
whatever stands behind the brace. -/
structure ReadsHeader (type : Text) (labels : List Text) (name : Token) (strings : List Token)
    (brace : Token) : Prop where
  isName : name.kind = .ident ∧ name.text = type
  count : strings.length = labels.length
  areStrings : ∀ t ∈ strings, t.kind = .string
  isBrace : brace.kind = .lbrace ∧ brace.text = ['{']
  reads : ∀ (source : Source) (c : Cursor) (behind : List Token), c.rest = strings ++ brace :: behind →
    ∃ s, Body.readLabels source c = .ok s ∧ s.value = labels ∧ s.next.rest = brace :: behind

theorem readsHeader_of_isLabel {type : Text} {labels : List Text} {name : Token} {ts : List Token}
    {brace : Token} (hname : name.kind = .ident ∧ name.text = type)
    (h : List.Forall₂ IsLabel labels ts) (hbrace : brace.kind = .lbrace ∧ brace.text = ['{']) :
    ReadsHeader type labels name ts brace := by
  refine ⟨hname, h.length_eq.symm, ?_, hbrace, fun source c behind hc =>
    readLabels_tokens h hbrace.1 hc⟩
  induction h with
  | nil => exact List.forall_mem_nil _
  | cons ht _ ih => exact List.forall_mem_cons.mpr ⟨ht.kind, ih⟩

/-- Every list of labels survives being written in a header and read again, and so does every text
that is encoded and decoded. -/
theorem exists_readsHeader {text : Text} {stream : TokenStream} {t : Token}
    (h : TokenStream.ofText text = .ok stream) (ht : t ∈ stream.tokens) (hident : t.kind = .ident)
    (labels : List Text) :
    (∃ name strings brace ending,
      TokenStream.ofText (header t.text labels ++ [' ', '{']) =
        .ok ⟨name :: (strings ++ [brace]), ending⟩ ∧
      ReadsHeader t.text labels name strings brace) ∧
    ∀ s, Escape.decode (Escape.encode s) = .ok s := by
  refine ⟨?_, Escape.decode_encode⟩
  obtain ⟨ws, tail, rfl, hfit, -, rfl⟩ := exists_lexemes h
  have htype : ∃ after, Fits .ident t.text after := by
    obtain ⟨after, hf⟩ := fits_of_mem_tokensAt hfit t ht
    rw [hident] at hf
    exact ⟨after, hf⟩
  have hopen := allFit_openLexemes htype labels
  obtain ⟨first, inner, last, htokens⟩ := tokensAt_openLexemes t.text labels Position.start
  have hread := readAll_textOf hopen nofun Position.start
  rw [htokens, textOf_openLexemes] at hread
  exact ⟨_, _, _, _, hread,
    readsHeader_of_isLabel ⟨rfl, rfl⟩ (isLabel_tokensAt labels inner) ⟨rfl, rfl⟩⟩

/-- Labels of quotes, backslashes, line breaks and markers, plain and doubled. -/
theorem exists_readsHeader_markers :
    let labels := ["\x7b\"\\".toList, "$\x7b$$\x7b%\x7b%$\x7b".toList, "\n\r\t".toList, []]
    ∃ stream t, TokenStream.ofText "a-b \x7b\x7d".toList = .ok stream ∧ t ∈ stream.tokens ∧
      t.kind = .ident ∧ t.text = "a-b".toList ∧
      (∃ name strings brace ending,
        TokenStream.ofText (header t.text labels ++ [' ', '{']) =
          .ok ⟨name :: (strings ++ [brace]), ending⟩ ∧
        ReadsHeader t.text labels name strings brace) ∧
      ∀ s, Escape.decode (Escape.encode s) = .ok s := by
  intro labels
  have hstream : TokenStream.ofText "a-b \x7b\x7d".toList = .ok
      ⟨[⟨.ident, "a-b".toList, ⟨0, 1, 1⟩⟩, ⟨.lbrace, ['{'], ⟨4, 1, 5⟩⟩, ⟨.rbrace, ['}'], ⟨5, 1, 6⟩⟩],
        ⟨6, 1, 7⟩⟩ := by decide +kernel
  exact ⟨_, _, hstream, List.mem_cons_self .., rfl, rfl,
    exists_readsHeader hstream (List.mem_cons_self ..) rfl labels⟩

end Block

end HclTidy
