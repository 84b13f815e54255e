import HclTidy.Proofs.Token.Places

/-!
# Tokens and the text they cover

Every token is a piece of the text, the pieces come one behind the other, and what is left out
between them is layout. The line and the column of a token are those of its offset in the text.
-/

set_option autoImplicit false

namespace HclTidy

namespace Text

/-- The offset just behind the last line feed of a text, 0 when it has none. -/
def lineStart (t : Text) : Nat := (t.rdropWhile (· ≠ '\n')).length

theorem lineStart_le (t : Text) : lineStart t ≤ t.length := (List.rdropWhile_prefix _ _).length_le

theorem lineStart_concat (t : Text) (c : Char) :
    lineStart (t ++ [c]) = if c = '\n' then t.length + 1 else lineStart t := by
  rw [lineStart, List.rdropWhile_concat]
  by_cases hc : c = '\n' <;> simp [hc, lineStart]

end Text

theorem Position.start_after_line (t : Text) : (start.after t).line = 1 + t.count '\n' :=
  after_line start t

theorem Position.start_after_column (t : Text) :
    (start.after t).column = t.length - Text.lineStart t + 1 := by
  induction t using List.reverseRecOn with
  | nil => rfl
  | append_singleton t c ih =>
    have hle := Text.lineStart_le t
    rw [after_append, after_cons, after_nil, step, Text.lineStart_concat, List.length_append,
      List.length_singleton]
    split
    · exact (Nat.sub_self (t.length + 1)).symm ▸ rfl
    · change (start.after t).column + 1 = _
      omega

namespace Token

theorem mem_of_isLayout {c : Char} (h : isLayout c = true) : c ∈ [' ', '\t', '\r', '\uFEFF'] := by
  simpa [isLayout, or_assoc] using h

/-- A token begins at an offset or behind it, with layout only in between. -/
def Joined (text : Text) (n : Nat) (t : Token) : Prop :=
  n ≤ t.start.offset ∧ ∀ c ∈ text.slice n t.start.offset, c ∈ [' ', '\t', '\r', '\uFEFF']

/-- A token stands in a text at the position that the text before it leads to. -/
def StandsIn (text : Text) (t : Token) : Prop :=
  ∃ before after, text = before ++ (t.text ++ after) ∧ t.start = Position.start.after before

variable {text before tail : Text} {t : Token} {ws : List Lexeme}

theorem StandsIn.offset_take (h : t.StandsIn text) :
    t.start = Position.start.after (text.take t.start.offset) := by
  obtain ⟨before, after, rfl, hstart⟩ := h
  rw [hstart, start_after_offset, List.take_left]

theorem StandsIn.stop_le (h : t.StandsIn text) : t.stop ≤ text.length := by
  obtain ⟨before, after, rfl, hstart⟩ := h
  rw [stop, hstart, start_after_offset, List.length_append, List.length_append]
  omega

/-- The text of a token is the text between its ends. -/
theorem StandsIn.text_eq_slice (h : t.StandsIn text) : t.text = text.slice t.start.offset t.stop := by
  obtain ⟨before, after, rfl, hstart⟩ := h
  have hslice := slice_between before t.text after
  rw [List.append_assoc, List.length_append] at hslice
  rw [stop, hstart, start_after_offset, hslice]

theorem StandsIn.line (h : t.StandsIn text) :
    t.start.line = 1 + (text.take t.start.offset).count '\n' := by
  conv_lhs => rw [h.offset_take]
  exact Position.start_after_line _

theorem StandsIn.column (h : t.StandsIn text) :
    t.start.column = t.start.offset - Text.lineStart (text.take t.start.offset) + 1 := by
  have hoffset : (text.take t.start.offset).length = t.start.offset := by
    conv_rhs => rw [h.offset_take]
    exact (start_after_offset _).symm
  conv_lhs => rw [h.offset_take]
  rw [Position.start_after_column, hoffset]

/-- The tokens of lexemes stand in the text of the lexemes. -/
theorem standsIn_of_mem_tokensAt (before tail : Text) (h : t ∈ tokensAt (Position.start.after before) ws) :
    t.StandsIn (before ++ textOf ws tail) := by
  induction ws generalizing before with
  | nil => cases h
  | cons w ws ih =>
    rw [tokensAt, List.mem_cons, ← Position.after_append, ← Position.after_append] at h
    rw [textOf_cons]
    obtain rfl | h := h
    · exact ⟨before ++ w.gap, textOf ws tail, (List.append_assoc _ _ _).symm, rfl⟩
    · simpa only [List.append_assoc] using ih _ h

theorem standsIn_end (text : Text) : StandsIn text ⟨.endOfText, [], Position.start.after text⟩ :=
  ⟨text, [], (List.append_nil _).symm, rfl⟩

theorem joined_gap (before : Text) {gap : Text} (hgap : isGap gap) (kind : Kind) (word rest : Text) :
    Joined (before ++ (gap ++ rest)) before.length
      ⟨kind, word, Position.start.after (before ++ gap)⟩ := by
  rw [Joined, start_after_offset, ← List.append_assoc, slice_between, List.length_append]
  exact ⟨Nat.le_add_right _ _, fun c hc => mem_of_isLayout (hgap c hc)⟩

/-- The tokens of lexemes and the end of the text, behind any token that ends where they begin. -/
theorem isChain_tokensAt {text : Text} (before : Text) (hfit : AllFit ws tail) (htail : isGap tail)
    (htext : text = before ++ textOf ws tail) (ht : t.stop = before.length) :
    (t :: (tokensAt (Position.start.after before) ws ++
      [⟨.endOfText, [], Position.start.after text⟩])).IsChain fun t u => u.Joined text t.stop := by
  induction ws generalizing before t with
  | nil =>
    rw [tokensAt, List.nil_append, List.isChain_pair, ht, htext]
    have hjoined := joined_gap before htail .endOfText [] []
    rwa [List.append_nil] at hjoined
  | cons w ws ih =>
    obtain ⟨hgap, -, hws⟩ := hfit
    rw [textOf_cons] at htext
    rw [tokensAt, ← Position.after_append, ← Position.after_append, List.cons_append,
      List.isChain_cons_cons]
    refine ⟨?_, ih _ hws (by simpa only [List.append_assoc] using htext) ?_⟩
    · rw [ht, htext]
      exact joined_gap before hgap _ _ _
    · rw [stop, start_after_offset, @List.length_append _ (before ++ w.gap)]

end Token

open Token

/-- The tokens cover a text up to its layout, each with its offset, its line and its column. -/
structure TokenStream.Tiles (text : Text) (s : TokenStream) : Prop where
  ordered : s.toList.Pairwise fun t u => t.stop ≤ u.start.offset
  covered : ∀ t ∈ s.tokens, t.text ≠ [] ∧ t.stop ≤ text.length ∧
    t.text = text.slice t.start.offset t.stop
  ahead : ∀ t ∈ s.toList.head?, t.Joined text 0
  between : s.toList.IsChain fun t u => u.Joined text t.stop
  ending : s.endToken.start.offset = text.length ∧ ∀ t ∈ s.tokens, t.kind ≠ .endOfText
  line : ∀ t ∈ s.toList, t.start.line = 1 + (text.take t.start.offset).count '\n'
  column : ∀ t ∈ s.toList,
    t.start.column = t.start.offset - Text.lineStart (text.take t.start.offset) + 1

instance : IsTrans Token fun t u => t.stop ≤ u.start.offset :=
  ⟨fun _ u _ htu huv => htu.trans ((Nat.le_add_right u.start.offset u.text.length).trans huv)⟩

/-- The tokens of a text tile it: they come in order with layout between them, and each has its
place. -/
theorem TokenStream.tiles_of_ofText {text : Text} {stream : TokenStream}
    (h : TokenStream.ofText text = .ok stream) : stream.Tiles text := by
  obtain ⟨ws, tail, htext, hfit, htail, rfl⟩ := exists_lexemes h
  have hchain := isChain_tokensAt [] (t := ⟨.newline, [], Position.start⟩) hfit htail htext rfl
  have hinside : ∀ t ∈ tokensAt Position.start ws, t.StandsIn text := by
    rw [htext]
    exact fun t ht => standsIn_of_mem_tokensAt [] tail ht
  have hstands : ∀ t ∈ tokensAt Position.start ws ++ [⟨.endOfText, [], Position.start.after text⟩],
      t.StandsIn text := by
    rw [List.forall_mem_append, List.forall_mem_singleton]
    exact ⟨hinside, standsIn_end text⟩
  have hfits := fits_of_mem_tokensAt hfit (p := Position.start)
  exact {
    ordered := List.isChain_iff_pairwise.mp (hchain.tail.imp fun _ _ hjoined => hjoined.1)
    covered := fun t ht => by
      obtain ⟨after, hf⟩ := hfits t ht
      obtain ⟨c, u, hcons, -⟩ := fits_head hf
      exact ⟨hcons ▸ List.cons_ne_nil c u, (hinside t ht).stop_le, (hinside t ht).text_eq_slice⟩
    ahead := (List.isChain_cons.mp hchain).1
    between := hchain.tail
    ending := ⟨start_after_offset text, fun t ht => (hfits t ht).elim fun _ hf => fits_not_endOfText hf⟩
    line := fun t ht => (hstands t ht).line
    column := fun t ht => (hstands t ht).column }

/-- A heredoc, a string and a comment that go over lines, a byte order mark and a carriage return. -/
theorem TokenStream.tiles_multiline :
    let text := "\uFEFFa = <<E\n x\nE\r\n/* p\n q */ b=\"$\x7b\n1\x7d\" # c\n".toList
    ∃ stream, TokenStream.ofText text = .ok stream ∧
      stream.tokens.map (fun t => (t.start.line, t.start.column)) =
        [(1, 2), (1, 4), (1, 6), (3, 3), (4, 1), (5, 7), (5, 8), (5, 9), (6, 5), (6, 8)] ∧
      stream.Tiles text := by
  intro text
  have hplaces : (TokenStream.ofText text).toOption.map
      (fun s => s.tokens.map fun t => (t.start.line, t.start.column)) = some
        [(1, 2), (1, 4), (1, 6), (3, 3), (4, 1), (5, 7), (5, 8), (5, 9), (6, 5), (6, 8)] := by
    decide +kernel
  cases h : TokenStream.ofText text with
  | error e =>
    rw [h] at hplaces
    cases hplaces
  | ok stream =>
    rw [h] at hplaces
    exact ⟨stream, rfl, Option.some.inj hplaces, tiles_of_ofText h⟩

end HclTidy
