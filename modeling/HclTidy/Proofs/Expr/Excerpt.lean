import HclTidy.Proofs.Expr.Simulation
import HclTidy.Proofs.Token.Tiling

/-!
# Excerpts

The text from the first to the last token of an expression reads as the expression. The tokens of
the excerpt are those of the expression, as far from each other as they were. Line breaks are layout
throughout, which changes nothing, since the expression did not stop at any of them; and where it
ended, nothing is left that reading could go on with.
-/

set_option autoImplicit false

namespace HclTidy

open Token

/-! ## The same text at two places -/

namespace Text

/-- Offsets of one place of `mid`, which stands behind `before` and behind `before'`. -/
def SamePlace (before before' mid : Text) (a a' : Nat) : Prop :=
  ∃ n ≤ mid.length, a = before.length + n ∧ a' = before'.length + n

theorem slice_inside (before mid behind : Text) {n m : Nat} (hm : m ≤ mid.length) :
    slice (before ++ (mid ++ behind)) (before.length + n) (before.length + m) = slice mid n m := by
  rw [slice, slice, List.drop_length_add_append, Nat.add_sub_add_left]
  by_cases hn : n ≤ m
  · rw [List.drop_append_of_le_length (hn.trans hm), List.take_append_of_le_length]
    rw [List.length_drop]
    omega
  · rw [Nat.sub_eq_zero_of_le (by omega), List.take_zero, List.take_zero]

end Text

namespace Comparison

variable {f : Comparison} {source source' : Source} {before before' mid behind behind' : Text}

theorem sources_of_samePlace (hplace : f.place = Text.SamePlace before before' mid)
    (htext : source.text = before ++ (mid ++ behind))
    (htext' : source'.text = before' ++ (mid ++ behind'))
    (hend : source'.endToken.kind = .endOfText) : f.Sources source source' := by
  refine ⟨hend, fun _ a a' b b' ha hb => ?_⟩
  rw [hplace] at ha hb
  obtain ⟨n, -, rfl, rfl⟩ := ha
  obtain ⟨m, hm, rfl, rfl⟩ := hb
  rw [htext, htext', Text.slice_inside before mid behind hm, Text.slice_inside before' mid behind' hm]

/-- The tokens of the same lexemes in two texts. -/
theorem alike_samePlace (hplace : f.place = Text.SamePlace before before' mid)
    (hshift : f.shift = (Position.start.after before').line)
    (hshift' : f.shift' = (Position.start.after before).line) {ws : List Lexeme}
    (hws : (textOf ws []).length ≤ mid.length) {ts ts' : List Token} (hts : f.Alike ts ts') :
    f.Alike (codeAt (Position.start.after before) ws ++ ts)
      (codeAt (Position.start.after before') ws ++ ts') := by
  refine alike_codeAt_self hts ws ?_ fun n hn => ?_
  · rw [hshift, hshift', Nat.add_comm]
  · rw [hplace, start_after_offset, start_after_offset]
    exact ⟨n, hn.trans hws, rfl, rfl⟩

/-- What is read is compared with the same tokens at the end of a text. -/
def excerpt (rest : List Token) (shift shift' : Nat) (exact : Prop) (place : Nat → Nat → Prop) :
    Comparison where
  Ended := (· = rest)
  Ended' := (· = [])
  behind := rest.length
  shift := shift
  shift' := shift'
  exact := exact
  place := place
  behind_le h := (congrArg List.length h).ge
  taken := by
    intro ts t us h heq
    have hsuffix := List.dropWhile_suffix (l := ts) (Token.isKind .newline)
    rw [heq, h] at hsuffix
    exact hsuffix.length_le
  closes' := by
    rintro _ t us rfl heq
    cases heq

/-- Behind what is read, nothing is left of an excerpt. -/
theorem eq_nil_of_alike_excerpt {rest ts' : List Token} {shift shift' : Nat} {exact : Prop}
    {place : Nat → Nat → Prop} (h : (excerpt rest shift shift' exact place).Alike rest ts') :
    ts' = [] := by
  cases h with
  | ended _ hts' => exact hts'
  | cons _ hrest =>
    have hle := alike_length hrest
    change _ + 1 ≤ _ at hle
    omega

/-- The same tokens, where the second side stands behind the line breaks. -/
theorem ahead_of_alike_view {mode : LineMode} {c c' : Cursor} (h : f.Alike (c.view mode) c'.rest) :
    f.Ahead mode .ignored c c' := by
  intro t us hview hn hlen
  rw [hview] at h
  have hnext := next_dropWhile h
  rw [dropWhile_cons hn] at hnext
  change ∃ t' us', c'.rest.dropWhile _ = t' :: us' ∧ _
  generalize c'.rest.dropWhile (Token.isKind .newline) = ts' at hnext ⊢
  cases hnext with
  | same hsame hrest => exact ⟨_, _, rfl, hsame, hrest⟩
  | ended hstop _ =>
    obtain hk | hlt := hstop t us rfl
    · exact absurd hk hn
    · omega

theorem alike_append_self {us ts ts' : List Token} (hx : ¬ f.exact) (hshift : f.shift = f.shift')
    (hts : f.Alike ts ts') : f.Alike (us ++ ts) (us ++ ts') := by
  induction us with
  | nil => exact hts
  | cons u us ih =>
    exact .cons ⟨rfl, fun _ _ => rfl, fun _ _ => rfl, by rw [hshift], fun h => absurd h hx⟩ ih

end Comparison

namespace Expr

variable {source : Source} {mode : LineMode} {c : Cursor}

/-! ## The last token -/

/-- The cursor behind an expression stands behind its last token. -/
theorem passed_of_read {s : Step Expr c} (hs : read source mode c = .ok s) :
    ∃ t, s.next.stop = t.stop ∧ t :: s.next.rest <:+ c.view mode := by
  obtain ⟨first, hfirst, -, hsuffix⟩ := begins_read hs
  have hview := Cursor.view_of_take? hfirst
  obtain ⟨us, hus⟩ := hsuffix
  -- the tokens of the expression alone are read alike, which tells the last one
  let f : Comparison := .excerpt s.next.rest 0 0 False fun _ _ => True
  let alone : Cursor := ⟨first.value :: us, 0, []⟩
  have halike : f.Alike (c.view mode) alone.rest := by
    rw [hview, ← hus, ← List.cons_append, ← List.append_nil alone.rest]
    exact Comparison.alike_append_self (f := f) id rfl (.ended rfl rfl)
  have hsources : f.Sources source ⟨[], ⟨.endOfText, [], Position.start⟩⟩ := ⟨rfl, False.elim⟩
  obtain ⟨s', -, hstep⟩ := stepsAlike_read hsources (.inr rfl)
    (Comparison.ahead_of_alike_view halike) s hs (Nat.le_refl _) (.inr (.inl rfl))
  obtain ⟨t, t', -, ⟨hstop, hpassed⟩, -⟩ := hstep.last
  refine ⟨t, hstop, List.suffix_of_suffix_length_le hpassed (c.view_suffix mode) ?_⟩
  rw [hview, List.length_cons, List.length_cons, ← hus, List.length_append]
  omega

/-! ## Reading an excerpt -/

section Excerpt

variable {ws : List Lexeme} {tail : Text}

/-- The tokens of an expression are those of a piece of the text. -/
theorem exists_piece_of_read (htext : source.text = textOf ws tail) (hfit : AllFit ws tail)
    (hc : c.rest <:+ codeAt Position.start ws) {s : Step Expr c}
    (hs : read source mode c = .ok s) :
    ∃ before mid behind, source.text = before ++ (textOf mid [] ++ behind) ∧ AllFit mid [] ∧
      c.view mode = codeAt (Position.start.after before) mid ++ s.next.rest ∧
      s.next.sourceFrom source (c.peek source mode).start.offset = textOf mid [] := by
  obtain ⟨first, hfirst, -, -⟩ := begins_read hs
  have hview := Cursor.view_of_take? hfirst
  have hcode := (c.view_suffix mode).trans hc
  rw [hview] at hcode
  obtain ⟨us, w, vs, rfl, hvalue, hnext⟩ := exists_of_suffix hcode
  have hw : w.kind ≠ .comment := by
    have hk := kind_of_mem_codeAt (hcode.subset (List.mem_cons_self ..))
    rwa [hvalue] at hk
  -- the lexemes from the first token on, the first one without its gap
  have hlater : c.view mode =
      codeAt (Position.start.after (textOf us w.gap)) (⟨[], w.kind, w.text⟩ :: vs) := by
    rw [hview, hvalue, hnext, textOf_append_cons, textOf_nil, List.append_nil, Position.after_append]
    exact (codeAt_cons _ (w := ⟨[], w.kind, w.text⟩) vs hw).symm
  have hfitLater : AllFit (⟨[], w.kind, w.text⟩ :: vs) tail := by
    obtain ⟨-, -, hfits⟩ := allFit_append.mp hfit
    exact ⟨List.forall_mem_nil _, hfits⟩
  -- the lexemes up to the last token
  obtain ⟨t, hstop, hlast⟩ := passed_of_read hs
  rw [hlater] at hlast
  obtain ⟨us₂, w₂, vs₂, hsplit, rfl, hrest⟩ := exists_of_suffix hlast
  have hmid : (⟨[], w.kind, w.text⟩ : Lexeme) :: vs = (us₂ ++ [w₂]) ++ vs₂ := by
    rw [hsplit, List.append_assoc, List.singleton_append]
  have hsource : source.text = textOf us w.gap ++ (textOf (us₂ ++ [w₂]) [] ++ textOf vs₂ tail) := by
    rw [htext, textOf_append_cons, ← textOf_eq_append, ← textOf_append, ← hmid]
    rfl
  refine ⟨textOf us w.gap, us₂ ++ [w₂], textOf vs₂ tail, hsource, ?_, ?_, ?_⟩
  · rw [hmid] at hfitLater
    exact allFit_tailChange (allFit_append.mp hfitLater).1 (tailChange_append [] _)
  · rw [hlater, hmid, codeAt_append, hrest]
  · rw [Cursor.sourceFrom, hstop, stop_concat, Cursor.peek_of_view source hview, hvalue, hsource,
      ← List.append_assoc]
    change Text.slice _ (Position.start.after (textOf us w.gap)).offset _ = _
    rw [start_after_offset, slice_between]

/-- The text from the first to the last token of an expression reads as the expression. -/
theorem ofText_excerpt (htext : source.text = textOf ws tail) (hfit : AllFit ws tail)
    (hc : c.rest <:+ codeAt Position.start ws) {s : Step Expr c}
    (hs : read source mode c = .ok s) :
    s.next.sourceFrom source (c.peek source mode).start.offset <:+: source.text ∧
      ∃ events, ofText (s.next.sourceFrom source (c.peek source mode).start.offset) =
        .ok (s.value, events) := by
  obtain ⟨before, mid, behind, hpiece, hmid, hview, hslice⟩ := exists_piece_of_read htext hfit hc hs
  rw [hslice]
  refine ⟨⟨before, behind, by rw [hpiece, List.append_assoc]⟩, ?_⟩
  let tokens := tokensAt Position.start mid
  let alone : Source := ⟨textOf mid [],
    TokenStream.endToken ⟨tokens, Position.start.after (textOf mid [])⟩⟩
  let f : Comparison := .excerpt s.next.rest (Position.start.after []).line
    (Position.start.after before).line True (Text.SamePlace before [] (textOf mid []))
  have hsources : f.Sources source alone :=
    Comparison.sources_of_samePlace rfl hpiece
      (show alone.text = [] ++ (textOf mid [] ++ []) from (List.append_nil _).symm) rfl
  have halike : f.Alike (c.view mode) (Cursor.ofTokens tokens).rest := by
    rw [hview, ← List.append_nil (Cursor.ofTokens tokens).rest]
    exact Comparison.alike_samePlace (f := f) rfl rfl rfl (Nat.le_refl _) (.ended rfl rfl)
  obtain ⟨s', hs', hstep⟩ := stepsAlike_read hsources (.inr rfl)
    (Comparison.ahead_of_alike_view halike) s hs (Nat.le_refl _) (.inr (.inl rfl))
  have hend : s'.next.rest = [] := Comparison.eq_nil_of_alike_excerpt hstep.rest
  have hpeek : (s'.next.peek alone .ignored).kind = .endOfText := by
    rw [Cursor.peek, Cursor.view, hend]
    rfl
  refine ⟨s'.next.events, ?_⟩
  unfold ofText TokenStream.ofText
  rw [readAll_textOf hmid (List.forall_mem_nil _)]
  change (read alone .ignored (.ofTokens tokens) >>= _) = _
  rw [hs', ← hstep.value trivial]
  exact if_pos hpeek

end Excerpt

end Expr

end HclTidy
