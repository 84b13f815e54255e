import HclTidy.Proofs.Expr.Alike
import HclTidy.Proofs.Token.Respace

/-!
# Tokens and their places

A reader sees the tokens of lexemes without the comments. What is left of them after some tokens are
the tokens of what is left of the lexemes, and the text between two tokens is that of the lexemes
between them. Lexemes in another layout give token lists that read alike.
-/

set_option autoImplicit false

namespace HclTidy.Token

/-- The tokens of lexemes but for the comments. -/
def codeAt (p : Position) (ws : List Lexeme) : List Token :=
  (tokensAt p ws).filter fun t => t.kind ≠ .comment

theorem codeAt_comment (p : Position) {w : Lexeme} (ws : List Lexeme) (h : w.kind = .comment) :
    codeAt p (w :: ws) = codeAt ((p.after w.gap).after w.text) ws := by
  rw [codeAt, tokensAt, List.filter_cons_of_neg (by simp [h])]
  rfl

theorem codeAt_cons (p : Position) {w : Lexeme} (ws : List Lexeme) (h : w.kind ≠ .comment) :
    codeAt p (w :: ws) =
      ⟨w.kind, w.text, p.after w.gap⟩ :: codeAt ((p.after w.gap).after w.text) ws := by
  rw [codeAt, tokensAt, List.filter_cons_of_pos (by simpa using h)]
  rfl

theorem codeAt_append (p : Position) (us ws : List Lexeme) :
    codeAt p (us ++ ws) = codeAt p us ++ codeAt (p.after (textOf us [])) ws := by
  rw [codeAt, tokensAt_append, List.filter_append]
  rfl

theorem tokensAt_append_cons (p : Position) (us : List Lexeme) (w : Lexeme) (ws : List Lexeme) :
    tokensAt p (us ++ w :: ws) = tokensAt p us ++ ⟨w.kind, w.text, p.after (textOf us w.gap)⟩ ::
      tokensAt (p.after (textOf (us ++ [w]) [])) ws := by
  rw [tokensAt_append, tokensAt, textOf_concat, textOf_eq_append us w.gap,
    textOf_eq_append us (w.gap ++ _)]
  simp only [Position.after_append]
  rfl

theorem codeAt_append_cons (p : Position) (us : List Lexeme) {w : Lexeme} (ws : List Lexeme)
    (h : w.kind ≠ .comment) :
    codeAt p (us ++ w :: ws) = codeAt p us ++ ⟨w.kind, w.text, p.after (textOf us w.gap)⟩ ::
      codeAt (p.after (textOf (us ++ [w]) [])) ws := by
  rw [codeAt, tokensAt_append_cons, List.filter_append, List.filter_cons_of_pos (by simpa using h)]
  rfl

theorem kind_of_mem_codeAt {p : Position} {ws : List Lexeme} {t : Token} (h : t ∈ codeAt p ws) :
    t.kind ≠ .comment := by simpa using (List.mem_filter.mp h).2

/-- What is left from a token on is what is left of the lexemes from its lexeme on. -/
theorem exists_of_suffix {p : Position} {ws : List Lexeme} {t : Token} {ts : List Token}
    (h : t :: ts <:+ codeAt p ws) :
    ∃ us w vs, ws = us ++ w :: vs ∧ t = ⟨w.kind, w.text, p.after (textOf us w.gap)⟩ ∧
      ts = codeAt (p.after (textOf (us ++ [w]) [])) vs := by
  induction ws generalizing p with
  | nil => cases List.eq_nil_of_suffix_nil h
  | cons v ws ih =>
    have hlater (h : t :: ts <:+ codeAt ((p.after v.gap).after v.text) ws) :
        ∃ us w vs, v :: ws = us ++ w :: vs ∧ t = ⟨w.kind, w.text, p.after (textOf us w.gap)⟩ ∧
          ts = codeAt (p.after (textOf (us ++ [w]) [])) vs := by
      obtain ⟨us, w, vs, rfl, ht, hts⟩ := ih h
      refine ⟨v :: us, w, vs, rfl, ?_, ?_⟩
      · rw [ht, textOf_cons, Position.after_append, Position.after_append]
      · rw [hts, List.cons_append, textOf_cons, Position.after_append, Position.after_append]
    by_cases hv : v.kind = .comment
    · rw [codeAt_comment p ws hv] at h
      exact hlater h
    · rw [codeAt_cons p ws hv, List.suffix_cons_iff] at h
      obtain h | h := h
      · cases h
        refine ⟨[], v, ws, rfl, rfl, ?_⟩
        rw [List.nil_append, textOf_cons, textOf_nil, Position.after_append, Position.after_append]
        rfl
      · exact hlater h

theorem start_after_offset (t : Text) : (Position.start.after t).offset = t.length := by
  rw [Position.after_offset]
  exact Nat.zero_add _

/-- A token ends where the text of the lexemes up to its own ends. -/
theorem stop_concat (before : Text) (us : List Lexeme) (w : Lexeme) :
    Token.stop ⟨w.kind, w.text, (Position.start.after before).after (textOf us w.gap)⟩ =
      (before ++ textOf (us ++ [w]) []).length := by
  rw [Token.stop, ← Position.after_append, start_after_offset, textOf_concat,
    textOf_eq_append us w.gap, textOf_eq_append us (w.gap ++ _)]
  simp only [List.length_append, List.append_nil, Nat.add_assoc]

theorem slice_between (a b c : Text) : Text.slice (a ++ b ++ c) a.length (a ++ b).length = b := by
  rw [Text.slice, List.append_assoc, List.drop_left, List.length_append, Nat.add_sub_cancel_left,
    List.take_left]

/-! ## Texts that change -/

theorem fits_not_endOfText {kind : Kind} {text after : Text} (h : Fits kind text after) :
    kind ≠ .endOfText := by
  rintro rfl
  cases h with
  | symbol _ _ hs =>
    have hkinds : Kind.endOfText ∉ symbolKinds := by decide
    exact hkinds (symbol?_kind hs)

theorem textChange_word {kind : Kind} {text text' after : Text} (h : Fits kind text after)
    (hk : isWordKind kind = true) (hc : TextChange kind text text') : text' = text := by
  have hword := fits_word h hk
  have htrim := word_trimRight hword
  obtain rfl | rfl | ⟨-, rfl⟩ := hc
  · rfl
  · rw [Text.trimFirst_of_not_mem (word_newline hword), htrim]
  · exact htrim

theorem textChange_literal {text text' after : Text} (h : Fits .string text after)
    (hl : (Template.partsOf true text).all Template.Part.isLiteral = true)
    (hc : TextChange .string text text') : text' = text := by
  have htrimRight := fits_trimRight_self h rfl (by decide)
  obtain rfl | rfl | ⟨-, rfl⟩ := hc
  · rfl
  · cases h with
    | string hs =>
      rename_i used literal
      rw [(Template.partsOf_of_scans hs).1] at hl
      obtain hn | ⟨a, b, ha, hab⟩ := Text.eq_or_append_newline ('"' :: used)
      · rw [Text.trimFirst_of_not_mem hn, htrimRight]
      · obtain ⟨a', rfl, hused, ha'⟩ := Text.eq_cons_of_cons_eq hab ha (by decide)
        subst hused hl
        have htrim := Template.trimRight_eq_self_of_scans hs ha'
        rw [hab, Text.trimFirst_append_newline b ha, Text.trimRight_cons_of_not_blank a' (by decide),
          htrim]
    | symbol _ _ hs =>
      have hkinds : Kind.string ∉ symbolKinds := by decide
      exact absurd (symbol?_kind hs) hkinds
  · exact htrimRight

theorem count_textChange {kind : Kind} {text text' after : Text} (h : Fits kind text after)
    (hc : TextChange kind text text') : text'.count '\n' = text.count '\n' := by
  obtain rfl | rfl | ⟨hk, rfl⟩ := hc
  · rfl
  · exact Text.count_newline_trimFirst _
  · obtain ⟨a, b, c, rfl, hb, hmem, hblank⟩ := fits_lastLine h hk
    have hne : Text.trimRight b ≠ [] := by
      intro hnil
      rw [Text.trimRight_eq_nil_iff.mp hnil c hmem] at hblank
      cases hblank
    rw [Text.trimRight_append hne, List.count_append, List.count_append, List.count_eq_zero.mpr hb,
      List.count_eq_zero.mpr (Text.newline_not_mem_trimRight hb)]

theorem trimEnds_textChange {kind : Kind} {text text' : Text} (hc : TextChange kind text text') :
    Text.trimEnds text' = Text.trimEnds text := by
  obtain rfl | rfl | ⟨-, rfl⟩ := hc
  · rfl
  · exact Text.trimEnds_trimFirst _
  · exact Text.trimEnds_trimRight _

/-! ## Lexemes that read alike -/

theorem same_of_textChange {f : Comparison} (hx : ¬ f.exact) {kind : Kind} {text text' after : Text}
    {p p' : Position} (h : Fits kind text after) (hc : TextChange kind text text')
    (hk : kind ≠ .comment) (hline : p.line + f.shift = p'.line + f.shift') :
    f.Same ⟨kind, text, p⟩ ⟨kind, text', p'⟩ := by
  refine ⟨rfl, fun hheredoc hstring => ?_, fun hstring hl => ?_, hline, fun h => absurd h hx⟩
  · by_cases hn : kind = .newline
    · subst hn
      exact (textChange_newline h hc).trans (fits_newline_text h).symm
    · refine textChange_word h ?_ hc
      simp only [ne_eq] at hheredoc hstring
      simp [isWordKind, hheredoc, hstring, hk, hn, fits_not_endOfText h]
  · change kind = .string at hstring
    subst hstring
    exact textChange_literal h hl hc

theorem count_isGap {gap : Text} (h : isGap gap) : gap.count '\n' = 0 :=
  List.count_eq_zero.mpr (isGap_newline h)

/-- Lexemes in another layout. -/
theorem alike_codeAt {f : Comparison} (hx : ¬ f.exact) {first : Bool} {ws ws' : List Lexeme}
    {after : Text} (h : Respaced first ws ws') {ts ts' : List Token} (hts : f.Alike ts ts') :
    ∀ {p p' : Position}, AllFit ws after → p.line + f.shift = p'.line + f.shift' →
      f.Alike (codeAt p ws ++ ts) (codeAt p' ws' ++ ts') := by
  induction h with
  | nil => exact fun _ _ => hts
  | cons hkind htext hgap hline hrest ih =>
    rename_i first w w' ws ws'
    intro p p' hfit hp
    obtain ⟨hg, hf, hws⟩ := hfit
    have hstart : (p.after w.gap).line + f.shift = (p'.after w'.gap).line + f.shift' := by
      rw [Position.after_line, Position.after_line, count_isGap hg, count_isGap hgap.isGap]
      exact hp
    have hbehind : ((p.after w.gap).after w.text).line + f.shift =
        ((p'.after w'.gap).after w'.text).line + f.shift' := by
      rw [Position.after_line (p.after w.gap), Position.after_line (p'.after w'.gap),
        count_textChange hf htext]
      omega
    by_cases hk : w.kind = .comment
    · rw [codeAt_comment p ws hk, codeAt_comment p' ws' (by rw [hkind, hk])]
      exact ih hws hbehind
    · rw [codeAt_cons p ws hk, codeAt_cons p' ws' (by rwa [hkind]), hkind]
      exact .cons (same_of_textChange hx hf htext hk hstart) (ih hws hbehind)

/-- The same lexemes at another place. -/
theorem alike_codeAt_self {f : Comparison} {ts ts' : List Token} (hts : f.Alike ts ts')
    (ws : List Lexeme) : ∀ {p p' : Position}, p.line + f.shift = p'.line + f.shift' →
      (∀ n ≤ (textOf ws []).length, f.place (p.offset + n) (p'.offset + n)) →
      f.Alike (codeAt p ws ++ ts) (codeAt p' ws ++ ts') := by
  induction ws with
  | nil => exact fun _ _ => hts
  | cons w ws ih =>
    intro p p' hline hplace
    rw [textOf_cons, List.length_append, List.length_append] at hplace
    have hrest : f.Alike (codeAt ((p.after w.gap).after w.text) ws ++ ts)
        (codeAt ((p'.after w.gap).after w.text) ws ++ ts') := by
      refine ih ?_ fun n hn => ?_
      · simp only [Position.after_line]
        omega
      · have h := hplace (w.gap.length + w.text.length + n) (by omega)
        simpa only [Position.after_offset, Nat.add_assoc] using h
    by_cases hk : w.kind = .comment
    · rw [codeAt_comment p ws hk, codeAt_comment p' ws hk]
      exact hrest
    · rw [codeAt_cons p ws hk, codeAt_cons p' ws hk]
      refine .cons ⟨rfl, fun _ _ => rfl, fun _ _ => rfl, ?_, fun _ => ⟨rfl, ?_, ?_⟩⟩ hrest
      · simp only [Position.after_line]
        omega
      · have h := hplace w.gap.length (by omega)
        simpa only [Position.after_offset] using h
      · have h := hplace (w.gap.length + w.text.length) (by omega)
        simpa only [Token.stop, Position.after_offset, Nat.add_assoc] using h

end HclTidy.Token
