import HclTidy.Proofs.Token.Ends

/-!
# Texts as sequences of lexemes

A lexeme is a token with the layout characters in front of it. A text has tokens exactly when it is
a sequence of lexemes, each of which fits in front of the others, and layout characters behind them.
-/

set_option autoImplicit false

namespace HclTidy

theorem Position.step_line (p : Position) (c : Char) :
    (p.step c).line = p.line + if c = '\n' then 1 else 0 := by
  unfold Position.step
  split <;> rfl

theorem Position.after_line (p : Position) (t : Text) : (p.after t).line = p.line + t.count '\n' := by
  induction t generalizing p with
  | nil => rfl
  | cons c t ih =>
    rw [Position.after_cons, ih, Position.step_line, List.count_cons]
    simp only [beq_iff_eq]
    omega

theorem Position.after_column (p : Position) {t : Text} (h : '\n' ∉ t) :
    (p.after t).column = p.column + t.length := by
  induction t generalizing p with
  | nil => rfl
  | cons c t ih =>
    rw [List.mem_cons, not_or] at h
    rw [Position.after_cons, ih _ h.2, Position.step, if_neg (Ne.symm h.1), List.length_cons]
    change p.column + 1 + t.length = _
    omega

structure Lexeme where
  gap : Text
  kind : Token.Kind
  text : Text

namespace Token

def isGap (t : Text) : Prop := ∀ c ∈ t, isLayout c = true

theorem isGap_newline {gap : Text} (h : isGap gap) : '\n' ∉ gap := by
  intro hm
  cases h _ hm

theorem isGap_trimLeft {t : Text} (h : isGap t) : isGap (Text.trimLeft t) :=
  fun c hc => h c (Text.trimLeft_subset t hc)

theorem isGap_trimRight {t : Text} (h : isGap t) : isGap (Text.trimRight t) :=
  fun c hc => h c (Text.trimRight_subset t hc)

/-- The lexemes one behind the other, with `after` behind them. -/
def textOf : List Lexeme → Text → Text
  | [], after => after
  | w :: ws, after => w.gap ++ (w.text ++ textOf ws after)

/-- The tokens of lexemes that begin at a position. -/
def tokensAt (p : Position) : List Lexeme → List Token
  | [] => []
  | w :: ws => ⟨w.kind, w.text, p.after w.gap⟩ :: tokensAt ((p.after w.gap).after w.text) ws

/-- Every lexeme fits in front of those behind it. -/
def AllFit : List Lexeme → Text → Prop
  | [], _ => True
  | w :: ws, after => isGap w.gap ∧ Fits w.kind w.text (textOf ws after) ∧ AllFit ws after

@[simp] theorem textOf_nil (after : Text) : textOf [] after = after := rfl

theorem textOf_cons (w : Lexeme) (ws : List Lexeme) (after : Text) :
    textOf (w :: ws) after = w.gap ++ (w.text ++ textOf ws after) := rfl

theorem textOf_append (us ws : List Lexeme) (after : Text) :
    textOf (us ++ ws) after = textOf us (textOf ws after) := by
  induction us with
  | nil => rfl
  | cons u us ih => rw [List.cons_append, textOf_cons, ih, textOf_cons]

theorem textOf_concat (ws : List Lexeme) (w : Lexeme) (after : Text) :
    textOf (ws ++ [w]) after = textOf ws (w.gap ++ (w.text ++ after)) := textOf_append ws [w] after

theorem textOf_eq_append (ws : List Lexeme) (after : Text) :
    textOf ws after = textOf ws [] ++ after := by
  induction ws with
  | nil => rfl
  | cons w ws ih => rw [textOf_cons, ih, textOf_cons, List.append_assoc, List.append_assoc]

theorem textOf_append_cons (us : List Lexeme) (w : Lexeme) (ws : List Lexeme) (after : Text) :
    textOf (us ++ w :: ws) after = textOf us w.gap ++ (w.text ++ textOf ws after) := by
  rw [textOf_append, textOf_cons, textOf_eq_append us, textOf_eq_append us w.gap, List.append_assoc]

theorem allFit_append {us ws : List Lexeme} {after : Text} :
    AllFit (us ++ ws) after ↔ AllFit us (textOf ws after) ∧ AllFit ws after := by
  induction us with
  | nil => exact ⟨fun h => ⟨trivial, h⟩, fun h => h.2⟩
  | cons u us ih =>
    rw [List.cons_append, AllFit, AllFit, ih, textOf_append]
    exact ⟨fun h => ⟨⟨h.1, h.2.1, h.2.2.1⟩, h.2.2.2⟩, fun h => ⟨h.1.1, h.1.2.1, h.1.2.2, h.2⟩⟩

theorem tokensAt_append (p : Position) (us ws : List Lexeme) :
    tokensAt p (us ++ ws) = tokensAt p us ++ tokensAt (p.after (textOf us [])) ws := by
  induction us generalizing p with
  | nil => rfl
  | cons u us ih =>
    rw [List.cons_append, tokensAt, tokensAt, ih, List.cons_append, textOf_cons,
      Position.after_append, Position.after_append]

theorem tokensAt_kind {p : Position} {ws : List Lexeme} {q : Kind → Prop} (h : ∀ w ∈ ws, q w.kind) :
    ∀ t ∈ tokensAt p ws, q t.kind := by
  induction ws generalizing p with
  | nil => nofun
  | cons w ws ih =>
    intro t ht
    obtain rfl | ht := List.mem_cons.mp ht
    · exact h w (List.mem_cons_self ..)
    · exact ih (fun v hv => h v (List.mem_cons_of_mem _ hv)) t ht

/-! ## Reading lexemes -/

theorem readAll_cons_of_layout {c : Char} (h : isLayout c = true) (p : Position) (rest : Text) :
    readAll p (c :: rest) = readAll (p.step c) rest := by
  rw [readAll, if_pos h]

theorem readAll_gap (p : Position) {gap : Text} (h : isGap gap) (t : Text) :
    readAll p (gap ++ t) = readAll (p.after gap) t := by
  induction gap generalizing p with
  | nil => rfl
  | cons c gap ih =>
    rw [List.cons_append, readAll_cons_of_layout (h c (List.mem_cons_self ..)),
      ih _ (fun d hd => h d (List.mem_cons_of_mem _ hd)), Position.after_cons]

theorem head_notLayout {kind : Kind} {c : Char} {t after : Text} (h : Fits kind (c :: t) after) :
    isLayout c = false := by
  rw [Bool.eq_false_iff]
  intro hc
  have hsep := isSeparator_of_isLayout hc
  obtain ⟨d, u, heq, hd | ⟨hd, -, -⟩⟩ := fits_head h
  · cases heq
    rw [hsep] at hd
    cases hd
  · cases heq
    subst hd
    cases hc

theorem readAll_token (p : Position) {kind : Kind} {text after : Text} (h : Fits kind text after) :
    readAll p (text ++ after) =
      (readAll (p.after text) after).map fun stream =>
        { stream with tokens := ⟨kind, text, p⟩ :: stream.tokens } := by
  obtain ⟨c, t, rfl, -⟩ := fits_head h
  rw [List.cons_append, readAll, if_neg (by rw [head_notLayout h]; exact Bool.false_ne_true),
    lexeme_of_fits h]
  simp only [List.take_left, List.drop_left]
  cases readAll (p.after (c :: t)) after <;> rfl

theorem readAll_textOf {ws : List Lexeme} {tail : Text} (h : AllFit ws tail) (ht : isGap tail)
    (p : Position) :
    readAll p (textOf ws tail) = .ok ⟨tokensAt p ws, p.after (textOf ws tail)⟩ := by
  induction ws generalizing p with
  | nil =>
    have hnil := readAll_gap p ht []
    rw [List.append_nil] at hnil
    rw [textOf_nil, hnil, readAll]
    rfl
  | cons w ws ih =>
    obtain ⟨hgap, hfit, hrest⟩ := h
    rw [textOf_cons, readAll_gap p hgap, readAll_token _ hfit, ih hrest, Position.after_append,
      Position.after_append]
    rfl

/-- A text that has tokens is a sequence of lexemes. -/
theorem exists_lexemes {p : Position} {text : Text} {stream : TokenStream}
    (h : readAll p text = .ok stream) :
    ∃ ws tail, text = textOf ws tail ∧ AllFit ws tail ∧ isGap tail ∧
      stream = ⟨tokensAt p ws, p.after text⟩ := by
  fun_induction readAll p text generalizing stream with
  | case1 p =>
    cases h
    exact ⟨[], [], rfl, trivial, nofun, rfl⟩
  | case2 p c rest hc ih =>
    obtain ⟨ws, tail, rfl, hfit, htail, rfl⟩ := ih h
    cases ws with
    | nil =>
      refine ⟨[], c :: tail, rfl, trivial, ?_, rfl⟩
      intro d hd
      obtain rfl | hd := List.mem_cons.mp hd
      · exact hc
      · exact htail d hd
    | cons w ws =>
      refine ⟨⟨c :: w.gap, w.kind, w.text⟩ :: ws, tail, rfl, ⟨?_, hfit.2⟩, htail, rfl⟩
      intro d hd
      obtain rfl | hd := List.mem_cons.mp hd
      · exact hc
      · exact hfit.1 d hd
  | case3 => cases h
  | case4 => cases h
  | case5 =>
    rename_i p c rest hc kind n hlex token stream' hread ih
    cases h
    obtain ⟨ws, tail, hrest, hfit, htail, rfl⟩ := ih hread
    obtain ⟨-, hfits⟩ := fits_of_lexeme hlex
    have hsplit : c :: rest = (c :: rest.take n) ++ rest.drop n := by
      rw [List.cons_append, List.take_append_drop]
    refine ⟨⟨[], kind, c :: rest.take n⟩ :: ws, tail, ?_, ⟨nofun, hrest ▸ hfits, hfit⟩, htail, ?_⟩
    · rw [textOf_cons, ← hrest, ← hsplit]
      rfl
    · rw [hsplit, Position.after_append]
      rfl

end Token

end HclTidy
