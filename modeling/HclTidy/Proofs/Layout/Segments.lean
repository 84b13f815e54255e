import HclTidy.Proofs.Layout.Rows

/-!
# Segments of a line

A segment is a stretch of a line: lexemes and the layout characters behind them. White space in
front of a segment stands in its first gap and white space behind it in its last, since tokens
neither begin nor end with white space. The two can be exchanged for other white space there.
-/

set_option autoImplicit false

namespace HclTidy.Layout

open Token

structure Segment where
  lexemes : List Lexeme
  gap : Text

namespace Segment

def text (s : Segment) : Text := textOf s.lexemes s.gap

/-- The tokens of the segment begin and end in characters that are not blank. -/
structure Firm (s : Segment) : Prop where
  gaps : ∀ w ∈ s.lexemes, isGap w.gap
  gap : isGap s.gap
  heads : ∀ w ∈ s.lexemes, ∃ c t, w.text = c :: t ∧ Text.isBlank c = false
  ends : ∀ w ∈ s.lexemes, Text.trimRight w.text = w.text

/-- The segment with `front` for the white space in front of it. -/
def setFront (front : Text) (s : Segment) : Segment :=
  match s.lexemes with
  | [] => ⟨[], front ++ Text.trimLeft s.gap⟩
  | w :: ws => ⟨{ w with gap := front ++ Text.trimLeft w.gap } :: ws, s.gap⟩

/-- The segment with `back` for the white space behind it. -/
def setBack (back : Text) (s : Segment) : Segment := ⟨s.lexemes, Text.trimRight s.gap ++ back⟩

theorem trimLeft_token {gap text : Text} (rest : Text)
    (h : ∃ c t, text = c :: t ∧ Text.isBlank c = false) :
    Text.trimLeft (gap ++ (text ++ rest)) = Text.trimLeft gap ++ (text ++ rest) := by
  obtain ⟨c, t, rfl, hc⟩ := h
  by_cases hnil : Text.trimLeft gap = []
  · rw [Text.trimLeft_blank_append _ (Text.trimLeft_eq_nil_iff.mp hnil), hnil, List.cons_append,
      Text.trimLeft_cons _ hc]
    rfl
  · exact Text.trimLeft_append _ hnil

theorem setFront_text {s : Segment} (front : Text)
    (h : ∀ w ∈ s.lexemes, ∃ c t, w.text = c :: t ∧ Text.isBlank c = false) :
    (s.setFront front).text = front ++ Text.trimLeft s.text := by
  obtain ⟨ws, gap⟩ := s
  cases ws with
  | nil => rfl
  | cons w ws =>
    have hw := h w (List.mem_cons_self ..)
    simp only [setFront, text, textOf_cons]
    rw [trimLeft_token _ hw, List.append_assoc]

theorem trimRight_gap {text gap : Text} (h : Text.trimRight text = text) :
    Text.trimRight (text ++ gap) = text ++ Text.trimRight gap := by
  by_cases hnil : Text.trimRight gap = []
  · rw [Text.trimRight_append_blank _ (Text.trimRight_eq_nil_iff.mp hnil), hnil, h, List.append_nil]
  · exact Text.trimRight_append hnil

theorem trimRight_textOf {ws : List Lexeme} (gap : Text)
    (h : ∀ w ∈ ws, Text.trimRight w.text = w.text) (hne : ∀ w ∈ ws, w.text ≠ []) :
    Text.trimRight (textOf ws gap) = textOf ws (Text.trimRight gap) := by
  induction ws with
  | nil => rfl
  | cons w ws ih =>
    have hrest := ih (fun v hv => h v (List.mem_cons_of_mem _ hv))
      (fun v hv => hne v (List.mem_cons_of_mem _ hv))
    have hw : Text.trimRight (w.text ++ textOf ws gap) = w.text ++ textOf ws (Text.trimRight gap) := by
      rw [← hrest]
      exact trimRight_gap (h w (List.mem_cons_self ..))
    have hwne := hne w (List.mem_cons_self ..)
    rw [textOf_cons, Text.trimRight_append (by rw [hw]; simp [hwne]), hw, textOf_cons]

theorem setBack_text {s : Segment} (back : Text) (h : s.Firm) :
    (s.setBack back).text = Text.trimRight s.text ++ back := by
  have hne : ∀ w ∈ s.lexemes, w.text ≠ [] := by
    intro w hw
    obtain ⟨c, t, ht, -⟩ := h.heads w hw
    simp [ht]
  rw [text, setBack, text, textOf_eq_append, trimRight_textOf s.gap h.ends hne,
    textOf_eq_append s.lexemes (Text.trimRight s.gap), List.append_assoc]

end Segment

end HclTidy.Layout
