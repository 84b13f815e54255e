import HclTidy.Proofs.Layout.Parts

/-!
# What the lexer grants of rows

In a row of a text that has tokens, only the last token can end its line or go on below it, and a
token with layout characters behind it on its line does neither. So every row is in order.
-/

set_option autoImplicit false

namespace HclTidy

namespace Token

/-- A text that begins with layout characters or a token does not end the line. -/
theorem not_endsLine_gap {gap : Text} (hg : isGap gap) (hne : gap ≠ []) (t : Text) :
    ¬ EndsLine (gap ++ t) := by
  intro he
  cases gap with
  | nil => exact hne rfl
  | cons c gap =>
    have hc := he c rfl
    have hlayout := hg c (List.mem_cons_self ..)
    rw [hc] at hlayout
    cases hlayout

theorem not_endsLine_textOf {w : Lexeme} {ws : List Lexeme} {after : Text}
    (h : AllFit (w :: ws) after) (hk : w.kind ≠ .newline) : ¬ EndsLine (textOf (w :: ws) after) := by
  obtain ⟨hg, hf, -⟩ := h
  rw [textOf_cons]
  by_cases hnil : w.gap = []
  · intro he
    obtain ⟨c, t, ht, hc⟩ := fits_head_notBlank hf hk
    have hline := he c (by rw [hnil, ht]; rfl)
    rw [hline] at hc
    cases hc
  · exact not_endsLine_gap hg hnil _

end Token

namespace Layout

open Token

theorem mem_of_allFit {ws : List Lexeme} {after : Text} (h : AllFit ws after) :
    ∀ w ∈ ws, isGap w.gap ∧ ∃ rest, Fits w.kind w.text rest :=
  fun w hw => ⟨isGap_of_allFit h w hw, fits_of_mem h w hw⟩

/-- Tokens in front of other tokens of their line end in a character that is not blank. -/
theorem trimRight_of_mem_dropLast {ws : List Lexeme} {after : Text} (h : AllFit ws after)
    (hk : ∀ w ∈ ws, w.kind ≠ .newline) : ∀ w ∈ ws.dropLast, Text.trimRight w.text = w.text := by
  induction ws with
  | nil => nofun
  | cons w ws ih =>
    cases ws with
    | nil => nofun
    | cons v ws =>
      intro u hu
      obtain ⟨-, hf, hrest⟩ := h
      rw [List.dropLast_cons_cons] at hu
      obtain rfl | hu := List.mem_cons.mp hu
      · refine fits_trimRight_self hf ?_ (hk u (List.mem_cons_self ..))
        rw [Bool.eq_false_iff]
        intro he
        exact not_endsLine_textOf hrest (hk v (by simp)) (fits_endsLine hf he)
      · exact ih hrest (fun x hx => hk x (List.mem_cons_of_mem _ hx)) u hu

theorem ok_of_allFit {start : Position} {lead : Option Text} {us : List Lexeme} {tail : Text} (rest : Text)
    (h : AllFit us (tail ++ rest)) (ht : isGap tail) (hk : ∀ w ∈ us, w.kind ≠ .newline)
    (hinner : ∀ w ∈ us.dropLast, '\n' ∉ w.text)
    (hlast : tail ≠ [] → ∀ w ∈ us, '\n' ∉ w.text) (hcolumn : lead = none → start.column = 1) :
    LexRow.Ok ⟨start, lead, us, tail⟩ := by
  have hmem := mem_of_allFit h
  refine ⟨fun w hw => (hmem w hw).1, ht, ?_, ?_, ?_, ?_, hcolumn, ?_⟩
  · intro w hw
    obtain ⟨-, after, hf⟩ := hmem w hw
    exact fits_head_notBlank hf (hk w hw)
  · exact fun w hw => ⟨hinner w hw, trimRight_of_mem_dropLast h hk w hw⟩
  · intro w hw hne
    change us.getLast? = some w at hw
    have hwmem := List.mem_of_getLast? hw
    rw [← List.dropLast_append_getLast? w hw, allFit_append] at h
    obtain ⟨-, -, hf, -⟩ := h
    have hend : endsLine w.kind w.text = false := by
      rw [Bool.eq_false_iff]
      intro he
      exact not_endsLine_gap ht hne rest (fits_endsLine hf he)
    refine ⟨hlast hne w hwmem, fits_trimRight_self hf hend (hk w hwmem), ?_⟩
    intro hc
    rw [hc] at hf hend
    exact fits_comment_slash hf hend
  · intro w hw he
    obtain ⟨-, after, hf⟩ := hmem w hw
    rw [he] at hf
    exact fits_mark rfl hf
  · intro w hw
    obtain ⟨-, after, hf⟩ := hmem w hw
    obtain ⟨c, t, htext, -⟩ := fits_head hf
    rw [htext] at hf
    exact ⟨c, t, htext, head_notLayout hf⟩

theorem column_after_newline (p : Position) (t : Text) : (p.after (t ++ ['\n'])).column = 1 := by
  rw [Position.after_append]
  rfl

theorem ok_inner (start : Position) (line : Text) : (LexRow.inner start line).Ok :=
  ⟨nofun, nofun, nofun, nofun, nofun, nofun, nofun, nofun⟩

/-- The rows of a text that has tokens are in order. -/
theorem ok_lexRows {ws : List Lexeme} :
    ∀ (start : Position) (lead : Option Text) (front : List Lexeme) (tail : Text),
      AllFit (front ++ ws) tail → isGap tail →
      (∀ w ∈ front, w.kind ≠ .newline ∧ '\n' ∉ w.text) → (lead = none → start.column = 1) →
      ∀ r ∈ lexRows start lead front ws tail, r.Ok := by
  induction ws with
  | nil =>
    intro start lead front tail hfit ht hfront hcolumn r hr
    rw [List.append_nil] at hfit
    rw [lexRows, List.mem_singleton] at hr
    rw [hr]
    refine ok_of_allFit [] (by rwa [List.append_nil]) ht (fun w hw => (hfront w hw).1)
      (fun w hw => (hfront w (List.dropLast_subset _ hw)).2) (fun _ w hw => (hfront w hw).2) hcolumn
  | cons w ws ih =>
    intro start lead front tail hfit ht hfront hcolumn r hr
    have hsplit : front ++ w :: ws = (front ++ [w]) ++ ws := by simp
    have hws : AllFit ws tail := by
      rw [hsplit] at hfit
      exact (allFit_append.mp hfit).2
    have hhere : AllFit (front ++ [w]) (textOf ws tail) := by
      rw [hsplit] at hfit
      exact (allFit_append.mp hfit).1
    have hw := (mem_of_allFit hhere w (by simp))
    rw [lexRows] at hr
    by_cases hk : w.kind = .newline
    · rw [if_pos hk] at hr
      obtain ⟨hgap, after, hf⟩ := hw
      rw [hk] at hf
      have htext := fits_newline_text hf
      obtain rfl | hr := List.mem_cons.mp hr
      · have hfr := (allFit_append.mp hhere).1
        exact ok_of_allFit (w.text ++ textOf ws tail) hfr hgap (fun v hv => (hfront v hv).1)
          (fun v hv => (hfront v (List.dropLast_subset _ hv)).2) (fun _ v hv => (hfront v hv).2)
          hcolumn
      · refine ih _ none [] tail hws ht (List.forall_mem_nil _) (fun _ => ?_) r hr
        rw [textOf_concat, htext, textOf_eq_append, List.append_nil, ← List.append_assoc]
        exact column_after_newline _ _
    · have hkinds : ∀ v ∈ front ++ [w], v.kind ≠ .newline := by
        intro v hv
        obtain hv | hv := List.mem_append.mp hv
        · exact (hfront v hv).1
        · rw [List.mem_singleton.mp hv]
          exact hk
      rw [if_neg hk] at hr
      split at hr
      · obtain rfl | hr := List.mem_cons.mp hr
        · refine ok_of_allFit (textOf ws tail) hhere (List.forall_mem_nil _) hkinds ?_ (fun h => absurd rfl h)
            hcolumn
          rw [List.dropLast_concat]
          exact fun v hv => (hfront v hv).2
        · obtain hr | hr := List.mem_append.mp hr
          · obtain ⟨line, -, rfl⟩ := List.mem_map.mp hr
            exact ok_inner start line
          · exact ih _ (some _) [] tail hws ht (List.forall_mem_nil _) (fun h => by cases h) r hr
      · next hlines =>
        have hn : '\n' ∉ w.text := by
          intro hn
          obtain ⟨first, second, more, hl⟩ := lines_eq_cons_cons hn
          exact hlines _ _ _ hl
        refine ih _ _ (front ++ [w]) tail (by rwa [← hsplit]) ht ?_ hcolumn r hr
        intro v hv
        refine ⟨hkinds v hv, ?_⟩
        obtain hv | hv := List.mem_append.mp hv
        · exact (hfront v hv).2
        · rw [List.mem_singleton.mp hv]
          exact hn

end Layout

end HclTidy
