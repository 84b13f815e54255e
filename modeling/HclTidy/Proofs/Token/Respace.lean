import HclTidy.Proofs.Token.Lexemes

/-!
# Changing the layout between tokens

The layout characters between two tokens may be exchanged for others, new ones may be put between
any two tokens, and white space at the ends of a token's lines may go. Layout characters may vanish
altogether only in front of and behind a line feed. The tokens are the same afterwards.
-/

set_option autoImplicit false

namespace HclTidy

namespace Text

def isBlankText (t : Text) : Prop := ∀ c ∈ t, isBlank c = true

end Text

namespace Token

/-- How a gap may change; `free` tells that a line begins or ends there. -/
structure GapChange (free : Bool) (gap gap' : Text) : Prop where
  isGap : isGap gap'
  kept : gap' = [] → gap = [] ∨ free = true
  blank : Text.isBlankText gap → Text.isBlankText gap'

/-- How the text of a token may change. -/
def TextChange (kind : Kind) (text text' : Text) : Prop :=
  text' = text ∨ text' = Text.trimFirst text ∨ kind ≠ .newline ∧ text' = Text.trimRight text

/-- `ws'` is `ws` in another layout; `first` tells that a line begins in front of them. -/
inductive Respaced : Bool → List Lexeme → List Lexeme → Prop
  | nil {first} : Respaced first [] []
  | cons {first w w' ws ws'} : w'.kind = w.kind → TextChange w.kind w.text w'.text →
      GapChange (first || w.kind = .newline) w.gap w'.gap →
      (w.kind = .newline → w.gap = [] → w'.gap = []) →
      Respaced (w.kind = .newline) ws ws' → Respaced first (w :: ws) (w' :: ws')

theorem gapChange_refl {free : Bool} {gap : Text} (h : isGap gap) : GapChange free gap gap :=
  ⟨h, fun h => .inl h, id⟩

theorem fits_newline_text {text after : Text} (h : Fits .newline text after) : text = ['\n'] := by
  cases h with
  | newline => rfl
  | symbol _ _ hs =>
    have hkinds : Kind.newline ∉ symbolKinds := by decide
    exact absurd (symbol?_kind hs) hkinds

theorem fits_textChange {kind : Kind} {text text' after : Text} (h : Fits kind text after)
    (hc : TextChange kind text text') : Fits kind text' after := by
  obtain rfl | rfl | ⟨hk, rfl⟩ := hc
  · exact h
  · exact fits_trimFirst h
  · exact fits_trimRight h hk

theorem textChange_newline {text text' after : Text} (h : Fits .newline text after)
    (hc : TextChange .newline text text') : text' = ['\n'] :=
  fits_newline_text (fits_textChange h hc)

theorem stops_of_gap {gap : Text} (h : isGap gap) (hne : gap ≠ []) (t : Text) : Stops (gap ++ t) := by
  cases gap with
  | nil => exact absurd rfl hne
  | cons c gap => exact stops_cons (isSeparator_of_isLayout (h c (List.mem_cons_self ..))) _

/-- A token that is changed loses only what stands in front of the end of a line. -/
theorem meets_textChange {kind : Kind} {text text' after t t' : Text} (h : Fits kind text after)
    (hk : kind ≠ .newline) (hc : TextChange kind text text') (hm : Meets t t')
    (he : endsLine kind text = true → EndsLine t') : Meets (text ++ t) (text' ++ t') := by
  have hright : Meets (text ++ t) (Text.trimRight text ++ t') := by
    cases hend : endsLine kind text with
    | false =>
      obtain ⟨s, c, hs, hb⟩ := fits_getLast h hend hk
      rw [trimRight_of_getLast s hs hb]
      exact meets_append text hm
    | true =>
      obtain ⟨g, -, hg⟩ := Text.exists_trimRight text
      refine ⟨Text.trimRight text, g ++ t, t', ?_, rfl, stops_of_endsLine (he hend)⟩
      rw [← List.append_assoc, ← hg]
  obtain rfl | rfl | ⟨-, rfl⟩ := hc
  · exact meets_append _ hm
  · obtain hn | ⟨a, b, ha, rfl⟩ := Text.eq_or_append_newline text
    · rw [Text.trimFirst_of_not_mem hn]
      exact hright
    · obtain ⟨g, -, hg⟩ := Text.exists_trimRight a
      rw [Text.trimFirst_append_newline b ha]
      refine ⟨Text.trimRight a, g ++ '\n' :: b ++ t, '\n' :: b ++ t', ?_, ?_, stops_cons rfl _⟩
      · rw [← List.append_assoc, ← List.append_assoc, ← hg]
      · rw [List.append_assoc]
  · exact hright

/-- What may stand behind lexemes in another layout. -/
structure TailChange (after after' : Text) : Prop where
  meets : Meets after after'
  endsLine : EndsLine after → EndsLine after'

theorem tailChange_append (gap rest : Text) : TailChange (gap ++ rest) gap := by
  refine ⟨⟨gap, rest, [], rfl, (List.append_nil gap).symm, stops_nil⟩, ?_⟩
  intro he
  cases gap with
  | nil => exact endsLine_nil
  | cons c gap => exact he

/-- A line feed may be put in behind layout characters. -/
theorem tailChange_lineFeed {gap : Text} (hgap : isGap gap) (rest rest' : Text) :
    TailChange (gap ++ rest) (gap ++ '\n' :: rest') := by
  refine ⟨⟨gap, rest, '\n' :: rest', rfl, rfl, stops_of_endsLine (endsLine_newline _)⟩, fun he => ?_⟩
  rw [eq_nil_of_endsLine he (isGap_newline hgap)]
  exact endsLine_newline _

section Respaced

variable {after after' : Text} {first : Bool} {ws ws' : List Lexeme}

theorem endsLine_respaced (hfit : AllFit ws after) (h : Respaced first ws ws')
    (htail : TailChange after after') (he : EndsLine (textOf ws after)) :
    EndsLine (textOf ws' after') := by
  cases h with
  | nil => exact htail.endsLine he
  | cons hkind htext hgap hline hrest =>
    rename_i w w' ws ws'
    obtain ⟨hg, hf, -⟩ := hfit
    have hnil : w.gap = [] := by
      cases hw : w.gap with
      | nil => rfl
      | cons c gap =>
        have hc := he c (by rw [textOf_cons, hw]; rfl)
        have hlayout := hg c (by rw [hw]; exact List.mem_cons_self ..)
        rw [hc] at hlayout
        cases hlayout
    have hnewline : w.kind = .newline := by
      obtain ⟨c, t, ht, hsep | ⟨-, hk, -⟩⟩ := fits_head hf
      · have hc := he c (by rw [textOf_cons, hnil, ht]; rfl)
        rw [hc] at hsep
        cases hsep
      · exact hk
    rw [textOf_cons, hline hnewline hnil]
    rw [hnewline] at hf htext
    rw [textChange_newline hf htext]
    exact endsLine_newline _

theorem meets_respaced (h : Respaced first ws ws') (htail : TailChange after after') :
    AllFit ws after → first = false → Meets (textOf ws after) (textOf ws' after') := by
  induction h with
  | nil => exact fun _ _ => htail.meets
  | cons hkind htext hgap hline hrest ih =>
    rename_i first w w' ws ws'
    intro hfit hfirst
    obtain ⟨hg, hf, hws⟩ := hfit
    rw [textOf_cons, textOf_cons]
    by_cases hnil : w'.gap = []
    · rw [hnil, List.nil_append]
      by_cases hk : w.kind = .newline
      · rw [hk] at hf htext
        rw [textChange_newline hf htext]
        exact meets_of_stops _ (stops_cons rfl _)
      · have hwnil : w.gap = [] := (hgap.kept hnil).resolve_right (by simp [hfirst, hk])
        rw [hwnil, List.nil_append]
        refine meets_textChange hf hk htext (ih hws (by simp [hk])) ?_
        intro hend
        exact endsLine_respaced hws hrest htail (fits_endsLine hf hend)
    · exact meets_of_stops _ (stops_of_gap hgap.isGap hnil _)

/-- Lexemes in another layout fit as the lexemes they come from. -/
theorem allFit_respaced (h : Respaced first ws ws') (htail : TailChange after after') :
    AllFit ws after → AllFit ws' after' := by
  induction h with
  | nil => exact fun _ => trivial
  | cons hkind htext hgap hline hrest ih =>
    rename_i first w w' ws ws'
    intro hfit
    obtain ⟨hg, hf, hws⟩ := hfit
    refine ⟨hgap.isGap, ?_, ih hws⟩
    rw [hkind]
    have hf' := fits_textChange hf htext
    by_cases hk : w.kind = .newline
    · rw [hk] at hf htext ⊢
      rw [textChange_newline hf htext]
      exact .newline
    · refine fits_of_meets hf' (meets_respaced hrest htail hws (by simp [hk])) ?_
      intro hend
      exact endsLine_respaced hws hrest htail (fits_endsLine hf' hend)

theorem respaced_refl (h : ∀ w ∈ ws, isGap w.gap) (first : Bool) : Respaced first ws ws := by
  induction ws generalizing first with
  | nil => exact .nil
  | cons w ws ih =>
    exact .cons rfl (.inl rfl) (gapChange_refl (h w (List.mem_cons_self ..))) (fun _ h => h)
      (ih (fun v hv => h v (List.mem_cons_of_mem _ hv)) _)

theorem isGap_of_allFit (h : AllFit ws after) : ∀ w ∈ ws, isGap w.gap := by
  induction ws with
  | nil => nofun
  | cons w ws ih =>
    intro v hv
    obtain rfl | hv := List.mem_cons.mp hv
    · exact h.1
    · exact ih h.2.2 v hv

theorem fits_of_mem (h : AllFit ws after) : ∀ w ∈ ws, ∃ rest, Fits w.kind w.text rest := by
  induction ws with
  | nil => nofun
  | cons w ws ih =>
    intro v hv
    obtain rfl | hv := List.mem_cons.mp hv
    · exact ⟨_, h.2.1⟩
    · exact ih h.2.2 v hv

theorem fits_of_mem_tokensAt (h : AllFit ws after) {p : Position} :
    ∀ t ∈ tokensAt p ws, ∃ rest, Fits t.kind t.text rest := by
  induction ws generalizing p with
  | nil => nofun
  | cons w ws ih =>
    intro t ht
    obtain rfl | ht := List.mem_cons.mp ht
    · exact ⟨_, h.2.1⟩
    · exact ih h.2.2 t ht

theorem allFit_tailChange (h : AllFit ws after) (htail : TailChange after after') :
    AllFit ws after' := allFit_respaced (respaced_refl (isGap_of_allFit h) false) htail h

/-- Whether a line begins behind lexemes. -/
def atLineStart : Bool → List Lexeme → Bool
  | first, [] => first
  | _, w :: ws => atLineStart (w.kind = .newline) ws

theorem respaced_append {us us' : List Lexeme} (h : Respaced first us us')
    (hws : Respaced (atLineStart first us) ws ws') : Respaced first (us ++ ws) (us' ++ ws') := by
  induction h with
  | nil => exact hws
  | cons hkind htext hgap hline hrest ih => exact .cons hkind htext hgap hline (ih hws)

theorem respaced_of_append {us vs : List Lexeme} (h : Respaced first (us ++ ws) vs) :
    ∃ us' ws', vs = us' ++ ws' ∧ Respaced first us us' ∧ Respaced (atLineStart first us) ws ws' := by
  induction us generalizing first vs with
  | nil => exact ⟨[], vs, rfl, .nil, h⟩
  | cons u us ih =>
    cases h with
    | cons hkind htext hgap hline hrest =>
      obtain ⟨us', ws', rfl, hus, hws⟩ := ih hrest
      exact ⟨_ :: us', ws', rfl, .cons hkind htext hgap hline hus, hws⟩

theorem atLineStart_of_ne_newline {us : List Lexeme} (h : ∀ w ∈ us, w.kind ≠ .newline) :
    atLineStart first us = (first && us.isEmpty) := by
  induction us generalizing first with
  | nil => simp [atLineStart]
  | cons u us ih =>
    rw [atLineStart, ih fun v hv => h v (List.mem_cons_of_mem _ hv),
      decide_eq_false (h u (List.mem_cons_self ..))]
    simp

theorem atLineStart_of_newline {us : List Lexeme} (h : ∀ w ∈ us, w.kind = .newline) :
    atLineStart true us = true := by
  induction us with
  | nil => rfl
  | cons u us ih =>
    rw [atLineStart, decide_eq_true (h u (List.mem_cons_self ..))]
    exact ih fun v hv => h v (List.mem_cons_of_mem _ hv)

end Respaced

end Token

end HclTidy
