import HclTidy.Proofs.Block.Sound

/-!
# Bodies in another layout

A body still reads as one in another layout, with line breaks added or removed at both ends; so a
raw body can be trimmed. Its tokens stay the same but for line breaks and for white space at the end
of a token's first and last line.
-/

set_option autoImplicit false

namespace HclTidy

open Token

/-- Kind and text of the lexemes but for line breaks, texts up to white space at the ends of their
first and last line. -/
def significant (ws : List Lexeme) : List (Kind × Text) :=
  (ws.filter fun w => w.kind ≠ .newline).map fun w => (w.kind, Text.trimEnds w.text)

theorem significant_append (us ws : List Lexeme) :
    significant (us ++ ws) = significant us ++ significant ws := by
  rw [significant, List.filter_append, List.map_append]
  rfl

theorem significant_newlines {ws : List Lexeme} (h : ∀ w ∈ ws, w.kind = .newline) :
    significant ws = [] := by
  rw [significant, List.filter_eq_nil_iff.mpr fun w hw => by simp [h w hw], List.map_nil]

theorem significant_respaced {first : Bool} {ws ws' : List Lexeme} (h : Respaced first ws ws') :
    significant ws' = significant ws := by
  induction h with
  | nil => rfl
  | cons hkind htext hgap hline hrest ih =>
    rename_i first w w' ws ws'
    have hcons (v : Lexeme) (vs : List Lexeme) : significant (v :: vs) =
        significant [v] ++ significant vs := significant_append [v] vs
    rw [hcons w', hcons w, ih]
    congr 1
    unfold significant
    by_cases hk : w.kind = .newline
    · rw [List.filter_cons_of_neg (by simp [hkind, hk]), List.filter_cons_of_neg (by simp [hk])]
    · rw [List.filter_cons_of_pos (by simpa [hkind] using hk),
        List.filter_cons_of_pos (by simpa using hk)]
      simp [hkind, trimEnds_textChange htext]

section Reading

variable {raw gap : Text} {ws above mid below above' mid' below' : List Lexeme} {first : Bool}

theorem newlines_codeAt {p : Position} {us : List Lexeme} (h : ∀ w ∈ us, w.kind = .newline) :
    Comparison.AllNewlines (codeAt p us) :=
  fun t ht => tokensAt_kind (q := (· = .newline)) h t (List.mem_of_mem_filter ht)

theorem dropWhile_codeAt {p : Position} {us : List Lexeme} (h : ∀ w ∈ us, w.kind = .newline)
    (ts : List Token) :
    (codeAt p us ++ ts).dropWhile (isKind .newline) = ts.dropWhile (isKind .newline) :=
  List.dropWhile_append_of_pos fun t ht => decide_eq_true (newlines_codeAt h t ht)

/-- A body is read in another layout too. -/
theorem read_of_readsBody (h : ReadsBody raw (above ++ (mid ++ below)) gap)
    (habove : ∀ w ∈ above, w.kind = .newline) (hbelow : ∀ w ∈ below, w.kind = .newline)
    (habove' : ∀ w ∈ above', w.kind = .newline) (hbelow' : ∀ w ∈ below', w.kind = .newline)
    (hmid : Respaced first mid mid') {source : Source} (hend : source.endToken.kind = .endOfText)
    {c : Cursor} {p : Position} {closing : Token} {after : List Token}
    (hclosing : closing.kind = .rbrace)
    (hc : c.rest = codeAt p (above' ++ (mid' ++ below')) ++ closing :: after) :
    ∃ s, Body.read source c = .ok s ∧ s.next.rest = closing :: after := by
  obtain ⟨source₀, c₀, s₀, p₀, closing₀, after₀, hc₀, hclosing₀, hs₀, hrest₀⟩ := h.reads
  let e : Ending := ⟨closing₀, after₀, hclosing₀⟩
  let e' : Ending := ⟨closing, after, hclosing⟩
  let f : Comparison := .bodies e e' (p.after (textOf above' [])).line (p₀.after (textOf above [])).line
    False fun _ _ => True
  have hf : f.Braced e e' := Comparison.braced_bodies ..
  have hfit := (allFit_append.mp (allFit_append.mp h.fits).2).1
  have hcode : f.Alike (codeAt (p₀.after (textOf above [])) (mid ++ below) ++ closing₀ :: after₀)
      (codeAt (p.after (textOf above' [])) (mid' ++ below') ++ closing :: after) := by
    rw [codeAt_append, codeAt_append, List.append_assoc, List.append_assoc]
    refine alike_codeAt (f := f) (id : ¬ False) hmid (.ended ?_ ?_) hfit (Nat.add_comm _ _)
    · exact ⟨_, newlines_codeAt hbelow, rfl⟩
    · exact ⟨_, newlines_codeAt hbelow', rfl⟩
  have hskip : f.Alike c₀.skipNewlines.rest c.skipNewlines.rest := by
    change f.Alike (c₀.rest.dropWhile _) (c.rest.dropWhile _)
    rw [hc₀, hc, codeAt_append p₀, codeAt_append p, List.append_assoc (codeAt p₀ above),
      List.append_assoc (codeAt p above'), dropWhile_codeAt habove, dropWhile_codeAt habove']
    exact Comparison.alike_dropWhile hf hcode
  obtain ⟨s, hs, hrest, -⟩ := Body.read_closing hf ⟨hend, False.elim⟩ hskip hs₀ hrest₀
  exact ⟨s, hs, hrest⟩

/-- A body without the line breaks at its ends is a body in another layout too. -/
theorem readsBody_respaced (h : ReadsBody raw (above ++ (mid ++ below)) gap)
    (habove : ∀ w ∈ above, w.kind = .newline) (hbelow : ∀ w ∈ below, w.kind = .newline)
    (hmid : Respaced first mid mid') {gap' : Text} (hgap' : isGap gap')
    (htail : TailChange (textOf below gap) gap') : ReadsBody (textOf mid' gap') mid' gap' := by
  let closing : Token := ⟨.rbrace, [], Position.start⟩
  let c : Cursor := ⟨codeAt Position.start mid' ++ [closing], 0, []⟩
  let source : Source := ⟨[], ⟨.endOfText, [], Position.start⟩⟩
  have hc : c.rest = codeAt Position.start ([] ++ (mid' ++ [])) ++ [closing] := by
    rw [List.nil_append, List.append_nil]
  obtain ⟨s, hs, hrest⟩ := read_of_readsBody h habove hbelow (List.forall_mem_nil _)
    (List.forall_mem_nil _) hmid (show source.endToken.kind = .endOfText from rfl) rfl hc
  have hfit := (allFit_append.mp (allFit_append.mp h.fits).2).1
  exact ⟨rfl, allFit_respaced hmid htail hfit, hgap', source, c, s, Position.start, closing, [], rfl, rfl,
    hs, hrest⟩

theorem significant_middle (habove : ∀ w ∈ above, w.kind = .newline)
    (hbelow : ∀ w ∈ below, w.kind = .newline) (hmid : Respaced first mid mid') :
    significant mid' = significant (above ++ (mid ++ below)) := by
  rw [significant_append, significant_append, significant_newlines habove,
    significant_newlines hbelow, List.append_nil, List.nil_append, significant_respaced hmid]

end Reading

/-! ## Trimming a body -/

theorem tailChange_trimRight {gap : Text} (hg : isGap gap) (after : Text) :
    TailChange (gap ++ after) (Text.trimRight gap) := by
  obtain ⟨b, -, hb⟩ := Text.exists_trimRight gap
  refine ⟨⟨Text.trimRight gap, b ++ after, [], ?_, (List.append_nil _).symm, stops_nil⟩, ?_⟩
  · rw [← List.append_assoc, ← hb]
  · intro he
    rw [eq_nil_of_endsLine he (isGap_newline hg)]
    exact endsLine_nil

theorem tailChange_trimLeft {gap : Text} (hg : isGap gap) : TailChange gap (Text.trimLeft gap) := by
  refine ⟨meets_of_stops _ ?_, ?_⟩
  · intro c hc
    exact isSeparator_of_isLayout (isGap_trimLeft hg c (List.mem_of_mem_head? hc))
  · intro he
    rw [← List.append_nil gap] at he
    rw [eq_nil_of_endsLine he (isGap_newline hg)]
    exact endsLine_nil

theorem gapChange_blank {free : Bool} {gap gap' : Text} (hg : isGap gap) (hsub : gap' ⊆ gap)
    (hfree : gap' = [] → free = true) : GapChange free gap gap' :=
  ⟨fun c hc => hg c (hsub hc), fun h => .inr (hfree h), fun h c hc => h c (hsub hc)⟩

/-- What trimming a text on the left does to its lexemes. -/
theorem exists_trimLeft {ws : List Lexeme} {gap : Text} (h : AllFit ws gap) (hg : isGap gap) :
    ∃ above mid mid' gap', ws = above ++ mid ∧ (∀ w ∈ above, w.kind = .newline) ∧
      Text.trimLeft (textOf ws gap) = textOf mid' gap' ∧ Respaced true mid mid' ∧ isGap gap' ∧
      TailChange gap gap' := by
  induction ws with
  | nil =>
    exact ⟨[], [], [], Text.trimLeft gap, rfl, nofun, rfl, .nil, isGap_trimLeft hg, tailChange_trimLeft hg⟩
  | cons w ws ih =>
    obtain ⟨hgap, hf, hws⟩ := h
    have hrest (gap' : Text) (hsub : gap' ⊆ w.gap) (hnil : w.gap = [] → gap' = []) :
        Respaced true (w :: ws) (⟨gap', w.kind, w.text⟩ :: ws) :=
      .cons rfl (.inl rfl) (gapChange_blank hgap hsub fun _ => rfl) (fun _ => hnil)
        (respaced_refl (isGap_of_allFit hws) _)
    by_cases hblank : Text.trimLeft w.gap = []
    · rw [textOf_cons, Text.trimLeft_blank_append _ (Text.trimLeft_eq_nil_iff.mp hblank)]
      by_cases hk : w.kind = .newline
      · obtain ⟨above, mid, mid', gap', rfl, habove, htrim, hmid, hgap', htail⟩ := ih hws
        rw [hk] at hf
        rw [fits_newline_text hf]
        refine ⟨w :: above, mid, mid', gap', rfl, ?_, htrim, hmid, hgap', htail⟩
        intro v hv
        obtain rfl | hv := List.mem_cons.mp hv
        · exact hk
        · exact habove v hv
      · obtain ⟨c, t, ht, hc⟩ := fits_head_notBlank hf hk
        refine ⟨[], w :: ws, ⟨[], w.kind, w.text⟩ :: ws, gap, rfl, nofun, ?_,
          hrest [] (List.nil_subset _) fun _ => rfl, hg, ⟨meets_refl gap, id⟩⟩
        rw [ht, List.cons_append, Text.trimLeft_cons _ hc]
        rfl
    · refine ⟨[], w :: ws, ⟨Text.trimLeft w.gap, w.kind, w.text⟩ :: ws, gap, rfl, nofun, ?_,
        hrest _ (Text.trimLeft_subset _) fun hnil => by rw [hnil]; rfl, hg, ⟨meets_refl gap, id⟩⟩
      rw [textOf_cons, Text.trimLeft_append _ hblank]
      rfl

/-- What trimming a text on the right does to its lexemes. -/
theorem exists_trimRight {ws : List Lexeme} {gap : Text} (h : AllFit ws gap) (hg : isGap gap) :
    ∃ mid below mid' gap', ws = mid ++ below ∧ (∀ w ∈ below, w.kind = .newline) ∧
      Text.trimRight (textOf ws gap) = textOf mid' gap' ∧ (∀ first, Respaced first mid mid') ∧
      isGap gap' ∧ TailChange (textOf below gap) gap' := by
  induction ws with
  | nil =>
    have htail := tailChange_trimRight hg []
    rw [List.append_nil] at htail
    exact ⟨[], [], [], Text.trimRight gap, rfl, nofun, rfl, fun _ => .nil, isGap_trimRight hg, htail⟩
  | cons w ws ih =>
    obtain ⟨hgap, hf, hws⟩ := h
    rw [textOf_cons]
    by_cases hblank : Text.trimRight (textOf ws gap) = []
    · have hallBlank := Text.trimRight_eq_nil_iff.mp hblank
      have hnewlines := newline_of_isBlankText hws hallBlank
      by_cases hk : w.kind = .newline
      · rw [hk] at hf
        rw [fits_newline_text hf]
        refine ⟨[], w :: ws, [], Text.trimRight w.gap, rfl, ?_, ?_, fun _ => .nil,
          isGap_trimRight hgap, ?_⟩
        · intro v hv
          obtain rfl | hv := List.mem_cons.mp hv
          · exact hk
          · exact hnewlines v hv
        · refine Text.trimRight_append_blank w.gap fun c hc => ?_
          obtain rfl | hc := List.mem_cons.mp hc
          · rfl
          · exact hallBlank c hc
        · exact tailChange_trimRight hgap _
      · refine ⟨[w], ws, [⟨w.gap, w.kind, Text.trimRight w.text⟩], [], rfl, hnewlines, ?_, ?_, nofun,
          ⟨meets_of_stops _ stops_nil, fun _ => endsLine_nil⟩⟩
        · obtain ⟨c, t, ht, hc⟩ := fits_head_notBlank hf hk
          have hne : Text.trimRight w.text ≠ [] := by
            rw [ht, Text.trimRight_cons_of_not_blank t hc]
            exact List.cons_ne_nil _ _
          rw [← List.append_assoc, Text.trimRight_append_blank _ hallBlank, Text.trimRight_append hne,
            textOf_cons, textOf_nil, List.append_nil]
        · intro first
          exact .cons rfl (.inr (.inr ⟨hk, rfl⟩)) (gapChange_refl hgap) (fun _ hnil => hnil) .nil
    · obtain ⟨mid, below, mid', gap', rfl, hbelow, htrim, hmid, hgap', htail⟩ := ih hws
      refine ⟨w :: mid, below, w :: mid', gap', rfl, hbelow, ?_, ?_, hgap', htail⟩
      · rw [← List.append_assoc, Text.trimRight_append hblank, htrim, List.append_assoc]
        rfl
      · intro first
        exact .cons rfl (.inl rfl) (gapChange_refl hgap) (fun _ hnil => hnil) (hmid _)

/-- A raw body may be trimmed. -/
theorem readsBody_trim {raw gap : Text} {ws : List Lexeme} (h : ReadsBody raw ws gap) :
    ∃ ws' gap', ReadsBody (Text.trim raw) ws' gap' ∧ significant ws' = significant ws := by
  obtain ⟨above, mid, mid', gap₁, rfl, habove, htrim, hmid, hgap₁, htail₁⟩ := exists_trimLeft h.fits h.gap
  have hbody : ReadsBody raw (above ++ (mid ++ [])) gap := by rwa [List.append_nil]
  have h₁ := readsBody_respaced hbody habove nofun hmid hgap₁ htail₁
  obtain ⟨mid₂, below, mid₂', gap₂, rfl, hbelow, htrim₂, hmid₂, hgap₂, htail₂⟩ :=
    exists_trimRight h₁.fits h₁.gap
  have hbody₁ : ReadsBody (textOf (mid₂ ++ below) gap₁) ([] ++ (mid₂ ++ below)) gap₁ := h₁
  have hsig₁ : significant (mid₂ ++ below) = significant (above ++ (mid ++ [])) :=
    significant_middle habove (List.forall_mem_nil _) hmid
  have hsig₂ : significant mid₂' = significant ([] ++ (mid₂ ++ below)) :=
    significant_middle (List.forall_mem_nil _) hbelow (hmid₂ true)
  refine ⟨mid₂', gap₂, ?_, ?_⟩
  · rw [Text.trim, h.text, htrim, htrim₂]
    exact readsBody_respaced hbody₁ (List.forall_mem_nil _) hbelow (hmid₂ true) hgap₂ htail₂
  · rw [hsig₂, List.nil_append, hsig₁, List.append_nil]

end HclTidy
