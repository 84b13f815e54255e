import HclTidy.Proofs.Layout.Granted

/-!
# Rows in canonical layout

What the layout writes for a row is the row in another layout: the white space at its front, around
the `=` of an attribute and in front of a trailing comment is exchanged, and the white space at its
end goes. All else on the line stays.
-/

set_option autoImplicit false

namespace HclTidy

/-- The lexeme without the white space at the end of its first line. -/
def Lexeme.trimFirst (w : Lexeme) : Lexeme := { w with text := Text.trimFirst w.text }

namespace Layout

open Token

/-- Lexemes of one line in another layout; only white space at the end of their first line goes. -/
inductive Relaid : Bool → List Lexeme → List Lexeme → Prop
  | nil {first} : Relaid first [] []
  | cons {first w w' ws ws'} : w'.kind = w.kind →
      (w'.text = w.text ∨ w'.text = Text.trimFirst w.text) → GapChange first w.gap w'.gap →
      Relaid false ws ws' → Relaid first (w :: ws) (w' :: ws')

/-- The same token but for white space at the end of its first line. -/
structure Kept (w w' : Lexeme) : Prop where
  kind : w'.kind = w.kind
  text : w'.text = w.text ∨ w'.text = Text.trimFirst w.text

theorem kept_of_relaid {first : Bool} {ws ws' : List Lexeme} (h : Relaid first ws ws') :
    List.Forall₂ Kept ws ws' := by
  induction h with
  | nil => exact .nil
  | cons hkind htext _ _ ih => exact .cons ⟨hkind, htext⟩ ih

theorem relaid_refl {ws : List Lexeme} (h : ∀ w ∈ ws, isGap w.gap) (first : Bool) :
    Relaid first ws ws := by
  induction ws generalizing first with
  | nil => exact .nil
  | cons w ws ih =>
    exact .cons rfl (.inl rfl) (gapChange_refl (h w (List.mem_cons_self ..)))
      (ih (fun v hv => h v (List.mem_cons_of_mem _ hv)) false)

theorem relaid_append {first : Bool} {us us' ws ws' : List Lexeme} (h : Relaid first us us')
    (hws : Relaid (first && us.isEmpty) ws ws') : Relaid first (us ++ ws) (us' ++ ws') := by
  induction h with
  | nil => simpa using hws
  | cons hkind htext hgap _ ih =>
    refine .cons hkind htext hgap (ih ?_)
    simpa using hws

theorem relaid_trimFirst {first : Bool} {ws ws' : List Lexeme} (h : Relaid first ws ws') :
    Relaid first ws (ws'.map Lexeme.trimFirst) := by
  induction h with
  | nil => exact .nil
  | cons hkind htext hgap _ ih =>
    refine .cons hkind (.inr ?_) hgap ih
    change Text.trimFirst _ = _
    obtain htext | htext := htext
    · rw [htext]
    · rw [htext, Text.trimFirst_idem]

theorem respaced_of_relaid {first : Bool} {ws ws' : List Lexeme} (h : Relaid first ws ws')
    (hk : ∀ w ∈ ws, w.kind ≠ .newline) : Respaced first ws ws' := by
  induction h with
  | nil => exact .nil
  | cons hkind htext hgap hrest ih =>
    rename_i first w w' ws ws'
    have hw := hk w (List.mem_cons_self ..)
    refine .cons hkind ?_ ?_ (fun h => absurd h hw) ?_
    · obtain htext | htext := htext
      · exact .inl htext
      · exact .inr (.inl htext)
    · rwa [decide_eq_false hw, Bool.or_false]
    · rw [decide_eq_false hw]
      exact ih fun v hv => hk v (List.mem_cons_of_mem _ hv)

theorem oneLine_relaid {first : Bool} {ws ws' : List Lexeme} (h : Relaid first ws ws')
    (hws : OneLine ws) : OneLine ws' := by
  induction h with
  | nil => nofun
  | cons hkind htext hgap hrest ih =>
    rename_i first w w' ws ws'
    intro v hv
    obtain rfl | hv := List.mem_cons.mp hv
    · refine ⟨isGap_newline hgap.isGap, ?_⟩
      have hw := (hws w (List.mem_cons_self ..)).2
      obtain htext | htext := htext
      · rwa [htext]
      · rw [htext, ← List.count_eq_zero, Text.count_newline_trimFirst, List.count_eq_zero]
        exact hw
    · exact ih (fun u hu => hws u (List.mem_cons_of_mem _ hu)) v hv

/-! ## The end of a line -/

namespace Segment

/-- The segment stands at the end of its line. -/
structure Ends (s : Segment) : Prop where
  gaps : ∀ w ∈ s.lexemes, isGap w.gap
  gap : isGap s.gap
  heads : ∀ w ∈ s.lexemes, ∃ c t, w.text = c :: t ∧ Text.isBlank c = false
  inner : ∀ w ∈ s.lexemes.dropLast, '\n' ∉ w.text ∧ Text.trimRight w.text = w.text
  last : ∀ w, s.lexemes.getLast? = some w → s.gap ≠ [] →
    '\n' ∉ w.text ∧ Text.trimRight w.text = w.text

/-- The segment without the white space at the end of its line. -/
def trimmed (s : Segment) : Segment := ⟨s.lexemes.map Lexeme.trimFirst, Text.trimRight s.gap⟩

/-- White space that is put between tokens. -/
def isSpaces (t : Text) : Prop := ∀ c ∈ t, c = ' '

theorem isGap_of_isSpaces {t : Text} (h : isSpaces t) : isGap t := by
  intro c hc
  rw [h c hc]
  rfl

theorem isBlankText_of_isSpaces {t : Text} (h : isSpaces t) : Text.isBlankText t := by
  intro c hc
  rw [h c hc]
  rfl

theorem isGap_append {s t : Text} (hs : isGap s) (ht : isGap t) : isGap (s ++ t) := by
  intro c hc
  obtain hc | hc := List.mem_append.mp hc
  · exact hs c hc
  · exact ht c hc

theorem gapChange_front {free : Bool} {gap front : Text} (hg : isGap gap) (hf : isSpaces front)
    (hfree : front = [] → free = true) : GapChange free gap (front ++ Text.trimLeft gap) := by
  refine ⟨isGap_append (isGap_of_isSpaces hf) (isGap_trimLeft hg), ?_, ?_⟩
  · intro hnil
    exact .inr (hfree (List.append_eq_nil_iff.mp hnil).1)
  · intro hb c hc
    obtain hc | hc := List.mem_append.mp hc
    · exact isBlankText_of_isSpaces hf c hc
    · exact hb c (Text.trimLeft_subset _ hc)

theorem gapChange_back {gap gap' : Text} (back : Text) (h : GapChange true gap gap') (hb : isSpaces back) :
    GapChange (back = []) gap (Text.trimRight gap' ++ back) := by
  refine ⟨isGap_append (isGap_trimRight h.isGap) (isGap_of_isSpaces hb), ?_, ?_⟩
  · intro hnil
    exact .inr (decide_eq_true (List.append_eq_nil_iff.mp hnil).2)
  · intro hblank c hc
    obtain hc | hc := List.mem_append.mp hc
    · exact h.blank hblank c (Text.trimRight_subset _ hc)
    · exact isBlankText_of_isSpaces hb c hc

theorem relaid_setFront {s : Segment} {front : Text} {first : Bool}
    (h : ∀ w ∈ s.lexemes, isGap w.gap) (hf : isSpaces front) (hfree : front = [] → first = true) :
    Relaid first s.lexemes (s.setFront front).lexemes := by
  obtain ⟨ws, gap⟩ := s
  cases ws with
  | nil => exact .nil
  | cons w ws =>
    refine .cons rfl (.inl rfl) (gapChange_front (h w (List.mem_cons_self ..)) hf hfree) ?_
    exact relaid_refl (fun v hv => h v (List.mem_cons_of_mem _ hv)) false

theorem ends_setFront {s : Segment} {front : Text} (h : s.Ends) (hf : isSpaces front) :
    (s.setFront front).Ends := by
  obtain ⟨ws, gap⟩ := s
  obtain ⟨hgaps, hgap, hheads, hinner, hlast⟩ := h
  cases ws with
  | nil => exact ⟨nofun, isGap_append (isGap_of_isSpaces hf) (isGap_trimLeft hgap), nofun, nofun, nofun⟩
  | cons w ws =>
    refine ⟨?_, hgap, ?_, ?_, ?_⟩
    · intro v hv
      obtain rfl | hv := List.mem_cons.mp hv
      · exact isGap_append (isGap_of_isSpaces hf) (isGap_trimLeft (hgaps w (List.mem_cons_self ..)))
      · exact hgaps v (List.mem_cons_of_mem _ hv)
    · intro v hv
      obtain rfl | hv := List.mem_cons.mp hv
      · exact hheads w (List.mem_cons_self ..)
      · exact hheads v (List.mem_cons_of_mem _ hv)
    · intro v hv
      cases ws with
      | nil => cases hv
      | cons u ws =>
        obtain rfl | hv := List.mem_cons.mp hv
        · exact hinner w (List.mem_cons_self ..)
        · exact hinner v (List.mem_cons_of_mem _ hv)
    · intro v hv hne
      cases ws with
      | nil =>
        cases hv
        exact hlast w rfl hne
      | cons u ws => exact hlast v hv hne

theorem firm_setFront {s : Segment} {front : Text} (h : s.Firm) (hf : isSpaces front) :
    (s.setFront front).Firm := by
  obtain ⟨ws, gap⟩ := s
  obtain ⟨hgaps, hgap, hheads, hends⟩ := h
  cases ws with
  | nil => exact ⟨nofun, isGap_append (isGap_of_isSpaces hf) (isGap_trimLeft hgap), nofun, nofun⟩
  | cons w ws =>
    have hw := List.mem_cons_self (a := w) (l := ws)
    refine ⟨?_, hgap, ?_, ?_⟩
    · intro v hv
      obtain rfl | hv := List.mem_cons.mp hv
      · exact isGap_append (isGap_of_isSpaces hf) (isGap_trimLeft (hgaps w hw))
      · exact hgaps v (List.mem_cons_of_mem _ hv)
    · intro v hv
      obtain rfl | hv := List.mem_cons.mp hv
      · exact hheads w hw
      · exact hheads v (List.mem_cons_of_mem _ hv)
    · intro v hv
      obtain rfl | hv := List.mem_cons.mp hv
      · exact hends w hw
      · exact hends v (List.mem_cons_of_mem _ hv)

/-- The gap behind a segment changes only when nothing else is in front of it. -/
theorem gapChange_setFront {s : Segment} {front : Text} (hg : isGap s.gap) (hf : isSpaces front) :
    GapChange true s.gap (s.setFront front).gap := by
  obtain ⟨ws, gap⟩ := s
  cases ws with
  | nil => exact gapChange_front hg hf fun _ => rfl
  | cons w ws => exact gapChange_refl hg

theorem map_trimFirst_eq {ws : List Lexeme}
    (h : ∀ w ∈ ws, '\n' ∉ w.text ∧ Text.trimRight w.text = w.text) :
    ws.map Lexeme.trimFirst = ws := by
  induction ws with
  | nil => rfl
  | cons w ws ih =>
    obtain ⟨hn, ht⟩ := h w (List.mem_cons_self ..)
    have hw : w.trimFirst = w := by rw [Lexeme.trimFirst, Text.trimFirst_of_not_mem hn, ht]
    rw [List.map_cons, hw, ih fun v hv => h v (List.mem_cons_of_mem _ hv)]

theorem firstLine_append {a : Text} (b : Text) (h : '\n' ∉ a) : firstLine (a ++ b) = a ++ firstLine b :=
  List.takeWhile_append_of_pos fun _ hc => decide_eq_true fun he => h (he ▸ hc)

theorem firstLine_trimFirst {text gap : Text} (hg : '\n' ∉ gap)
    (h : gap ≠ [] → '\n' ∉ text ∧ Text.trimRight text = text) :
    firstLine (Text.trimFirst text ++ Text.trimRight gap) = Text.trimRight (firstLine (text ++ gap)) := by
  have hgn := Text.newline_not_mem_trimRight hg
  by_cases hnil : gap = []
  · subst hnil
    rw [Text.trimRight_nil, List.append_nil, List.append_nil]
    obtain hn | ⟨a, b, ha, rfl⟩ := Text.eq_or_append_newline text
    · rw [Text.trimFirst_of_not_mem hn, firstLine_of_not_mem (Text.newline_not_mem_trimRight hn),
        firstLine_of_not_mem hn]
    · rw [Text.trimFirst_append_newline b ha,
        firstLine_append_newline b (Text.newline_not_mem_trimRight ha),
        firstLine_append_newline b ha]
  · obtain ⟨hn, ht⟩ := h hnil
    rw [Text.trimFirst_of_not_mem hn, ht, firstLine_append _ hn, firstLine_append _ hn,
      firstLine_of_not_mem hg, firstLine_of_not_mem hgn, trimRight_gap ht]

/-- A line that loses the white space at its end. -/
theorem firstLine_trimmed {s : Segment} (h : s.Ends) :
    firstLine s.trimmed.text = Text.trimRight (firstLine s.text) := by
  obtain ⟨ws, gap⟩ := s
  obtain ⟨hgaps, hgap, hheads, hinner, hlast⟩ := h
  have hgn := isGap_newline hgap
  obtain rfl | ⟨us, w, rfl⟩ := List.eq_nil_or_concat' ws
  · change firstLine (Text.trimRight gap) = Text.trimRight (firstLine gap)
    rw [firstLine_of_not_mem hgn, firstLine_of_not_mem (Text.newline_not_mem_trimRight hgn)]
  · have hus : ∀ v ∈ us, '\n' ∉ v.text ∧ Text.trimRight v.text = v.text := by
      intro v hv
      exact hinner v (by simpa using hv)
    have hw := hlast w (by simp)
    have hone : OneLine us := fun v hv => ⟨isGap_newline (hgaps v (by simp [hv])), (hus v hv).1⟩
    have hwgap : '\n' ∉ textOf us w.gap :=
      newline_not_mem_textOf hone (isGap_newline (hgaps w (by simp)))
    have hsplit (t g : Text) : textOf us (w.gap ++ (t ++ g)) = textOf us w.gap ++ (t ++ g) := by
      rw [textOf_eq_append, textOf_eq_append us w.gap, List.append_assoc]
    obtain ⟨c, t, ht, hc⟩ := hheads w (by simp)
    have hcn : c ≠ '\n' := by
      rintro rfl
      cases hc
    have hne : Text.trimRight (firstLine (w.text ++ gap)) ≠ [] := by
      rw [ht, List.cons_append, firstLine, List.takeWhile_cons_of_pos (by simpa using hcn),
        Text.trimRight_cons_of_not_blank _ hc]
      simp
    simp only [text, trimmed, List.map_append, List.map_cons, List.map_nil]
    rw [map_trimFirst_eq hus, textOf_concat, textOf_concat, hsplit]
    change firstLine (textOf us (w.gap ++ (Text.trimFirst w.text ++ Text.trimRight gap))) = _
    rw [hsplit, firstLine_append _ hwgap, firstLine_append _ hwgap, firstLine_trimFirst hgn hw,
      Text.trimRight_append hne]

end Segment

/-! ## A row -/

theorem isSpaces_replicate (n : Nat) : Segment.isSpaces (List.replicate n ' ') :=
  fun _ hc => List.eq_of_mem_replicate hc

theorem isSpaces_indentation (n : Nat) : Segment.isSpaces (indentation n) := isSpaces_replicate _

theorem ends_of_ok {r : LexRow} (h : r.Ok) {front us : List Lexeme} (hsplit : r.lexemes = front ++ us)
    : Segment.Ends ⟨us, r.tail⟩ := by
  have hmem : ∀ w ∈ us, w ∈ r.lexemes := fun w hw => by rw [hsplit]; exact List.mem_append_right _ hw
  refine ⟨fun w hw => h.gaps w (hmem w hw), h.tail, fun w hw => h.heads w (hmem w hw), ?_, ?_⟩
  · intro w hw
    refine h.inner w ?_
    rw [hsplit, List.dropLast_append_of_ne_nil (List.ne_nil_of_mem (List.dropLast_subset _ hw))]
    exact List.mem_append_right _ hw
  · intro w hw hne
    have hlast : r.lexemes.getLast? = some w := by
      rw [hsplit, List.getLast?_append, hw]
      rfl
    exact ⟨(h.last w hlast hne).1, (h.last w hlast hne).2.1⟩

theorem firm_of_ok {r : LexRow} (h : r.Ok) {gap : Text} (front us rest : List Lexeme)
    (hsplit : r.lexemes = front ++ (us ++ rest)) (hrest : rest ≠ []) (hg : isGap gap) :
    Segment.Firm ⟨us, gap⟩ ∧ OneLine us := by
  have hmem : ∀ w ∈ us, w ∈ r.lexemes := fun w hw => by rw [hsplit]; simp [hw]
  have hinner : ∀ w ∈ us, '\n' ∉ w.text ∧ Text.trimRight w.text = w.text := by
    intro w hw
    refine h.inner w ?_
    rw [hsplit, ← List.append_assoc, List.dropLast_append_of_ne_nil hrest]
    simp [hw]
  refine ⟨⟨fun w hw => h.gaps w (hmem w hw), hg, fun w hw => h.heads w (hmem w hw),
    fun w hw => (hinner w hw).2⟩, ?_⟩
  exact fun w hw => ⟨isGap_newline (h.gaps w (hmem w hw)), (hinner w hw).1⟩

/-- A comment with the space in front of it. -/
def remarkText (pad : Nat) : Option Lexeme → Text
  | none => []
  | some comment => List.replicate pad ' ' ++ ' ' :: Text.trimRight comment.text

/-- Code and comment as they are written behind `front`. -/
def Parts.lineEnd (front : Text) (pad : Nat) (p : Parts) (tail : Text) : Text :=
  Text.trimRight (front ++ Text.trimLeft (firstLine (textOf p.code (p.gap tail)))) ++
    remarkText pad p.comment

theorem firstLine_setFront {s : Segment} {front : Text} (hf : Segment.isSpaces front)
    (hg : '\n' ∉ s.gap) (hgaps : ∀ w ∈ s.lexemes, isGap w.gap)
    (h : ∀ w ∈ s.lexemes, ∃ c t, w.text = c :: t ∧ Text.isBlank c = false) :
    firstLine (s.setFront front).text = front ++ Text.trimLeft (firstLine s.text) := by
  have hfn : '\n' ∉ front := isGap_newline (Segment.isGap_of_isSpaces hf)
  obtain ⟨ws, gap⟩ := s
  rw [Segment.setFront_text _ h, Segment.firstLine_append _ hfn]
  congr 1
  cases ws with
  | nil =>
    have hgap : '\n' ∉ Text.trimLeft gap := fun hn => hg (Text.trimLeft_subset _ hn)
    change firstLine (Text.trimLeft gap) = Text.trimLeft (firstLine gap)
    rw [firstLine_of_not_mem hg, firstLine_of_not_mem hgap]
  | cons w ws =>
    have hw := h w (List.mem_cons_self ..)
    have hwn := isGap_newline (hgaps w (List.mem_cons_self ..))
    have hwt : '\n' ∉ Text.trimLeft w.gap := fun hn => hwn (Text.trimLeft_subset _ hn)
    simp only [Segment.text, textOf_cons]
    rw [Segment.trimLeft_token _ hw, Segment.firstLine_append _ hwt, Segment.firstLine_append _ hwn]
    obtain ⟨c, t, ht, hc⟩ := hw
    have hcn : c ≠ '\n' := by
      rintro rfl
      cases hc
    have hhead : firstLine (w.text ++ textOf ws gap) = [c] ++ firstLine (t ++ textOf ws gap) := by
      rw [ht, List.cons_append, ← List.singleton_append, Segment.firstLine_append]
      simpa using Ne.symm hcn
    rw [hhead, Segment.trimLeft_token _ ⟨c, [], rfl, hc⟩]

/-- What is written for code and comment. -/
theorem relaid_lineEnd {r : LexRow} (hok : r.Ok) {p : Parts} (before : List Lexeme)
    (hsplit : r.lexemes = before ++ (p.code ++ p.comment.toList))
    (hcomment : ∀ c, p.comment = some c → '\n' ∉ c.text ∧ Text.isBlankText r.tail)
    {front : Text} (hf : Segment.isSpaces front) (first : Bool) (hfree : front = [] → first = true)
    (pad : Nat) :
    ∃ us tail, firstLine (textOf us tail) = p.lineEnd front pad r.tail ∧
      Relaid first (p.code ++ p.comment.toList) us ∧ GapChange true r.tail tail ∧
      (r.tail = [] → tail = []) := by
  obtain ⟨name, code, comment⟩ := p
  have hgaps : ∀ w ∈ code, isGap w.gap := fun w hw => hok.gaps w (by rw [hsplit]; simp [hw])
  have hheads : ∀ w ∈ code, ∃ c t, w.text = c :: t ∧ Text.isBlank c = false :=
    fun w hw => hok.heads w (by rw [hsplit]; simp [hw])
  unfold Parts.lineEnd Parts.gap
  cases comment with
  | none =>
    simp only [Option.toList_none, List.append_nil, remarkText] at hsplit ⊢
    have hends := ends_of_ok hok hsplit
    have hfront := Segment.ends_setFront hends hf
    have hrelaid := relaid_trimFirst
      (Segment.relaid_setFront (s := ⟨code, r.tail⟩) hgaps hf hfree)
    have hgap := Segment.gapChange_setFront (s := ⟨code, r.tail⟩) hok.tail hf
    refine ⟨_, Text.trimRight ((⟨code, r.tail⟩ : Segment).setFront front).gap, ?_, hrelaid, ?_, ?_⟩
    · have hcode := firstLine_setFront (s := ⟨code, r.tail⟩) hf (isGap_newline hok.tail) hgaps hheads
      exact (Segment.firstLine_trimmed hfront).trans (congrArg Text.trimRight hcode)
    · have hback := Segment.gapChange_back [] hgap nofun
      rwa [List.append_nil] at hback
    · intro hnil
      refine Text.trimRight_eq_nil_iff.mpr (hgap.blank ?_)
      change Text.isBlankText r.tail
      rw [hnil]
      nofun
  | some c =>
    obtain ⟨hn, hb⟩ := hcomment c rfl
    have hcgap : isGap c.gap := hok.gaps c (by rw [hsplit]; simp)
    obtain ⟨hfirm, hone⟩ := firm_of_ok hok before code [c] hsplit (by simp) hcgap
    have hfirm' := Segment.firm_setFront hfirm hf
    have hrelaid := Segment.relaid_setFront (s := ⟨code, c.gap⟩) hgaps hf hfree
    have hspaces : Segment.isSpaces (List.replicate pad ' ' ++ [' ']) := by
      rw [← List.replicate_succ']
      exact isSpaces_replicate _
    have hgap := Segment.gapChange_back _ (Segment.gapChange_setFront (s := ⟨code, c.gap⟩) hcgap hf)
      hspaces
    have hback := Segment.setBack_text (List.replicate pad ' ' ++ [' ']) hfirm'
    have hcode := firstLine_setFront (s := ⟨code, c.gap⟩) hf (isGap_newline hcgap) hgaps hheads
    generalize (⟨code, c.gap⟩ : Segment).setFront front = s at hfirm' hrelaid hgap hback hcode
    have hs : '\n' ∉ s.text :=
      newline_not_mem_textOf (oneLine_relaid hrelaid hone) (isGap_newline hfirm'.gap)
    rw [firstLine_of_not_mem hs] at hcode
    have htext : textOf (s.lexemes ++ [⟨(s.setBack (List.replicate pad ' ' ++ [' '])).gap, c.kind,
        Text.trimFirst c.text⟩]) [] =
        Text.trimRight s.text ++ (List.replicate pad ' ' ++ ' ' :: Text.trimRight c.text) := by
      rw [textOf_concat, textOf_eq_append, Text.trimFirst_of_not_mem hn, List.append_nil,
        ← List.append_assoc, ← textOf_eq_append]
      change (s.setBack (List.replicate pad ' ' ++ [' '])).text ++ _ = _
      rw [hback]
      simp
    refine ⟨s.lexemes ++ [⟨(s.setBack (List.replicate pad ' ' ++ [' '])).gap, c.kind,
      Text.trimFirst c.text⟩], [], ?_, ?_, ⟨nofun, fun _ => .inr rfl, fun _ => nofun⟩, fun _ => rfl⟩
    · rw [htext, firstLine_of_not_mem, hcode]
      · rfl
      · simp only [List.mem_append, List.mem_cons, not_or]
        exact ⟨Text.newline_not_mem_trimRight hs, isGap_newline (Segment.isGap_of_isSpaces
          (isSpaces_replicate pad)), by decide, Text.newline_not_mem_trimRight hn⟩
    · refine relaid_append hrelaid (.cons rfl (.inr rfl) ?_ .nil)
      refine ⟨hgap.isGap, fun hnil => ?_, hgap.blank⟩
      simp [Segment.setBack] at hnil

theorem trimRight_mark (a : Text) {c : Char} (b : Text) (hc : Text.isBlank c = false) :
    Text.trimRight (a ++ c :: b) = a ++ c :: Text.trimRight b := by
  rw [Text.trimRight_append, Text.trimRight_cons_of_not_blank b hc]
  rw [Text.trimRight_cons_of_not_blank b hc]
  simp

theorem trimRight_remark {front : Text} {comment : Lexeme} (pad : Nat)
    (h : ∃ c t, comment.text = c :: t ∧ Text.isBlank c = false) :
    Text.trimRight (front ++ remarkText pad (some comment)) =
      front ++ remarkText pad (some comment) := by
  obtain ⟨c, t, ht, hc⟩ := h
  have hright : Text.trimRight comment.text = c :: Text.trimRight t := by
    rw [ht, Text.trimRight_cons_of_not_blank t hc]
  have hsplit : front ++ remarkText pad (some comment) =
      front ++ List.replicate pad ' ' ++ [' '] ++ c :: Text.trimRight t := by
    simp [remarkText, hright]
  rw [hsplit, trimRight_mark _ _ hc, Text.trimRight_idem]

/-- The padding that puts a comment in its column. -/
theorem withComment_eq (width indent : Nat) (code : Text) (comment : Option Lexeme) :
    ∃ pad, Cell.withComment width indent code (comment.map fun c => Text.trimRight c.text) =
      code ++ remarkText pad comment := by
  cases comment with
  | none => exact ⟨0, (List.append_nil code).symm⟩
  | some c =>
    refine ⟨width - 2 * indent - code.length, ?_⟩
    simp [Cell.withComment, Cell.remark, Text.padRight, remarkText]

theorem Parts.written_cell {p : Parts} {indent : Nat} {tail out : Text}
    (h : (p.cell indent tail).WrittenAs out) :
    ∃ nameWidth pad, out = Text.trimRight (indentation indent ++
      (Cell.withName nameWidth (Text.trim (firstLine (textOf p.code (p.gap tail))))
        (p.name.map fun q => Text.trim (q.1.gap ++ q.1.text ++ q.2.gap)) ++ remarkText pad p.comment)) := by
  obtain ⟨nameWidth, width, rfl⟩ := h
  obtain ⟨pad, hpad⟩ := withComment_eq width indent (Cell.withName nameWidth
    (Text.trim (firstLine (textOf p.code (p.gap tail))))
    (p.name.map fun q => Text.trim (q.1.gap ++ q.1.text ++ q.2.gap))) p.comment
  refine ⟨nameWidth, pad, ?_⟩
  rw [← hpad]

/-- Code without a name in front of it. -/
theorem written_plain {indent pad : Nat} {p : Parts} {tail : Text}
    (hne : p.comment ≠ none → Text.trim (firstLine (textOf p.code (p.gap tail))) ≠ [])
    (hc : ∀ c, p.comment = some c → ∃ d t, c.text = d :: t ∧ Text.isBlank d = false) :
    Text.trimRight (indentation indent ++
        (Text.trim (firstLine (textOf p.code (p.gap tail))) ++ remarkText pad p.comment)) =
      p.lineEnd (indentation indent) pad tail := by
  unfold Parts.lineEnd
  generalize firstLine (textOf p.code (p.gap tail)) = line at hne
  cases hcomment : p.comment with
  | none =>
    rw [remarkText, List.append_nil, List.append_nil, Text.trim, Text.trimRight_append_trimRight]
  | some c =>
    rw [← List.append_assoc, trimRight_remark pad (hc c hcomment), Text.trim,
      Text.trimRight_append (hne (by rw [hcomment]; simp))]

/-- Code behind a name and `=`. -/
theorem written_named {front name : Text} {nameWidth pad : Nat} {p : Parts} {tail : Text}
    (hc : ∀ c, p.comment = some c → ∃ d t, c.text = d :: t ∧ Text.isBlank d = false) :
    Text.trimRight (front ++ (Cell.assigned nameWidth name
        (Text.trim (firstLine (textOf p.code (p.gap tail)))) ++ remarkText pad p.comment)) =
      front ++ (Text.padRight nameWidth name ++ ' ' :: '=' :: p.lineEnd [' '] pad tail) := by
  unfold Parts.lineEnd
  generalize firstLine (textOf p.code (p.gap tail)) = line
  have hassigned : Cell.assigned nameWidth name (Text.trim line) =
      Text.padRight nameWidth name ++ [' '] ++ '=' :: Text.trimRight ([' '] ++ Text.trimLeft line) := by
    rw [Cell.assigned, ← Text.trimRight_append_trimRight [' '], ← Text.trim,
      ← trimRight_mark _ _ (by decide)]
    simp
  rw [hassigned]
  cases hcomment : p.comment with
  | none =>
    rw [remarkText, List.append_nil, List.append_nil, ← List.append_assoc,
      trimRight_mark _ _ (by decide), Text.trimRight_idem]
    simp
  | some c =>
    rw [← List.append_assoc, trimRight_remark pad (hc c hcomment)]
    simp

/-- `out` is what may be written for a row: its lexemes in another layout. Layout characters behind
them do not appear where there were none, and vanish on a line without tokens. -/
def RelaidAs (r : LexRow) (out : Text) : Prop :=
  ∃ us tail, out = r.lead.getD [] ++ firstLine (textOf us tail) ∧
    Relaid r.lead.isNone r.lexemes us ∧ GapChange true r.tail tail ∧
    (r.tail = [] ∨ r.lead = none ∧ r.lexemes = [] → tail = [])

/-- Code is not blank. -/
theorem trim_code_ne_nil {r : LexRow} (hok : r.Ok) {code : List Lexeme} (hcode : ∀ w ∈ code, w ∈ r.lexemes)
    (hne : code ≠ []) (gap : Text) : Text.trim (firstLine (textOf code gap)) ≠ [] := by
  obtain ⟨w, ws, rfl⟩ := List.exists_cons_of_ne_nil hne
  have hmem := hcode w (List.mem_cons_self ..)
  obtain ⟨d, t, ht, hd⟩ := hok.heads w hmem
  have hdn : d ≠ '\n' := by
    rintro rfl
    cases hd
  have hline : d ∈ firstLine (textOf (w :: ws) gap) := by
    rw [textOf_cons, ht, Segment.firstLine_append _ (isGap_newline (hok.gaps w hmem)),
      List.cons_append, firstLine, List.takeWhile_cons_of_pos (by simpa using hdn)]
    simp
  intro hnil
  rw [Text.trim_eq_nil_iff.mp hnil d hline] at hd
  cases hd

theorem trim_name_ne_nil {r : LexRow} (hok : r.Ok) {w : Lexeme} (hw : w ∈ r.lexemes) (front back : Text) :
    Text.trim (front ++ w.text ++ back) ≠ [] := by
  obtain ⟨d, t, ht, hd⟩ := hok.heads w hw
  intro hnil
  rw [Text.trim_eq_nil_iff.mp hnil d (by rw [ht]; simp)] at hd
  cases hd

theorem relaidAs_plain {r : LexRow} (hok : r.Ok) (hlead : r.lead = none) {p : Parts} {indent pad : Nat}
    (hne : r.lexemes ≠ []) (hsplit : r.lexemes = p.code ++ p.comment.toList)
    (hcomment : ∀ c, p.comment = some c → p.code ≠ [] ∧ '\n' ∉ c.text ∧ Text.isBlankText r.tail) :
    RelaidAs r (Text.trimRight (indentation indent ++
      (Text.trim (firstLine (textOf p.code (p.gap r.tail))) ++ remarkText pad p.comment))) := by
  have hheads : ∀ c, p.comment = some c → ∃ d t, c.text = d :: t ∧ Text.isBlank d = false :=
    fun c hc => hok.heads c (by rw [hsplit, hc]; simp)
  obtain ⟨us, tail, htext, hrelaid, hgap, hnil⟩ := relaid_lineEnd hok [] hsplit
    (fun c hc => (hcomment c hc).2) (isSpaces_indentation indent) true (fun _ => rfl) pad
  refine ⟨us, tail, ?_, ?_, hgap, fun h => hnil (h.resolve_right fun h => hne h.2)⟩
  · rw [htext, hlead, written_plain ?_ hheads]
    · rfl
    · intro hne
      obtain ⟨c, hc⟩ := Option.ne_none_iff_exists'.mp hne
      refine trim_code_ne_nil hok (fun w hw => ?_) (hcomment c hc).1 _
      rw [hsplit]
      exact List.mem_append_left _ hw
  · rw [hlead, hsplit]
    exact hrelaid

theorem relaidAs_named {r : LexRow} (hok : r.Ok) (hlead : r.lead = none) {p : Parts}
    {indent nameWidth pad : Nat} {name equal : Lexeme}
    (hsplit : r.lexemes = name :: equal :: (p.code ++ p.comment.toList)) (hequal : equal.kind = .equal)
    (hcomment : ∀ c, p.comment = some c → '\n' ∉ c.text ∧ Text.isBlankText r.tail) :
    RelaidAs r (Text.trimRight (indentation indent ++ (Cell.assigned nameWidth
      (Text.trim (name.gap ++ name.text ++ equal.gap))
      (Text.trim (firstLine (textOf p.code (p.gap r.tail)))) ++ remarkText pad p.comment))) := by
  have hheads : ∀ c, p.comment = some c → ∃ d t, c.text = d :: t ∧ Text.isBlank d = false :=
    fun c hc => hok.heads c (by rw [hsplit, hc]; simp)
  have hmark : equal.text = ['='] := hok.equal equal (by rw [hsplit]; simp) hequal
  have hgap : isGap equal.gap := hok.gaps equal (by rw [hsplit]; simp)
  obtain ⟨us, tail, htext, hrelaid, htail, hnil⟩ := relaid_lineEnd hok [name, equal] hsplit
    hcomment (show Segment.isSpaces [' '] from fun _ hc => List.mem_singleton.mp hc) false nofun pad
  obtain ⟨hfirm, hone⟩ := firm_of_ok hok [] [name] (equal :: _) hsplit
    (by simp) hgap
  have hspaces (n : Nat) : Segment.isSpaces (List.replicate n ' ' ++ [' ']) := by
    rw [← List.replicate_succ']
    exact isSpaces_replicate _
  have hind := isSpaces_indentation indent
  have hfront := Segment.setFront_text (indentation indent) hfirm.heads
  have hfirm' := Segment.firm_setFront hfirm hind
  have hname := trim_name_ne_nil hok (w := name) (by rw [hsplit]; simp) name.gap equal.gap
  generalize hn : Text.trim (name.gap ++ name.text ++ equal.gap) = nameText at hname
  generalize hb : List.replicate (nameWidth - nameText.length) ' ' ++ [' '] = back
  have hbs : Segment.isSpaces back := by
    rw [← hb]
    exact hspaces _
  have hback := Segment.setBack_text back hfirm'
  have hleft : Text.trimRight (indentation indent ++ Text.trimLeft (⟨[name], equal.gap⟩ : Segment).text) =
      indentation indent ++ nameText := by
    have hseg : (⟨[name], equal.gap⟩ : Segment).text = name.gap ++ name.text ++ equal.gap := by
      simp [Segment.text, textOf_cons]
    rw [hseg, Text.trimRight_append, ← Text.trim, hn]
    rw [← Text.trim, hn]
    exact hname
  rw [hfront, hleft] at hback
  refine ⟨⟨indentation indent ++ Text.trimLeft name.gap, name.kind, name.text⟩ ::
    ⟨Text.trimRight equal.gap ++ back, equal.kind, equal.text⟩ :: us, tail, ?_, ?_, htail,
    fun h => hnil (h.resolve_right fun h => by rw [hsplit] at h; cases h.2)⟩
  · have hnt : '\n' ∉ nameText := by
      intro hm
      rw [← hn] at hm
      have hmem := Text.trim_subset _ hm
      simp only [List.mem_append] at hmem
      obtain ⟨hg, ht⟩ := hone name (List.mem_singleton.mpr rfl)
      exact hmem.elim (fun h => h.elim hg ht) (isGap_newline hgap)
    have hbn : '\n' ∉ indentation indent ++ nameText ++ back ++ ['='] := by
      simp only [List.mem_append, List.mem_singleton, not_or]
      exact ⟨⟨⟨isGap_newline (Segment.isGap_of_isSpaces hind), hnt⟩,
        isGap_newline (Segment.isGap_of_isSpaces hbs)⟩, by decide⟩
    have hline : textOf (⟨indentation indent ++ Text.trimLeft name.gap, name.kind, name.text⟩ ::
        ⟨Text.trimRight equal.gap ++ back, equal.kind, equal.text⟩ :: us) tail =
        indentation indent ++ nameText ++ back ++ ['='] ++ textOf us tail := by
      rw [← hback]
      simp [Segment.setFront, Segment.setBack, Segment.text, textOf_cons, hmark]
    rw [written_named hheads, hline, Segment.firstLine_append _ hbn, htext, hlead, ← hb]
    simp [Text.padRight]
  · have hbne : decide (back = []) = false := by
      rw [← hb]
      simp
    have hequalGap := Segment.gapChange_back _ (gapChange_refl hgap) hbs
    rw [hbne] at hequalGap
    rw [hlead, hsplit]
    exact .cons rfl (.inl rfl) (Segment.gapChange_front (hfirm.gaps name (List.mem_singleton.mpr rfl))
      hind fun _ => rfl) (.cons rfl (.inl rfl) hequalGap hrelaid)

/-! ## The cell of a row -/

/-- The number of brackets that a line leaves open. -/
def pendingOf (openings : Openings) (tokens : List Token) : Nat :=
  (netBrackets 0 (closeLeading openings tokens).1 (closeLeading openings tokens).2).1

theorem cell_of_lead {r : LexRow} (openings : Openings) {lead : Text} (h : r.lead = some lead) :
    r.cell openings = .verbatim r.text := by
  have hcont : r.row.continued = true := by simp [LexRow.row, h]
  unfold LexRow.cell lineOf
  simp only [hcont, if_true]
  rfl

theorem cell_of_nil {r : LexRow} (openings : Openings) (hlead : r.lead = none)
    (h : r.lexemes = []) : r.cell openings = .free 0 none [] none := by
  have hcont : r.row.continued = false := by simp [LexRow.row, hlead]
  have hempty : r.row.tokens.isEmpty = true := by simp [LexRow.row, h, tokensAt]
  unfold LexRow.cell lineOf
  simp only [hcont, Bool.false_eq_true, if_false, hempty, if_true, h, List.isEmpty_nil]

theorem cell_of_ne_nil {r : LexRow} (hok : r.Ok) (openings : Openings) (hlead : r.lead = none)
    (h : r.lexemes ≠ []) :
    r.cell openings =
      (r.parts (decide (pendingOf openings r.row.tokens = 0) && isAssignment r.lexemes)).cell
        (closeLeading openings r.row.tokens).1.length r.tail := by
  have hcont : r.row.continued = false := by simp [LexRow.row, hlead]
  obtain ⟨w, ws, hws⟩ := List.exists_cons_of_ne_nil h
  have hempty : r.row.tokens.isEmpty = false := by simp [LexRow.row, hws, tokensAt]
  have hlexemes : r.lexemes.isEmpty = false := by rw [hws]; rfl
  have hassign : (assignmentOf? r.row).isSome = isAssignment r.lexemes := by
    cases hcase : isAssignment r.lexemes with
    | false => rw [assignmentOf?_of_false hcase]; rfl
    | true =>
      obtain ⟨name, equal, more, heq, -⟩ := exists_of_isAssignment hcase
      rw [assignmentOf?_of_true hok heq hlead hcase]
      rfl
  unfold LexRow.cell lineOf pendingOf
  simp only [hcont, Bool.false_eq_true, if_false, hempty, hlexemes]
  by_cases hp : (netBrackets 0 (closeLeading openings r.row.tokens).1
      (closeLeading openings r.row.tokens).2).1 = 0
  · simp only [hp, if_true, hassign, decide_true, Bool.true_and]
  · simp only [hp, if_false, decide_false, Bool.false_and, Option.isSome_none]

theorem withName_cell {nameWidth : Nat} {code : Text} {name equal : Lexeme} :
    Cell.withName nameWidth code
        ((some (name, equal)).map fun p : Lexeme × Lexeme =>
          Text.trim (p.1.gap ++ p.1.text ++ p.2.gap)) =
      Cell.assigned nameWidth (Text.trim (name.gap ++ name.text ++ equal.gap)) code := rfl

/-- What is written for the cell of a row is the row in another layout. -/
theorem relaidAs_of_writtenAs {r : LexRow} (hok : r.Ok) {openings : Openings} {out : Text}
    (h : (r.cell openings).WrittenAs out) : RelaidAs r out := by
  cases hlead : r.lead with
  | some lead =>
    rw [cell_of_lead openings hlead] at h
    refine ⟨r.lexemes, r.tail, h.trans ?_, relaid_refl hok.gaps _, gapChange_refl hok.tail, ?_⟩
    · rw [LexRow.text]
    · rintro (h | ⟨h, -⟩)
      · exact h
      · rw [hlead] at h
        cases h
  | none =>
    by_cases hws : r.lexemes = []
    · rw [cell_of_nil openings hlead hws] at h
      obtain ⟨nameWidth, width, rfl⟩ := h
      refine ⟨[], [], ?_, ?_, ⟨List.forall_mem_nil _, fun _ => .inr rfl, fun _ => List.forall_mem_nil _⟩, fun _ => rfl⟩
      · rw [hlead]
        rfl
      · rw [hws]
        exact .nil
    · rw [cell_of_ne_nil hok openings hlead hws] at h
      generalize hnamed : (decide (pendingOf openings r.row.tokens = 0) && isAssignment r.lexemes) =
        named at h
      obtain ⟨nameWidth, pad, rfl⟩ := Parts.written_cell h
      have hlex := r.parts_lexemes named
      have hsome : ∀ c, (r.parts named).comment = some c → _ := fun c => parts_comment_some
      unfold Parts.lexemes at hlex
      cases named with
      | false =>
        have hname := parts_false_name r
        rw [hname] at hlex ⊢
        refine relaidAs_plain hok hlead hws hlex.symm ?_
        intro c hc
        obtain ⟨hlen, -, hn, hb⟩ := hsome c hc
        refine ⟨?_, hn, hb⟩
        intro hnil
        rw [← hlex, hnil, hc] at hlen
        simp at hlen
      | true =>
        rw [Bool.and_eq_true] at hnamed
        obtain ⟨name, equal, more, heq, hequal⟩ := exists_of_isAssignment hnamed.2
        obtain ⟨hname, hmore⟩ := parts_true heq
        rw [hname, withName_cell]
        refine relaidAs_named hok hlead (by rw [hmore, heq]) hequal ?_
        intro c hc
        exact (hsome c hc).2.2

end Layout

end HclTidy
