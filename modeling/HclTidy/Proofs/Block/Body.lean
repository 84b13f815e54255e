import HclTidy.Block.Parser
import HclTidy.Proofs.Expr.Simulation

/-!
# Bodies that read alike

A body that is read off one of two token lists that read alike is read off the other too; where the
comparison is exact, it is the same body. Bodies end in front of a closing brace.
-/

set_option autoImplicit false

namespace HclTidy

/-! ## Comparisons up to closing braces -/

/-- What stands behind the items of a body: the closing brace and what follows it. -/
structure Ending where
  brace : Token
  after : List Token
  kind : brace.kind = .rbrace

/-- The tokens from the end of the last item of a body on. -/
def Ending.Ends (e : Ending) (ts : List Token) : Prop :=
  ∃ ns, Comparison.AllNewlines ns ∧ ts = ns ++ e.brace :: e.after

theorem Ending.dropWhile_of_ends {e : Ending} {ts : List Token} (h : e.Ends ts) :
    ts.dropWhile (Token.isKind .newline) = e.brace :: e.after := by
  obtain ⟨ns, hns, rfl⟩ := h
  exact Comparison.dropWhile_newlines hns _ (by rw [e.kind]; decide)

theorem Ending.ends_dropWhile {e : Ending} {ts : List Token} (h : e.Ends ts) :
    e.Ends (ts.dropWhile (Token.isKind .newline)) :=
  ⟨[], List.forall_mem_nil _, e.dropWhile_of_ends h⟩

namespace Comparison

/-- Bodies are compared up to their closing braces. -/
def bodies (e e' : Ending) (shift shift' : Nat) (exact : Prop) (place : Nat → Nat → Prop) :
    Comparison where
  Ended := e.Ends
  Ended' := e'.Ends
  behind := e.after.length + 1
  shift := shift
  shift' := shift'
  exact := exact
  place := place
  behind_le := by
    rintro _ ⟨ns, -, rfl⟩
    rw [List.length_append, List.length_cons]
    omega
  taken h heq := by
    rw [e.dropWhile_of_ends h] at heq
    cases heq
    omega
  closes' h heq := by
    rw [e'.dropWhile_of_ends h] at heq
    cases heq
    exact e'.kind

/-- A comparison of bodies with these ends. -/
structure Braced (f : Comparison) (e e' : Ending) : Prop where
  ended : f.Ended = e.Ends
  ended' : f.Ended' = e'.Ends
  behind : f.behind = e.after.length + 1

theorem braced_bodies (e e' : Ending) (shift shift' : Nat) (exact : Prop) (place : Nat → Nat → Prop) :
    (bodies e e' shift shift' exact place).Braced e e' := ⟨rfl, rfl, rfl⟩

variable {f : Comparison} {e e' : Ending} {ts ts' : List Token}

theorem alike_dropWhile (hf : f.Braced e e') (h : f.Alike ts ts') :
    f.Alike (ts.dropWhile (Token.isKind .newline)) (ts'.dropWhile (Token.isKind .newline)) := by
  induction h with
  | ended hts hts' =>
    rw [hf.ended] at hts
    rw [hf.ended'] at hts'
    exact .ended (hf.ended ▸ e.ends_dropWhile hts) (hf.ended' ▸ e'.ends_dropWhile hts')
  | cons hs hrest ih =>
    rename_i t t' ts ts'
    by_cases hn : t.kind = .newline
    · rw [dropWhile_cons_newline hn, dropWhile_cons_newline (hs.kind.trans hn)]
      exact ih
    · rw [dropWhile_cons hn, dropWhile_cons (hs.kind ▸ hn)]
      exact .cons hs hrest

/-- In front of a token that is no line break, the next tokens are of one kind. -/
theorem exists_kind_of_alike (hf : f.Braced e e') (h : f.Alike ts ts') :
    ∃ t us t' us', ts.dropWhile (Token.isKind .newline) = t :: us ∧
      ts'.dropWhile (Token.isKind .newline) = t' :: us' ∧ t'.kind = t.kind := by
  induction h with
  | ended hts hts' =>
    rw [hf.ended] at hts
    rw [hf.ended'] at hts'
    exact ⟨_, _, _, _, e.dropWhile_of_ends hts, e'.dropWhile_of_ends hts', e'.kind.trans e.kind.symm⟩
  | cons hs hrest ih =>
    rename_i t t' ts ts'
    by_cases hn : t.kind = .newline
    · rw [dropWhile_cons_newline hn, dropWhile_cons_newline (hs.kind.trans hn)]
      exact ih
    · exact ⟨t, ts, t', ts', dropWhile_cons hn _, dropWhile_cons (hs.kind ▸ hn) _, hs.kind⟩

/-- Where only the end is left on the first side, only the end is left on the second one. -/
theorem ends_of_alike (hf : f.Braced e e') (h : f.Alike ts ts') (hlen : ts.length = f.behind) :
    e'.Ends ts' := by
  cases h with
  | ended _ hts' => exact hf.ended' ▸ hts'
  | cons _ hrest =>
    have hle := alike_length hrest
    rw [List.length_cons] at hlen
    omega

end Comparison

namespace Body

open Comparison HclTidy.Expr

variable {f : Comparison} {e e' : Ending} {source source' : Source} {c c' : Cursor}

/-- A label is literal, and nothing but its text counts. -/
theorem decodeLabel_ok {token : Token} {label : Text} (h : decodeLabel c token = .ok label) :
    (Template.partsOf true token.text).all Template.Part.isLiteral = true ∧
      ∀ (c' : Cursor) (token' : Token), token'.text = token.text → decodeLabel c' token' = .ok label := by
  unfold decodeLabel at h
  dsimp only at h
  split at h
  · next hall =>
    refine ⟨hall, fun c' token' htext => ?_⟩
    unfold decodeLabel
    dsimp only
    rw [htext, if_pos hall]
    split at h
    · next l hl =>
      cases h
      rfl
    · cases h
  · cases h

theorem labelText_alike (c' : Cursor) {token token' : Token} (hsame : f.Same token token')
    (hk : token.kind = .string ∨ token.kind = .ident) {label : Text}
    (h : labelText c token = .ok label) : labelText c' token' = .ok label := by
  unfold labelText at h ⊢
  rw [hsame.kind]
  split at h
  · next hident =>
    rw [if_pos hident, hsame.text (by rw [hident]; decide) (by rw [hident]; decide)]
    exact h
  · next hident =>
    rw [if_neg hident]
    have hstring : token.kind = .string := hk.resolve_right hident
    obtain ⟨hliteral, hdecode⟩ := decodeLabel_ok h
    exact hdecode c' token' (hsame.label hstring hliteral)

theorem readLabels_alike (source' : Source) : ∀ {c c' : Cursor}, f.Alike c.rest c'.rest →
    ∀ s, readLabels source c = .ok s → f.behind ≤ s.next.rest.length →
    ∃ s', readLabels source' c' = .ok s' ∧ f.Alike s.next.rest s'.next.rest ∧ s'.value = s.value := by
  intro c
  induction hn : c.rest.length using Nat.strongRecOn generalizing c with
  | ind n ih =>
    subst hn
    intro c' h s hs hlen
    have hm := LineMode.loosens_refl .significant
    have hrespects : f.Respects fun t => t.kind = .string || t.kind = .ident :=
      fun t t' ht => by simp only [ht.kind]
    have hend : ∀ t : Token, t.kind = .newline ∨ t.kind = .rbrace →
        (t.kind = .string || t.kind = .ident : Bool) = false := by
      rintro t (ht | ht) <;> rw [ht] <;> rfl
    rw [readLabels] at hs
    split at hs
    · next hnone =>
      cases hs
      rw [readLabels, takeIf?_none hm h (.inl rfl) hrespects hend hnone]
      exact ⟨_, rfl, h, rfl⟩
    · next first hfirst =>
      obtain ⟨label, hlabel, hs⟩ := Reading.bind_ok hs
      obtain ⟨more, hmore, hs⟩ := Reading.bind_ok hs
      cases hs
      change f.behind ≤ more.next.rest.length at hlen
      have h₁ := first.shorter
      have h₂ := more.notLonger
      obtain ⟨first', hfirst', hsame, halike⟩ := takeIf?_some hm h hrespects
        (fun t ht => hend t (.inl ht)) hfirst (by omega)
      have hkind : first.value.kind = .string ∨ first.value.kind = .ident := by
        simpa using (Cursor.view_of_takeIf? hfirst).2
      have hlabel' := labelText_alike first'.next hsame hkind hlabel
      obtain ⟨more', hmore', halike, hvalue⟩ := ih _ (by omega) rfl halike more hmore hlen
      rw [readLabels]
      simp only [hfirst', bind, Except.bind, hlabel', hmore']
      exact ⟨_, rfl, halike, congrArg (label :: ·) hvalue⟩

theorem alike_skipNewlines (hf : f.Braced e e') (h : f.Alike c.rest c'.rest) :
    f.Alike c.skipNewlines.rest c'.skipNewlines.rest := alike_dropWhile hf h

theorem peek_skipNewlines_alike (hf : f.Braced e e') (source source' : Source)
    (h : f.Alike c.skipNewlines.rest c'.skipNewlines.rest) :
    (c'.skipNewlines.peek source' .significant).kind = (c.skipNewlines.peek source .significant).kind := by
  obtain ⟨t, us, t', us', hview, hview', hkind⟩ := exists_kind_of_alike hf h
  have hidem (ts : List Token) : (ts.dropWhile (Token.isKind .newline)).dropWhile
      (Token.isKind .newline) = ts.dropWhile (Token.isKind .newline) := List.dropWhile_idempotent _ _
  have heq : c.skipNewlines.view .significant = t :: us := (hidem c.rest).symm.trans hview
  have heq' : c'.skipNewlines.view .significant = t' :: us' := (hidem c'.rest).symm.trans hview'
  rw [Cursor.peek_of_view source heq, Cursor.peek_of_view source' heq', hkind]

theorem expectName_alike (source' : Source) (h : f.Alike c.rest c'.rest) {s : Step Token c}
    (hs : c.expect source .significant .ident = .ok s) (hlen : f.behind ≤ s.next.rest.length) :
    ∃ s', c'.expect source' .significant .ident = .ok s' ∧ s'.value.text = s.value.text ∧
      f.Alike s.next.rest s'.next.rest := by
  obtain ⟨s', hs', hsame, halike⟩ := expect_alike source' (by decide) (LineMode.loosens_refl _) h hs hlen
  have hk : s.value.kind = .ident := of_decide_eq_true (Cursor.view_of_takeIf? (Cursor.expect_ok hs)).2
  exact ⟨s', hs', hsame.text (by rw [hk]; decide) (by rw [hk]; decide), halike⟩

/-- A body is read alike from cursors that read alike behind line breaks. -/
theorem read_alike (hf : f.Braced e e') (hsources : f.Sources source source') : ∀ {c c' : Cursor},
    f.Alike c.skipNewlines.rest c'.skipNewlines.rest →
    ∀ s, read source c = .ok s → f.behind ≤ s.next.rest.length →
    ∃ s', read source' c' = .ok s' ∧ f.Alike s.next.rest s'.next.rest ∧
      (f.exact → s'.value = s.value) := by
  intro c
  induction hn : c.rest.length using Nat.strongRecOn generalizing c with
  | ind n ih =>
    subst hn
    intro c' hitems s hs hlen
    have hm := LineMode.loosens_refl .significant
    have hshort := c.skipNewlines_length_le
    have hpeek := peek_skipNewlines_alike hf source source' hitems
    rw [read] at hs
    rw [read]
    rw [hpeek]
    split at hs
    · next hclose =>
      cases hs
      rw [if_pos hclose]
      exact ⟨_, rfl, hitems, fun _ => rfl⟩
    · next hclose =>
      rw [if_neg hclose]
      split at hs
      · cases hs
      · next hend =>
        rw [if_neg hend]
        obtain ⟨name, hname, hs⟩ := Reading.bind_ok hs
        have h₁ := name.shorter
        dsimp only at hs
        split at hs
        · next equal hequal =>
          obtain ⟨value, hvalue, hs⟩ := Reading.bind_ok hs
          obtain ⟨⟨⟩, hitem, hs⟩ := Reading.bind_ok hs
          obtain ⟨more, hmore, hs⟩ := Reading.bind_ok hs
          cases hs
          change f.behind ≤ more.next.rest.length at hlen
          have h₂ := equal.shorter
          have h₃ := value.shorter
          have h₄ := more.notLonger
          obtain ⟨name', hname', htext, halike⟩ := expectName_alike source' hitems hname (by omega)
          obtain ⟨equal', hequal', -, halike⟩ := accept?_some (by decide) hm halike hequal (by omega)
          obtain ⟨value', hvalue', hstep⟩ := stepsAlike_read hsources hm (ahead_of_alike hm halike)
            value hvalue (by omega) (.inl rfl)
          have hitem' := endOfItem_alike hsources.ending hstep.rest hitem
          obtain ⟨more', hmore', halike, hbody⟩ := ih _ (by omega) rfl
            (alike_skipNewlines hf hstep.rest) more hmore hlen
          simp only [hname', bind, Except.bind, hequal', hvalue', hitem', hmore']
          exact ⟨_, rfl, halike, fun hx => by simp only [htext, hstep.value hx, hbody hx]⟩
        · next hequal =>
          obtain ⟨labels, hlabels, hs⟩ := Reading.bind_ok hs
          obtain ⟨opening, hopening, hs⟩ := Reading.bind_ok hs
          obtain ⟨inner, hinner, hs⟩ := Reading.bind_ok hs
          obtain ⟨closing, hclosing, hs⟩ := Reading.bind_ok hs
          obtain ⟨⟨⟩, hitem, hs⟩ := Reading.bind_ok hs
          obtain ⟨more, hmore, hs⟩ := Reading.bind_ok hs
          cases hs
          change f.behind ≤ more.next.rest.length at hlen
          have h₂ := labels.notLonger
          have h₃ := opening.shorter
          have h₄ := inner.notLonger
          have h₅ := closing.shorter
          have h₆ := more.notLonger
          obtain ⟨name', hname', htext, halike⟩ := expectName_alike source' hitems hname (by omega)
          have hequal' := accept?_none (by decide) hm halike (.inl rfl) hequal
          obtain ⟨labels', hlabels', halike, hlabelTexts⟩ := readLabels_alike source' halike labels
            hlabels (by omega)
          obtain ⟨opening', hopening', -, halike⟩ := expect_alike source' (by decide) hm halike hopening
            (by omega)
          obtain ⟨inner', hinner', halike, hnested⟩ := ih _ (by omega) rfl (alike_skipNewlines hf halike)
            inner hinner (by omega)
          obtain ⟨closing', hclosing', -, halike⟩ := expect_alike source' (by decide) hm halike hclosing
            (by omega)
          have hitem' := endOfItem_alike hsources.ending halike hitem
          obtain ⟨more', hmore', halike, hbody⟩ := ih _ (by omega) rfl (alike_skipNewlines hf halike)
            more hmore hlen
          simp only [hname', bind, Except.bind, hequal', hlabels', hopening', hinner', hclosing', hitem',
            hmore']
          exact ⟨_, rfl, halike, fun hx => by simp only [htext, hlabelTexts, hnested hx, hbody hx]⟩

/-- A body ends in front of a closing brace. -/
theorem read_rest (hsource : source.endToken.kind = .endOfText) : ∀ {c : Cursor} {s : Tail Body c},
    read source c = .ok s → ∃ t ts, s.next.rest = t :: ts ∧ t.kind = .rbrace := by
  intro c
  induction hn : c.rest.length using Nat.strongRecOn generalizing c with
  | ind n ih =>
    subst hn
    intro s hs
    have hshort := c.skipNewlines_length_le
    rw [read] at hs
    split at hs
    · next hclose =>
      cases hs
      unfold Cursor.peek at hclose
      change ∃ t ts, c.skipNewlines.rest = t :: ts ∧ _
      cases hrest : c.skipNewlines.rest with
      | nil =>
        rw [show c.skipNewlines.view .significant = [] from hrest, List.headD_nil, hsource] at hclose
        cases hclose
      | cons t ts =>
        rw [show c.skipNewlines.view .significant = t :: ts from hrest] at hclose
        exact ⟨t, ts, rfl, hclose⟩
    · split at hs
      · cases hs
      · obtain ⟨name, hname, hs⟩ := Reading.bind_ok hs
        have h₁ := name.shorter
        dsimp only at hs
        split at hs
        · next equal hequal =>
          obtain ⟨value, hvalue, hs⟩ := Reading.bind_ok hs
          obtain ⟨⟨⟩, hitem, hs⟩ := Reading.bind_ok hs
          obtain ⟨more, hmore, hs⟩ := Reading.bind_ok hs
          cases hs
          have h₂ := equal.shorter
          have h₃ := value.shorter
          exact ih value.next.rest.length (by omega) rfl hmore
        · next hequal =>
          obtain ⟨labels, hlabels, hs⟩ := Reading.bind_ok hs
          obtain ⟨opening, hopening, hs⟩ := Reading.bind_ok hs
          obtain ⟨inner, hinner, hs⟩ := Reading.bind_ok hs
          obtain ⟨closing, hclosing, hs⟩ := Reading.bind_ok hs
          obtain ⟨⟨⟩, hitem, hs⟩ := Reading.bind_ok hs
          obtain ⟨more, hmore, hs⟩ := Reading.bind_ok hs
          cases hs
          have h₂ := labels.notLonger
          have h₃ := opening.shorter
          have h₄ := inner.notLonger
          have h₅ := closing.shorter
          exact ih closing.next.rest.length (by omega) rfl hmore

/-- A body up to a closing brace is read alike up to the closing brace on the other side. -/
theorem read_closing (hf : f.Braced e e') (hsources : f.Sources source source')
    (h : f.Alike c.skipNewlines.rest c'.skipNewlines.rest)
    {s : Tail Body c} (hs : read source c = .ok s) (hrest : s.next.rest = e.brace :: e.after) :
    ∃ s', read source' c' = .ok s' ∧ s'.next.rest = e'.brace :: e'.after ∧
      (f.exact → s'.value = s.value) := by
  have hlen : s.next.rest.length = f.behind := by rw [hrest, hf.behind]; rfl
  obtain ⟨s', hs', halike, hvalue⟩ := read_alike hf hsources h s hs hlen.ge
  obtain ⟨us, hus, hrest'⟩ := ends_of_alike hf halike hlen
  obtain ⟨t, ts, hcons, hk⟩ := read_rest hsources.ending hs'
  refine ⟨s', hs', ?_, hvalue⟩
  cases us with
  | nil => exact hrest'
  | cons u us =>
    rw [hrest'] at hcons
    cases hcons
    rw [hus _ (List.mem_cons_self ..)] at hk
    cases hk

end Body

end HclTidy
