import HclTidy.Proofs.Block.Spaced
import HclTidy.Proofs.Layout.Rows

/-!
# Adding a line break

A line feed that is put between two tokens of a text, inside the brackets of a value, is one more token
and moves those behind it. The file is read with the same blocks, unless the line feed comes between a
name and the parenthesis of its call or between the `*` and the `]` of a splat.
-/

set_option autoImplicit false

namespace HclTidy

open Token Spacing

/-- The place behind tokens. -/
def Nesting.after (p : Nesting) (ts : List Token) : Nesting := ts.foldl (fun p t => p.next t) p

/-! ## Texts with a line feed added -/

namespace Text

theorem Loosened.refl (t : Text) : t.Loosened t := ⟨rfl, rfl⟩

theorem slice_eq_nil (t : Text) {a b : Nat} (h : b ≤ a) : t.slice a b = [] := by
  rw [slice, Nat.sub_eq_zero_of_le h, List.take_zero]

theorem slice_left (x y : Text) {a b : Nat} (hb : b ≤ x.length) : (x ++ y).slice a b = x.slice a b := by
  obtain ha | ha := Nat.lt_or_ge a b
  · rw [slice, slice, List.drop_append_of_le_length (by omega),
      List.take_append_of_le_length (by rw [List.length_drop]; omega)]
  · rw [slice_eq_nil _ ha, slice_eq_nil _ ha]

theorem slice_right (x y : Text) (a b : Nat) :
    (x ++ y).slice (x.length + a) (x.length + b) = y.slice a b := by
  rw [slice, slice, List.drop_length_add_append, Nat.add_sub_add_left]

theorem slice_across (x y : Text) {a : Nat} (ha : a ≤ x.length) (b : Nat) :
    (x ++ y).slice a (x.length + b) = x.drop a ++ y.take b := by
  have hlength : x.length + b - a = (x.drop a).length + b := by
    rw [List.length_drop]
    omega
  rw [slice, List.drop_append_of_le_length ha, hlength, List.take_length_add_append]

theorem loosened_insert {x : Text} (hx : x ≠ []) (y : Text) : (x ++ y).Loosened (x ++ '\n' :: y) := by
  refine ⟨?_, ?_⟩
  · rw [squeezed, squeezed, List.filter_append, List.filter_append, List.filter_cons_of_neg (by decide)]
  · rw [List.head?_append_of_ne_nil _ hx, List.head?_append_of_ne_nil _ hx]

/-- An offset of a token's start, before and after a line feed is put behind some characters. -/
def StartsBeside (before : Text) (a a' : Nat) : Prop :=
  a < before.length ∧ a' = a ∨ before.length ≤ a ∧ a' = a + 1

/-- An offset of a token's end. -/
def StopsBeside (before : Text) (b b' : Nat) : Prop :=
  b ≤ before.length ∧ b' = b ∨ before.length < b ∧ b' = b + 1

theorem loosened_slice {before after : Text} {a a' b b' : Nat} (hstart : before.StartsBeside a a')
    (hstop : before.StopsBeside b b') :
    ((before ++ after).slice a b).Loosened ((before ++ '\n' :: after).slice a' b') := by
  obtain ⟨ha, rfl⟩ | ⟨ha, rfl⟩ := hstart
  · obtain ⟨hb, rfl⟩ | ⟨hb, rfl⟩ := hstop
    · rw [slice_left _ _ hb, slice_left _ _ hb]
      exact .refl _
    · obtain ⟨n, rfl⟩ := Nat.exists_eq_add_of_le hb.le
      rw [slice_across _ _ ha.le, Nat.add_assoc, slice_across _ _ ha.le]
      exact loosened_insert (List.drop_eq_nil_iff.not.mpr (Nat.not_le.mpr ha)) _
  · obtain ⟨hb, rfl⟩ | ⟨hb, rfl⟩ := hstop
    · rw [slice_eq_nil _ (hb.trans ha), slice_eq_nil _ (by omega)]
      exact .refl _
    · obtain ⟨n, rfl⟩ := Nat.exists_eq_add_of_le ha
      obtain ⟨m, rfl⟩ := Nat.exists_eq_add_of_le hb.le
      rw [slice_right, Nat.add_assoc, Nat.add_assoc, slice_right]
      exact ⟨by simp [slice], by simp [slice]⟩

theorem startsBeside_end (before after : Text) :
    before.StartsBeside (Position.start.after (before ++ after)).offset
      (Position.start.after (before ++ '\n' :: after)).offset := by
  refine .inr ⟨?_, ?_⟩
  · simp [start_after_offset]
  · simp [start_after_offset]
    omega

end Text

namespace Spacing

/-- Two texts of which the second has a line feed behind the first `before.length` characters. -/
def lineBreak (before after : Text) : Spacing where
  source := ⟨before ++ after, ⟨.endOfText, [], Position.start.after (before ++ after)⟩⟩
  source' :=
    ⟨before ++ '\n' :: after, ⟨.endOfText, [], Position.start.after (before ++ '\n' :: after)⟩⟩
  starts := before.StartsBeside
  stops := before.StopsBeside
  slice := Text.loosened_slice
  ending := rfl
  ending' := rfl
  last := Text.startsBeside_end before after

variable {before after : Text}

/-! ## Tokens behind the line feed -/

/-- A token behind the line feed. -/
structure Moved (before after : Text) (t t' : Token) : Prop where
  same : (lineBreak before after).Same t t'
  line : t'.start.line = t.start.line + 1

theorem moved_codeAt {tail : Text} {vs : List Lexeme} (hfit : AllFit vs tail) :
    ∀ p p' : Position, before.length ≤ p.offset → p'.offset = p.offset + 1 → p'.line = p.line + 1 →
      List.Forall₂ (Moved before after) (codeAt p vs) (codeAt p' vs) := by
  induction vs with
  | nil => exact fun _ _ _ _ _ => .nil
  | cons w vs ih =>
    intro p p' hp hoffset hline
    obtain ⟨-, hw, hvs⟩ := hfit
    have hrest := ih hvs ((p.after w.gap).after w.text) ((p'.after w.gap).after w.text)
      (by simp only [Position.after_offset]; omega) (by simp only [Position.after_offset]; omega)
      (by simp only [Position.after_line]; omega)
    by_cases hk : w.kind = .comment
    · rw [codeAt_comment p vs hk, codeAt_comment p' vs hk]
      exact hrest
    · rw [codeAt_cons p vs hk, codeAt_cons p' vs hk]
      obtain ⟨c, t, htext, -⟩ := fits_head hw
      refine .cons ⟨⟨rfl, rfl, .inr ?_, .inr ?_, fits_not_endOfText hw⟩, ?_⟩ hrest
      · simp only [Position.after_offset]
        omega
      · simp only [Token.stop, Position.after_offset, htext, List.length_cons]
        omega
      · simp only [Position.after_line]
        omega

theorem moved_dropWhile {ts ts' : List Token} (h : List.Forall₂ (Moved before after) ts ts') :
    List.Forall₂ (Moved before after) (ts.dropWhile (Token.isKind .newline))
      (ts'.dropWhile (Token.isKind .newline)) := by
  induction h with
  | nil => exact .nil
  | @cons t t' ts ts' ht hrest ih =>
    by_cases hn : t.kind = .newline
    · rw [Comparison.dropWhile_cons_newline hn,
        Comparison.dropWhile_cons_newline (ht.same.kind.trans hn)]
      exact ih
    · rw [Comparison.dropWhile_cons hn, Comparison.dropWhile_cons (ht.same.kind ▸ hn)]
      exact .cons ht hrest

theorem behind_moved {t t' : Token} {ts ts' : List Token} (ht : Moved before after t t')
    (h : List.Forall₂ (Moved before after) ts ts') : Behind t t' ts ts' := by
  refine ⟨fun _ => ?_, fun _ u us hts hu => ?_⟩
  · have hnext := moved_dropWhile h
    unfold Token.callBehind
    generalize ts.dropWhile (Token.isKind .newline) = us at hnext
    generalize ts'.dropWhile (Token.isKind .newline) = us' at hnext
    cases hnext with
    | nil => rfl
    | cons hu => simp only [hu.same.kind, hu.line, ht.line, Nat.add_right_cancel_iff]
  · subst hts
    cases h with
    | cons hmoved => exact ⟨_, _, rfl, hmoved.same.kind.trans hu⟩

theorem spaced_moved {ts ts' : List Token} (h : List.Forall₂ (Moved before after) ts ts') (p : Nesting) :
    (lineBreak before after).Spaced p ts ts' := by
  induction h generalizing p with
  | nil => exact .nil
  | cons ht hrest ih => exact .cons ht.same (behind_moved ht hrest) (ih _)

/-! ## Tokens in front of the line feed -/

theorem callBehind_newlines {name : Token} {us ts : List Token} (h : ∀ u ∈ us, u.kind = .newline) :
    name.callBehind (us ++ ts) = name.callBehind ts := by
  have hall : ∀ u ∈ us, Token.isKind .newline u = true := fun u hu => decide_eq_true (h u hu)
  rw [Token.callBehind, Token.callBehind, List.dropWhile_append_of_pos hall]

/-- A token that is no line break decides, whatever stands behind it. -/
theorem callBehind_append {name : Token} {us : List Token} (h : ¬ ∀ u ∈ us, u.kind = .newline)
    (ts ts' : List Token) : name.callBehind (us ++ ts) = name.callBehind (us ++ ts') := by
  have hne : us.dropWhile (Token.isKind .newline) ≠ [] := by
    rw [ne_eq, List.dropWhile_eq_nil_iff]
    exact fun hall => h fun u hu => of_decide_eq_true (hall u hu)
  have hnot : ¬ (us.dropWhile (Token.isKind .newline)).isEmpty = true := by rwa [List.isEmpty_iff]
  obtain ⟨u, us', hus⟩ := List.exists_cons_of_ne_nil hne
  rw [Token.callBehind, Token.callBehind, List.dropWhile_append, List.dropWhile_append, if_neg hnot,
    if_neg hnot, hus]
  rfl

/-- The same tokens in front on both sides. -/
theorem Spaced.prepend {g : Spacing} {xs ts ts' : List Token} (hsame : ∀ t ∈ xs, g.Same t t)
    (hcall : ∀ t us, t :: us <:+ xs → (∀ u ∈ us, u.kind = .newline) → t.kind = .ident →
      t.callBehind ts' = t.callBehind ts)
    (hsplat : ∀ t, xs.getLast? = some t → t.isWord .operator ['*'] = true → ∀ u us, ts = u :: us →
      u.kind ≠ .rbrack) :
    ∀ {p : Nesting}, g.Spaced (p.after xs) ts ts' → g.Spaced p (xs ++ ts) (xs ++ ts') := by
  induction xs with
  | nil => exact fun h => h
  | cons t xs ih =>
    intro p h
    rw [List.cons_append, List.cons_append]
    refine .cons (hsame t (List.mem_cons_self ..)) ⟨fun hk => ?_, fun hstar u us heq hu => ?_⟩
      (ih (fun u hu => hsame u (List.mem_cons_of_mem _ hu)) (fun u us hsuffix => ?_) (fun u hlast => ?_) h)
    · by_cases hbreaks : ∀ u ∈ xs, u.kind = .newline
      · rw [callBehind_newlines hbreaks, callBehind_newlines hbreaks]
        exact hcall t xs (List.suffix_refl _) hbreaks hk
      · exact callBehind_append hbreaks _ _
    · cases xs with
      | nil => exact absurd hu (hsplat t rfl hstar u us heq)
      | cons v xs =>
        cases heq
        exact ⟨_, _, rfl, hu⟩
    · exact hcall u us (hsuffix.trans (List.suffix_cons t xs))
    · refine hsplat u ?_
      rw [List.getLast?_cons, hlast]
      rfl

/-! ## Names in front of the line feed -/

theorem lines_codeAt {tail : Text} {ws : List Lexeme} (hfit : AllFit ws tail) (p : Position) :
    (codeAt p ws).Pairwise fun t u =>
      t.start.line ≤ u.start.line ∧ (t.kind = .newline → t.start.line < u.start.line) :=
  (Layout.lines_tokensAt hfit p).filter _

/-- All that is no line break stands below a line. -/
def Below (line : Nat) (ts : List Token) : Prop := ∀ t ∈ ts, t.kind = .newline ∨ line < t.start.line

theorem callBehind_below {name : Token} {ts : List Token} (h : Below name.start.line ts) :
    name.callBehind ts = false := by
  unfold Token.callBehind
  split
  · rfl
  · next t us hts =>
    have hmem : t ∈ ts := (List.dropWhile_suffix _).subset (hts ▸ List.mem_cons_self ..)
    have hn : t.kind ≠ .newline := by
      have hnot := List.head?_dropWhile_not (Token.isKind .newline) ts
      rw [hts] at hnot
      exact of_decide_eq_false hnot
    have hline := (h t hmem).resolve_left hn
    rw [Bool.and_eq_false_iff]
    exact .inr (decide_eq_false (by omega))

theorem below_moved {line : Nat} {ts ts' : List Token} (h : List.Forall₂ (Moved before after) ts ts')
    (hbelow : Below line ts) : Below line ts' := by
  induction h with
  | nil => exact List.forall_mem_nil _
  | cons ht _ ih =>
    obtain ⟨hfirst, hbelow⟩ := List.forall_mem_cons.mp hbelow
    refine List.forall_mem_cons.mpr ⟨?_, ih hbelow⟩
    rw [ht.same.kind, ht.line]
    exact hfirst.imp_right fun hlt => by omega

/-- A line feed behind a name, or behind line breaks behind it, leaves what makes it a call. -/
theorem callBehind_lineBreak {front us ts ts' : List Token} {name feed : Token}
    (hlines : (front ++ name :: us ++ ts).Pairwise fun t u =>
      t.start.line ≤ u.start.line ∧ (t.kind = .newline → t.start.line < u.start.line))
    (hmoved : List.Forall₂ (Moved before after) ts ts') (hus : ∀ u ∈ us, u.kind = .newline)
    (hcall : us = [] → ∀ t, ts.head? = some t → t.kind ≠ .lparen ∧ t.kind ≠ .doubleColon)
    (hfeed : feed.kind = .newline) : name.callBehind (feed :: ts') = name.callBehind ts := by
  have hdrop : name.callBehind (feed :: ts') = name.callBehind ts' := by
    rw [Token.callBehind, Token.callBehind, Comparison.dropWhile_cons_newline hfeed]
  have hbelow (h : Below name.start.line ts) : name.callBehind (feed :: ts') = name.callBehind ts := by
    rw [hdrop, callBehind_below h, callBehind_below (below_moved hmoved h)]
  rw [List.append_assoc, List.pairwise_append] at hlines
  obtain ⟨hname, hlines⟩ := List.pairwise_cons.mp hlines.2.1
  cases us with
  | cons n us =>
    refine hbelow fun u hu => .inr ?_
    have hn := (hname n (by simp)).1
    have hlt := ((List.pairwise_cons.mp hlines).1 u (by simp [hu])).2 (hus n (by simp))
    omega
  | nil =>
    cases ts with
    | nil => exact hbelow (List.forall_mem_nil _)
    | cons n ts =>
      by_cases hn : n.kind = .newline
      · refine hbelow (List.forall_mem_cons.mpr ⟨.inl hn, fun u hu => .inr ?_⟩)
        have hle := (hname n (by simp)).1
        have hlt := ((List.pairwise_cons.mp hlines).1 u hu).2 hn
        omega
      · have hkind := hcall rfl n rfl
        cases hmoved with
        | cons hmoved =>
          rw [hdrop, Token.callBehind, Token.callBehind, Comparison.dropWhile_cons hn,
            Comparison.dropWhile_cons (hmoved.same.kind ▸ hn)]
          simp [hmoved.same.kind, hkind.1, hkind.2]

end Spacing

/-! ## Places for a line feed -/

/-- A line feed may be added between the tokens `xs` and `ys`, at an offset between them: inside the
brackets of a value, and neither between a name and what makes it a call nor between the `*` and the
`]` of a splat. -/
structure Nesting.Breakable (offset : Nat) (xs ys : List Token) : Prop where
  front : ∀ t ∈ xs, t.stop ≤ offset
  back : ∃ t us, ys = t :: us ∧ offset ≤ t.start.offset
  inside : ∃ depth, Nesting.outside.after (xs.filter fun t => t.kind ≠ .comment) = .inside (depth + 1)
  call : ∀ name t, (xs.filter fun t => t.kind ≠ .comment).getLast? = some name →
    (ys.filter fun t => t.kind ≠ .comment).head? = some t → name.kind = .ident →
    t.kind ≠ .lparen ∧ t.kind ≠ .doubleColon
  splat : ∀ star t, (xs.filter fun t => t.kind ≠ .comment).getLast? = some star →
    (ys.filter fun t => t.kind ≠ .comment).head? = some t → star.isWord .operator ['*'] = true →
    t.kind ≠ .rbrack

theorem exists_of_tokensAt_append {xs ys : List Token} :
    ∀ {ws : List Lexeme} {p : Position}, tokensAt p ws = xs ++ ys →
      ∃ us vs, ws = us ++ vs ∧ xs = tokensAt p us ∧ ys = tokensAt (p.after (textOf us [])) vs := by
  induction xs with
  | nil => exact fun {ws p} h => ⟨[], ws, rfl, rfl, h.symm⟩
  | cons t xs ih =>
    intro ws p h
    cases ws with
    | nil => cases h
    | cons w ws =>
      rw [tokensAt, List.cons_append, List.cons.injEq] at h
      obtain ⟨us, vs, rfl, rfl, rfl⟩ := ih h.2
      refine ⟨w :: us, vs, rfl, ?_, ?_⟩
      · rw [tokensAt, h.1]
      · rw [textOf_cons, Position.after_append, Position.after_append]

/-- The white space in front of a token, parted. -/
theorem exists_gap {before after rest : Text} {us : List Lexeme} {gap : Text}
    (h : before ++ after = textOf us (gap ++ rest)) (hfront : (textOf us []).length ≤ before.length)
    (hback : before.length ≤ (textOf us gap).length) :
    ∃ gap₁ gap₂, gap = gap₁ ++ gap₂ ∧ before = textOf us gap₁ ∧ after = gap₂ ++ rest := by
  rw [textOf_eq_append] at h
  obtain ⟨gap₁, rfl⟩ : textOf us [] <+: before :=
    List.prefix_of_prefix_length_le ⟨_, h.symm⟩ (List.prefix_append _ _) hfront
  rw [List.append_assoc, List.append_cancel_left_eq] at h
  rw [textOf_eq_append us gap, List.length_append, List.length_append] at hback
  obtain ⟨gap₂, rfl⟩ : gap₁ <+: gap :=
    List.prefix_of_prefix_length_le ⟨_, h⟩ (List.prefix_append _ _) (by omega)
  rw [List.append_assoc, List.append_cancel_left_eq] at h
  exact ⟨gap₁, gap₂, rfl, (textOf_eq_append us gap₁).symm, h⟩

theorem length_le_of_stops {us : List Lexeme} {offset : Nat}
    (h : ∀ t ∈ tokensAt Position.start us, t.stop ≤ offset) : (textOf us []).length ≤ offset := by
  obtain rfl | ⟨us, w, rfl⟩ := List.eq_nil_or_concat' us
  · exact Nat.zero_le _
  · have hstop := h ⟨w.kind, w.text, Position.start.after (textOf us w.gap)⟩ (by
      rw [tokensAt_append_cons]
      simp)
    rwa [show Position.start = Position.start.after [] from rfl, stop_concat] at hstop

theorem le_length_of_back {us vs : List Lexeme} {w : Lexeme} {offset : Nat}
    (h : ∃ t ts, tokensAt (Position.start.after (textOf us [])) (w :: vs) = t :: ts ∧
      offset ≤ t.start.offset) : offset ≤ (textOf us w.gap).length := by
  obtain ⟨t, ts, hts, hle⟩ := h
  cases hts
  rwa [← Position.after_append, ← textOf_eq_append, start_after_offset] at hle

/-- The lexemes of a text with a line feed added. -/
theorem allFit_lineBreak {us vs : List Lexeme} {w : Lexeme} {gap₁ gap₂ tail : Text}
    (hgap : w.gap = gap₁ ++ gap₂) (h : AllFit (us ++ w :: vs) tail) :
    AllFit (us ++ ⟨gap₁, .newline, ['\n']⟩ :: ⟨gap₂, w.kind, w.text⟩ :: vs) tail := by
  obtain ⟨hus, hwgap, hw, hvs⟩ := allFit_append.mp h
  rw [hgap] at hwgap
  obtain ⟨hgap₁, hgap₂⟩ := List.forall_mem_append.mp hwgap
  refine allFit_append.mpr ⟨allFit_tailChange hus ?_, hgap₁, .newline, hgap₂, hw, hvs⟩
  rw [textOf_cons, hgap, List.append_assoc]
  exact tailChange_lineFeed hgap₁ _ _

theorem textOf_lineBreak (us : List Lexeme) (gap : Text) (ws : List Lexeme) (tail : Text) :
    textOf (us ++ ⟨gap, .newline, ['\n']⟩ :: ws) tail = textOf us gap ++ '\n' :: textOf ws tail := by
  rw [textOf_append_cons]
  rfl

/-- The tokens of a text and those of the text with a line feed added. -/
theorem spaced_lineBreak {us vs : List Lexeme} {w : Lexeme} {gap₁ gap₂ tail : Text} (after : Text)
    (hgap : w.gap = gap₁ ++ gap₂) (hfit : AllFit (us ++ w :: vs) tail)
    (hbreak : Nesting.Breakable (textOf us gap₁).length (tokensAt Position.start us)
      (tokensAt (Position.start.after (textOf us [])) (w :: vs))) :
    (lineBreak (textOf us gap₁) after).Spaced .outside (codeAt Position.start (us ++ w :: vs))
      (codeAt Position.start (us ++ ⟨gap₁, .newline, ['\n']⟩ :: ⟨gap₂, w.kind, w.text⟩ :: vs)) := by
  have hlines := lines_codeAt hfit Position.start
  rw [codeAt_append] at hlines ⊢
  rw [codeAt_append, codeAt_cons _ (w := ⟨gap₁, .newline, ['\n']⟩) _ (by simp)]
  have hmoved : List.Forall₂ (Moved (textOf us gap₁) after)
      (codeAt (Position.start.after (textOf us [])) (w :: vs))
      (codeAt (((Position.start.after (textOf us [])).after gap₁).after ['\n'])
        (⟨gap₂, w.kind, w.text⟩ :: vs)) := by
    obtain ⟨-, -, hw, hvs⟩ := allFit_append.mp hfit
    have hbare : AllFit (⟨[], w.kind, w.text⟩ :: vs) tail := ⟨List.forall_mem_nil _, hw, hvs⟩
    refine moved_codeAt hbare ((Position.start.after (textOf us [])).after w.gap)
      ((((Position.start.after (textOf us [])).after gap₁).after ['\n']).after gap₂) ?_ ?_ ?_
    · rw [textOf_eq_append, Position.after_offset, start_after_offset, hgap]
      simp only [List.length_append]
      omega
    · simp only [Position.after_offset, hgap, List.length_append, List.length_singleton]
      omega
    · simp only [Position.after_line, hgap, List.count_append, List.count_singleton_self]
      omega
  refine Spaced.prepend (fun t ht => ?_) (fun t ts hsuffix hts hk => ?_)
    (fun star hstar hword u us hus => ?_) ?_
  · have hmem := List.mem_of_mem_filter ht
    obtain ⟨rest, hfits⟩ := fits_of_mem_tokensAt (allFit_append.mp hfit).1 t hmem
    have hstop := hbreak.front t hmem
    have hstart : t.start.offset < (textOf us gap₁).length := by
      obtain ⟨c, u, htext, -⟩ := fits_head hfits
      rw [Token.stop, htext, List.length_cons] at hstop
      omega
    exact ⟨rfl, rfl, .inl ⟨hstart, rfl⟩, .inl ⟨hstop, rfl⟩, fits_not_endOfText hfits⟩
  · obtain ⟨front, hfront⟩ := hsuffix
    rw [← hfront] at hlines
    refine callBehind_lineBreak hlines hmoved hts (fun hnil u hu => ?_) rfl
    subst hnil
    refine hbreak.call t u ?_ hu hk
    rw [← codeAt, ← hfront, List.getLast?_concat]
  · exact hbreak.splat star u hstar (by rw [← codeAt, hus]; rfl) hword
  · obtain ⟨depth, hdepth⟩ := hbreak.inside
    rw [codeAt, hdepth]
    exact .feed rfl (spaced_moved hmoved _)

/-- A line feed between two tokens inside the brackets of a value leaves a file its blocks, with their
labels, the names of their attributes and the shape of their values. -/
theorem ParsedFile.ofText_lineBreak {file before after : Text} {keepSource : Bool} {parsed : ParsedFile}
    {events : List ParseEvent} (hparsed : ofText file keepSource (before ++ after) = .ok (parsed, events))
    {xs ys : List Token} {ending : Position}
    (htokens : TokenStream.ofText (before ++ after) = .ok ⟨xs ++ ys, ending⟩)
    (hbreak : Nesting.Breakable before.length xs ys) :
    ∃ parsed' events', ofText file keepSource (before ++ '\n' :: after) = .ok (parsed', events') ∧
      List.Forall₂ Block.SameShape parsed.blocks parsed'.blocks := by
  obtain ⟨ws, tail, htext, hfit, htail, hstream⟩ := exists_lexemes htokens
  rw [TokenStream.mk.injEq] at hstream
  obtain ⟨hall, rfl⟩ := hstream
  obtain ⟨us, vs, rfl, rfl, rfl⟩ := exists_of_tokensAt_append hall.symm
  cases vs with
  | nil =>
    obtain ⟨t, us', hys, -⟩ := hbreak.back
    cases hys
  | cons w vs =>
    rw [textOf_append, textOf_cons] at htext
    obtain ⟨gap₁, gap₂, hgap, rfl, rfl⟩ := exists_gap htext (length_le_of_stops hbreak.front)
      (le_length_of_back hbreak.back)
    have hfit' := allFit_lineBreak hgap hfit
    have htokens' := readAll_textOf hfit' htail Position.start
    rw [textOf_lineBreak, textOf_cons] at htokens'
    change TokenStream.ofText _ = _ at htokens'
    have hspaced := spaced_lineBreak (gap₂ ++ (w.text ++ textOf vs tail)) hgap hfit hbreak
    unfold ofText at hparsed ⊢
    rw [htokens] at hparsed
    rw [htokens']
    dsimp only at hparsed ⊢
    obtain ⟨⟨blocks, passed⟩, hblocks, hparsed⟩ := Reading.bind_ok hparsed
    cases hparsed
    have hat : (lineBreak (textOf us gap₁) (gap₂ ++ (w.text ++ textOf vs tail))).At .outside
        (.ofTokens (tokensAt Position.start us ++ tokensAt (Position.start.after (textOf us [])) (w :: vs)))
        (.ofTokens (tokensAt Position.start
          (us ++ ⟨gap₁, .newline, ['\n']⟩ :: ⟨gap₂, w.kind, w.text⟩ :: vs))) := by
      refine ⟨?_, .inl ⟨Nat.zero_le _, rfl⟩⟩
      rw [← tokensAt_append]
      exact hspaced
    obtain ⟨⟨blocks', passed'⟩, hblocks', hsame⟩ :=
      readBlocks_follows file keepSource 0 0 hat _ hblocks
    refine ⟨⟨file, blocks'⟩, passed', ?_, hsame⟩
    change (readBlocks (lineBreak _ _).source' _ _ _ _ >>= fun read => _) = _
    rw [hblocks']
    rfl

end HclTidy
