import HclTidy.Proofs.Expr.Spacing

/-!
# Expressions with line breaks between brackets

Where a token list has line breaks added inside brackets, every function of the grammar reads what it
read without them, and it is left in front of the same tokens.
-/

set_option autoImplicit false

namespace HclTidy.Expr

open Spacing

variable {g : Spacing} {mode : LineMode} {depth : Nat} {c c' : Cursor}

/-! ## Operators, names and heads of expressions -/

theorem operator?_rel (hm : (Nesting.inside depth).Allows mode)
    (h : g.Spaced (.inside depth) c.rest c'.rest) (least : Nat) :
    Option.Rel (fun found found' => found'.1 = found.1 ∧
        g.TakenTo (.inside depth) .operator found.2 found'.2)
      (operator? mode least c) (operator? mode least c') := by
  have htaken := accept?_inner .operator (by decide) hm h
  unfold operator?
  generalize c.accept? mode .operator = found at htaken
  generalize c'.accept? mode .operator = found' at htaken
  cases htaken with
  | none => exact .none
  | @some s s' htaken =>
    dsimp only
    rw [htaken.same.text]
    cases precedence? s.value.text with
    | none => exact .none
    | some strength =>
      dsimp only
      by_cases hlt : strength < least
      · rw [if_pos hlt, if_pos hlt]
        exact .none
      · rw [if_neg hlt, if_neg hlt]
        exact .some ⟨rfl, htaken⟩

theorem nameTail_follows (hm : (Nesting.inside depth).Allows mode) :
    ∀ {c c' : Cursor}, g.At (.inside depth) c c' →
      Follows (TailSpaced g (.inside depth) fun names names' => names' = names)
        (nameTail g.source mode c) (nameTail g.source' mode c') := by
  intro c
  induction hn : c.rest.length using Nat.strongRecOn generalizing c with
  | ind n ih =>
    subst hn
    intro c' h
    have htaken := accept?_inner .doubleColon (by decide) hm h.rest
    rw [nameTail, nameTail]
    generalize c.accept? mode .doubleColon = found at htaken
    generalize c'.accept? mode .doubleColon = found' at htaken
    cases htaken with
    | none => exact follows_ok ⟨h, rfl⟩
    | @some colons colons' hcolons =>
      refine (expect_inner (by decide) hm hcolons.next.rest).bind fun part part' hpart => ?_
      have h₁ := colons.shorter
      have h₂ := part.shorter
      refine (ih _ (by omega) rfl hpart.next).bind fun more more' hmore => ?_
      refine follows_ok ⟨hmore.next, ?_⟩
      rw [hmore.value, hpart.same.text]

theorem secondName_follows (h : g.At (.inside (depth + 1)) c c') :
    Follows (TailSpaced g (.inside (depth + 1)) fun _ _ => True) (secondName g.source c)
      (secondName g.source' c') := by
  have hm := Nesting.allows_ignored depth
  have htaken := accept?_inner .comma (by decide) hm h.rest
  unfold secondName
  generalize c.accept? .ignored .comma = found at htaken
  generalize c'.accept? .ignored .comma = found' at htaken
  cases htaken with
  | none => exact follows_ok ⟨h, trivial⟩
  | some hcomma =>
    refine (expect_inner (by decide) hm hcomma.next.rest).bind fun name name' hname => ?_
    exact follows_ok ⟨hname.next, trivial⟩

theorem callFollows_eq {source : Source} (hend : source.endToken.kind = .endOfText) (name : Token)
    (h : mode = .significant → ∀ t us, c.rest = t :: us → t.kind ≠ .newline) :
    callFollows source mode name c = name.callBehind c.rest := by
  have hview : c.view mode = c.rest.dropWhile (Token.isKind .newline) := by
    cases mode with
    | ignored => rfl
    | significant =>
      cases hrest : c.rest with
      | nil => exact hrest
      | cons t us =>
        rw [Comparison.dropWhile_cons (h rfl t us hrest)]
        exact hrest
  unfold callFollows Token.callBehind Cursor.peek
  rw [hview]
  cases c.rest.dropWhile (Token.isKind .newline) with
  | nil => simp [hend]
  | cons t us => rfl

theorem callFollows_newline {source : Source} (name : Token) {t : Token} {us : List Token}
    (hview : c.view mode = t :: us) (ht : t.kind = .newline) :
    callFollows source mode name c = false := by
  unfold callFollows
  rw [Cursor.peek_of_view source hview]
  simp [ht]

/-- A name begins a call on both sides or on none. -/
theorem callFollows_same (hm : (Nesting.inside depth).Allows mode)
    (h : g.Spaced (.inside depth) c.rest c'.rest) {name name' : Token}
    (hcall : name'.callBehind c'.rest = name.callBehind c.rest) :
    callFollows g.source' mode name' c' = callFollows g.source mode name c := by
  by_cases hbreak : mode = .significant ∧ ∃ t us, c.rest = t :: us ∧ t.kind = .newline
  · obtain ⟨rfl, t, us, hrest, ht⟩ := hbreak
    have hnext := next_view hm h
    have hview : c.view .significant = t :: us := hrest
    rw [hview] at hnext
    generalize hview' : c'.view .significant = ts' at hnext
    cases hnext with
    | cons hsame =>
      rw [callFollows_newline name hview ht, callFollows_newline name' hview' (hsame.kind.trans ht)]
  · have hfirst : mode = .significant → ∀ t us, c.rest = t :: us → t.kind ≠ .newline :=
      fun hmode t us hrest ht => hbreak ⟨hmode, t, us, hrest, ht⟩
    have hfirst' : mode = .significant → ∀ t us, c'.rest = t :: us → t.kind ≠ .newline := by
      rintro rfl t us hrest ht
      have hnext := next_view hm h
      rw [show c'.view .significant = t :: us from hrest] at hnext
      generalize hview : c.view .significant = ts at hnext
      cases hnext with
      | cons hsame => exact hfirst rfl _ _ hview (hsame.kind.symm.trans ht)
    rw [callFollows_eq g.ending name hfirst, callFollows_eq g.ending' name' hfirst', hcall]

theorem atFor_same (h : g.Spaced (.inside (depth + 1)) c.rest c'.rest) :
    atFor g.source' c' = atFor g.source c := by
  have htaken := acceptWord?_rel "for".toList h
  unfold atFor
  generalize c.acceptWord? .ignored "for".toList = found at htaken
  generalize c'.acceptWord? .ignored "for".toList = found' at htaken
  cases htaken with
  | none => rfl
  | some hfor =>
    dsimp only
    rw [(peek_same (Nesting.allows_ignored depth) hfor.next.rest).1]

theorem sign_same (t t' : Token) (hk : t'.kind = t.kind) (ht : t'.text = t.text) :
    (t'.isWord .operator ['-'] || t'.isWord .operator ['!']) =
      (t.isWord .operator ['-'] || t.isWord .operator ['!']) := by
  rw [isWord_same _ _ t t' hk ht, isWord_same _ _ t t' hk ht]

theorem sign?_rel (hm : (Nesting.inside depth).Allows mode)
    (h : g.Spaced (.inside depth) c.rest c'.rest) :
    Option.Rel (g.TakenTo (.inside depth) .operator) (sign? mode c) (sign? mode c') := by
  have htaken := takeIf?_rel sign_same hm h
  unfold sign?
  generalize c.takeIf? mode _ = found at htaken
  generalize c'.takeIf? mode _ = found' at htaken
  cases htaken with
  | none => exact .none
  | @some s s' htaken =>
    have hkind : s.value.kind = .operator := by
      have hsign := htaken.2
      simp only [Token.isWord, Bool.or_eq_true, Bool.and_eq_true, decide_eq_true_eq] at hsign
      exact hsign.elim And.left And.left
    exact .some ⟨htaken.1.same, hkind, Nesting.next_inner (by decide) hkind ▸ htaken.1.next⟩

theorem separator_same (t t' : Token) (hk : t'.kind = t.kind) (_ : t'.text = t.text) :
    (t'.kind = .equal || t'.kind = .colon) = (t.kind = .equal || t.kind = .colon : Bool) := by
  rw [hk]

theorem next_word {t : Token} {kind : Token.Kind} {word : Text} (hk : Nesting.isInner kind = true)
    (h : t.isWord kind word = true) : (Nesting.inside depth).next t = .inside depth := by
  rw [Token.isWord, Bool.and_eq_true, decide_eq_true_eq] at h
  exact Nesting.next_inner hk h.1

theorem next_attribute {t : Token} (h : (t.kind = .ident || t.kind = .number : Bool) = true) :
    (Nesting.inside depth).next t = .inside depth := by
  rw [Bool.or_eq_true, decide_eq_true_eq, decide_eq_true_eq] at h
  obtain h | h := h
  · exact Nesting.next_inner (by decide) h
  · exact Nesting.next_inner (by decide) h

theorem next_separator {t : Token} (h : (t.kind = .equal || t.kind = .colon : Bool) = true) :
    (Nesting.inside depth).next t = .inside depth := by
  rw [Bool.or_eq_true, decide_eq_true_eq, decide_eq_true_eq] at h
  obtain h | h := h
  · exact Nesting.next_inner (by decide) h
  · exact Nesting.next_inner (by decide) h

/-! ## Splats -/

/-- Where line breaks count, the `]` of a splat has to follow its `*` at once. -/
theorem readStep_splat_newline {source : Source} {first n : Token} {us : List Token}
    {splat : Step Token c} (hfirst : first.kind = .lbrack)
    (hsplat : c.takeIf? .ignored (Token.isWord .operator ['*']) = some splat)
    (hrest : splat.next.rest = n :: us) (hn : n.kind = .newline) :
    readStep source .significant first c = splat.next.fail (.expected (.ofKind .rbrack)) n := by
  have hview : splat.next.view .significant = n :: us := hrest
  have hclose : splat.next.accept? .significant .rbrack = none :=
    Cursor.takeIf?_none_of_view hview (decide_eq_false (by rw [hn]; decide))
  have hexpect : splat.next.expect source .significant .rbrack =
      splat.next.fail (.expected (.ofKind .rbrack)) n := by
    rw [Cursor.expect, hclose, Cursor.peek_of_view source hview]
  rw [readStep, if_neg (by rw [hfirst]; decide), if_pos hfirst, hsplat]
  dsimp only
  rw [hexpect]
  rfl

/-! ## The functions of the grammar -/

mutual

theorem read_follows {mode : LineMode} {depth : Nat} {c c' : Cursor}
    (hm : (Nesting.inside depth).Allows mode) (h : g.Spaced (.inside depth) c.rest c'.rest) :
    Follows (StepSpaced g (.inside depth) SameShape) (read g.source mode c) (read g.source' mode c') := by
  have hstart := (peek_same hm h).2
  rw [read, read]
  refine (readBinary_follows 1 hm h).bind fun condition condition' hcondition => ?_
  have h₁ := condition.shorter
  have hquestion := accept?_inner .question (by decide) hm hcondition.next.rest
  dsimp only
  generalize condition.next.accept? mode .question = found at hquestion
  generalize condition'.next.accept? mode .question = found' at hquestion
  cases hquestion with
  | none => exact follows_ok hcondition
  | @some question question' hquestion =>
    have h₂ := question.shorter
    refine (read_follows hm hquestion.next.rest).bind fun yes yes' hyes => ?_
    refine (expect_inner (by decide) hm hyes.next.rest).bind fun colon colon' hcolon => ?_
    have h₃ := yes.shorter
    have h₄ := colon.shorter
    refine (read_follows hm hcolon.next.rest).bind fun no no' hno => ?_
    exact follows_ok ⟨hno.next, .unknown (loosened_sourceFrom hstart hno.next)⟩
termination_by 16 * c.rest.length + 5

theorem readBinary_follows {mode : LineMode} {depth : Nat} {c c' : Cursor} (least : Nat)
    (hm : (Nesting.inside depth).Allows mode) (h : g.Spaced (.inside depth) c.rest c'.rest) :
    Follows (StepSpaced g (.inside depth) SameShape) (readBinary g.source mode least c)
      (readBinary g.source' mode least c') := by
  have hstart := (peek_same hm h).2
  rw [readBinary, readBinary]
  refine (readUnary_follows hm h).bind fun left left' hleft => ?_
  have h₁ := left.shorter
  refine (readOperations_follows least hm hleft.next hstart hleft.value).bind fun all all' hall => ?_
  exact follows_ok ⟨hall.next, hall.value⟩
termination_by 16 * c.rest.length + 4

theorem readOperations_follows {mode : LineMode} {depth : Nat} {c c' : Cursor} (least : Nat)
    {start start' : Nat} {left left' : Expr} (hm : (Nesting.inside depth).Allows mode)
    (h : g.At (.inside depth) c c') (hstart : g.starts start start') (hleft : SameShape left left') :
    Follows (TailSpaced g (.inside depth) SameShape) (readOperations g.source mode least start left c)
      (readOperations g.source' mode least start' left' c') := by
  have hoperator := operator?_rel hm h.rest least
  rw [readOperations, readOperations]
  generalize operator? mode least c = found at hoperator
  generalize operator? mode least c' = found' at hoperator
  cases hoperator with
  | none => exact follows_ok ⟨h, hleft⟩
  | @some found found' hoperator =>
    obtain ⟨strength, operator⟩ := found
    obtain ⟨strength', operator'⟩ := found'
    obtain ⟨hstrength, hoperator⟩ := hoperator
    dsimp only at hstrength hoperator ⊢
    rw [hstrength]
    have h₁ := operator.shorter
    refine (readBinary_follows (strength + 1) hm hoperator.next.rest).bind fun right right' hright => ?_
    have h₂ := right.shorter
    have hvalue := SameShape.unknown (loosened_sourceFrom hstart hright.next)
    refine (readOperations_follows least hm hright.next hstart hvalue).bind fun all all' hall => ?_
    exact follows_ok ⟨hall.next, hall.value⟩
termination_by 16 * c.rest.length

theorem readUnary_follows {mode : LineMode} {depth : Nat} {c c' : Cursor}
    (hm : (Nesting.inside depth).Allows mode) (h : g.Spaced (.inside depth) c.rest c'.rest) :
    Follows (StepSpaced g (.inside depth) SameShape) (readUnary g.source mode c)
      (readUnary g.source' mode c') := by
  have hsign := sign?_rel hm h
  rw [readUnary, readUnary]
  generalize sign? mode c = found at hsign
  generalize sign? mode c' = found' at hsign
  cases hsign with
  | none => exact readPostfix_follows hm h
  | @some sign sign' hsign =>
    have h₁ := sign.shorter
    refine (readUnary_follows hm hsign.next.rest).bind fun operand operand' hoperand => ?_
    have hsource := loosened_sourceFrom hsign.same.start hoperand.next
    refine follows_ok ⟨hoperand.next, ?_⟩
    dsimp only
    rw [hsign.same.text, hoperand.value.number]
    split
    · exact .literal hsource
    · exact .unknown hsource
termination_by 16 * c.rest.length + 3

theorem readPostfix_follows {mode : LineMode} {depth : Nat} {c c' : Cursor}
    (hm : (Nesting.inside depth).Allows mode) (h : g.Spaced (.inside depth) c.rest c'.rest) :
    Follows (StepSpaced g (.inside depth) SameShape) (readPostfix g.source mode c)
      (readPostfix g.source' mode c') := by
  have hstart := (peek_same hm h).2
  rw [readPostfix, readPostfix]
  refine (readPrimary_follows hm h).bind fun first first' hfirst => ?_
  have h₁ := first.shorter
  refine (readSteps_follows hm hfirst.next hstart hfirst.value).bind fun all all' hall => ?_
  exact follows_ok ⟨hall.next, hall.value⟩
termination_by 16 * c.rest.length + 2

theorem readSteps_follows {mode : LineMode} {depth : Nat} {c c' : Cursor} {start start' : Nat}
    {before before' : Expr} (hm : (Nesting.inside depth).Allows mode) (h : g.At (.inside depth) c c')
    (hstart : g.starts start start') (hbefore : SameShape before before') :
    Follows (TailSpaced g (.inside depth) SameShape) (readSteps g.source mode start before c)
      (readSteps g.source' mode start' before' c') := by
  have hfirst := take?_rel hm h.rest
  rw [readSteps, readSteps]
  generalize c.take? mode = found at hfirst
  generalize c'.take? mode = found' at hfirst
  cases hfirst with
  | none => exact follows_ok ⟨h, hbefore⟩
  | @some first first' hfirst =>
    have h₁ := first.shorter
    refine (readStep_follows hm hfirst.same hfirst.next).bind fun found found' hstep => ?_
    cases hstep with
    | none => exact follows_ok ⟨h, hbefore⟩
    | @some step step' hstep =>
      have h₂ := step.shorter
      have hvalue := hbefore.withStep step.value (loosened_sourceFrom hstart hstep.next)
      dsimp only
      rw [hstep.value]
      refine (readSteps_follows hm hstep.next hstart hvalue).bind fun all all' hall => ?_
      exact follows_ok ⟨hall.next, hall.value⟩
termination_by 16 * c.rest.length

theorem readStep_follows {mode : LineMode} {depth : Nat} {c c' : Cursor} {first first' : Token}
    (hm : (Nesting.inside depth).Allows mode) (hfirst : g.Same first first')
    (h : g.At ((Nesting.inside depth).next first) c c') :
    Follows (Option.Rel (StepSpaced g (.inside depth) fun static static' => static' = static))
      (readStep g.source mode first c) (readStep g.source' mode first' c') := by
  rw [readStep, readStep, hfirst.kind]
  by_cases hdot : first.kind = .dot
  · rw [if_pos hdot, if_pos hdot]
    rw [Nesting.next_inner (by decide) hdot] at h
    have hname := take?_rel hm h.rest
    generalize c.take? mode = found at hname
    generalize c'.take? mode = found' at hname
    cases hname with
    | none => exact follows_error _ _
    | @some name name' hname =>
      dsimp only
      rw [hname.same.kind, isWord_same _ _ _ _ hname.same.kind hname.same.text]
      split
      · next hkind =>
        exact follows_ok (.some ⟨next_attribute hkind ▸ hname.next, rfl⟩)
      · split
        · next hsplat => exact follows_ok (.some ⟨next_word (by decide) hsplat ▸ hname.next, rfl⟩)
        · exact follows_error _ _
  · rw [if_neg hdot, if_neg hdot]
    by_cases hbrack : first.kind = .lbrack
    · rw [if_pos hbrack, if_pos hbrack]
      rw [Nesting.next_opening (.inr (.inl rfl)) hbrack] at h
      have hin := Nesting.allows_ignored depth
      have hsplat := takeIf?_rel (isWord_same .operator ['*']) hin h.rest
      generalize c.takeIf? .ignored (Token.isWord .operator ['*']) = found at hsplat
      generalize c'.takeIf? .ignored (Token.isWord .operator ['*']) = found' at hsplat
      cases hsplat with
      | none =>
        refine (read_follows hin h.rest).bind fun key key' hkey => ?_
        refine (expect_closing (.inr (.inl rfl)) hkey.next.rest).bind fun close close' hclose => ?_
        exact follows_ok (.some ⟨hclose.next, hkey.value.isStaticIndex⟩)
      | @some splat splat' hsplat =>
        obtain ⟨hsplat, hword⟩ := hsplat
        have hinside := next_word (by decide) hword ▸ hsplat.next
        refine (expect_splat hm hinside.rest (hsplat.behind.splat hword)).bind fun close close' hclose => ?_
        exact follows_ok (.some ⟨hclose.next, rfl⟩)
    · rw [if_neg hbrack, if_neg hbrack]
      exact follows_ok .none
termination_by 16 * c.rest.length + 6

theorem readPrimary_follows {mode : LineMode} {depth : Nat} {c c' : Cursor}
    (hm : (Nesting.inside depth).Allows mode) (h : g.Spaced (.inside depth) c.rest c'.rest) :
    Follows (StepSpaced g (.inside depth) SameShape) (readPrimary g.source mode c)
      (readPrimary g.source' mode c') := by
  have hfirst := take?_rel hm h
  rw [readPrimary, readPrimary]
  generalize c.take? mode = found at hfirst
  generalize c'.take? mode = found' at hfirst
  cases hfirst with
  | none => exact follows_error _ _
  | @some first first' hfirst =>
    have h₁ := first.shorter
    have hsame := hfirst.same
    dsimp only
    rw [hsame.kind]
    cases hk : first.value.kind with
    | number =>
      rw [hsame.text]
      exact follows_ok ⟨Nesting.next_inner (by decide) hk ▸ hfirst.next, .refl _⟩
    | string =>
      rw [hsame.text]
      have hnext := Nesting.next_inner (by decide) hk ▸ hfirst.next
      exact follows_ok ⟨⟨hnext.rest, hnext.stop⟩, .refl _⟩
    | heredoc =>
      rw [hsame.text]
      have hnext := Nesting.next_inner (by decide) hk ▸ hfirst.next
      exact follows_ok ⟨⟨hnext.rest, hnext.stop⟩, .refl _⟩
    | ident =>
      have hnext := Nesting.next_inner (by decide) hk ▸ hfirst.next
      have hcall := callFollows_same hm hnext.rest (hfirst.behind.call hk)
      have hkeyword : isKeyword first'.value = isKeyword first.value := by
        rw [isKeyword, isKeyword, hsame.text]
      dsimp only
      rw [hkeyword, hcall, hsame.text]
      split
      · exact follows_ok ⟨hnext, .refl _⟩
      · split
        · refine (nameTail_follows hm hnext).bind fun names names' hnames => ?_
          refine (expect_opening (.inr (.inr rfl)) hm hnames.next.rest).bind fun paren paren' hparen => ?_
          have h₂ := names.notLonger
          have h₃ := paren.shorter
          refine (readArguments_follows hparen.next).bind fun args args' hargs => ?_
          refine (expect_closing (.inr (.inr rfl)) hargs.next.rest).bind fun close close' hclose => ?_
          refine follows_ok ⟨hclose.next, ?_, rfl⟩
          have hsource := loosened_sourceFrom hsame.start hclose.next
          simp only [squeezed, hsource.squeezed, hnames.value, hargs.value]
        · exact follows_ok ⟨hnext, .refl _⟩
    | lbrack =>
      have hnext := Nesting.next_opening (.inr (.inl rfl)) hk ▸ hfirst.next
      dsimp only
      rw [atFor_same hnext.rest]
      split
      · refine (readFor_follows (.inr (.inl rfl)) hsame.start hnext.rest).bind fun all all' hall => ?_
        exact follows_ok ⟨hall.next, hall.value⟩
      · refine (readItems_follows hnext).bind fun items items' hitems => ?_
        refine (expect_closing (.inr (.inl rfl)) hitems.next.rest).bind fun close close' hclose => ?_
        refine follows_ok ⟨hclose.next, ?_, rfl⟩
        have hsource := loosened_sourceFrom hsame.start hclose.next
        simp only [squeezed, hsource.squeezed, hitems.value]
    | lbrace =>
      have hnext := Nesting.next_opening (.inl rfl) hk ▸ hfirst.next
      dsimp only
      rw [atFor_same hnext.rest]
      split
      · refine (readFor_follows (.inl rfl) hsame.start hnext.rest).bind fun all all' hall => ?_
        exact follows_ok ⟨hall.next, hall.value⟩
      · refine (readPairs_follows hnext).bind fun pairs pairs' hpairs => ?_
        refine (expect_closing (.inl rfl) hpairs.next.rest).bind fun close close' hclose => ?_
        refine follows_ok ⟨hclose.next, ?_, rfl⟩
        have hsource := loosened_sourceFrom hsame.start hclose.next
        simp only [squeezed, hsource.squeezed, hpairs.value]
    | lparen =>
      have hnext := Nesting.next_opening (.inr (.inr rfl)) hk ▸ hfirst.next
      dsimp only
      refine (read_follows (Nesting.allows_ignored depth) hnext.rest).bind fun inner inner' hinner => ?_
      refine (expect_closing (.inr (.inr rfl)) hinner.next.rest).bind fun close close' hclose => ?_
      have hsource := loosened_sourceFrom hsame.start hclose.next
      exact follows_ok ⟨hclose.next, sameShape_inParens hsource hinner.value⟩
    | _ => exact follows_error _ _
termination_by 16 * c.rest.length + 1

theorem readArguments_follows {depth : Nat} {c c' : Cursor} (h : g.At (.inside (depth + 1)) c c') :
    Follows (TailSpaced g (.inside (depth + 1)) fun args args' => allSqueezed args' = allSqueezed args)
      (readArguments g.source c) (readArguments g.source' c') := by
  have hm := Nesting.allows_ignored depth
  rw [readArguments, readArguments, (peek_same hm h.rest).1]
  split
  · exact follows_ok ⟨h, rfl⟩
  · refine (read_follows hm h.rest).bind fun first first' hfirst => ?_
    have h₁ := first.shorter
    have h₂ := (first.next.skip .ignored .ellipsis).notLonger
    have hdots := skip_at .ellipsis (by decide) hfirst.next
    have hcomma := accept?_inner .comma (by decide) hm hdots.rest
    dsimp only
    generalize (first.next.skip .ignored .ellipsis).next.accept? .ignored .comma = found at hcomma
    generalize (first'.next.skip .ignored .ellipsis).next.accept? .ignored .comma = found' at hcomma
    cases hcomma with
    | none => exact follows_ok ⟨hdots, congrArg (fun e => [e]) hfirst.value.squeezed⟩
    | @some comma comma' hcomma =>
      have h₃ := comma.shorter
      refine (readArguments_follows hcomma.next).bind fun more more' hmore => ?_
      exact follows_ok ⟨hmore.next, congrArg₂ List.cons hfirst.value.squeezed hmore.value⟩
termination_by 16 * c.rest.length + 6

theorem readItems_follows {depth : Nat} {c c' : Cursor} (h : g.At (.inside (depth + 1)) c c') :
    Follows (TailSpaced g (.inside (depth + 1)) fun items items' =>
        allSqueezed items' = allSqueezed items)
      (readItems g.source c) (readItems g.source' c') := by
  have hm := Nesting.allows_ignored depth
  rw [readItems, readItems, (peek_same hm h.rest).1]
  split
  · exact follows_ok ⟨h, rfl⟩
  · refine (read_follows hm h.rest).bind fun first first' hfirst => ?_
    have h₁ := first.shorter
    have hcomma := accept?_inner .comma (by decide) hm hfirst.next.rest
    generalize first.next.accept? .ignored .comma = found at hcomma
    generalize first'.next.accept? .ignored .comma = found' at hcomma
    cases hcomma with
    | none => exact follows_ok ⟨hfirst.next, congrArg (fun e => [e]) hfirst.value.squeezed⟩
    | @some comma comma' hcomma =>
      have h₂ := comma.shorter
      refine (readItems_follows hcomma.next).bind fun more more' hmore => ?_
      exact follows_ok ⟨hmore.next, congrArg₂ List.cons hfirst.value.squeezed hmore.value⟩
termination_by 16 * c.rest.length + 6

theorem readPairs_follows {depth : Nat} {c c' : Cursor} (h : g.At (.inside (depth + 1)) c c') :
    Follows (TailSpaced g (.inside (depth + 1)) fun pairs pairs' =>
        allPairsSqueezed pairs' = allPairsSqueezed pairs)
      (readPairs g.source c) (readPairs g.source' c') := by
  have hm := Nesting.allows_ignored depth
  rw [readPairs, readPairs, (peek_same hm h.rest).1]
  split
  · exact follows_ok ⟨h, rfl⟩
  · split
    · exact follows_error _ _
    · refine (read_follows hm h.rest).bind fun key key' hkey => ?_
      have h₁ := key.shorter
      have hseparator := takeIf?_rel separator_same hm hkey.next.rest
      generalize key.next.takeIf? .ignored _ = found at hseparator
      generalize key'.next.takeIf? .ignored _ = found' at hseparator
      cases hseparator with
      | none => exact follows_error _ _
      | @some separator separator' hseparator =>
        have h₂ := separator.shorter
        have hinside := next_separator hseparator.2 ▸ hseparator.1.next
        refine (read_follows hm hinside.rest).bind fun value value' hvalue => ?_
        have h₃ := value.shorter
        have h₄ := (value.next.skip .ignored .comma).notLonger
        have hcomma := skip_at .comma (by decide) hvalue.next
        refine (readPairs_follows hcomma).bind fun more more' hmore => ?_
        refine follows_ok ⟨hmore.next, congrArg₂ List.cons ?_ hmore.value⟩
        exact congrArg₂ Prod.mk hkey.value.squeezed hvalue.value.squeezed
termination_by 16 * c.rest.length + 6

theorem readFor_follows {depth : Nat} {c c' : Cursor} {start start' : Nat} {closing : Token.Kind}
    (hc : closing = .rbrace ∨ closing = .rbrack ∨ closing = .rparen) (hstart : g.starts start start')
    (h : g.Spaced (.inside (depth + 1)) c.rest c'.rest) :
    Follows (StepSpaced g (.inside depth) SameShape) (readFor g.source start closing c)
      (readFor g.source' start' closing c') := by
  have hm := Nesting.allows_ignored depth
  rw [readFor, readFor]
  refine (expectWord_follows h).bind fun keyword keyword' hkeyword => ?_
  refine (expect_inner (by decide) hm hkeyword.next.rest).bind fun first first' hfirst => ?_
  refine (secondName_follows hfirst.next).bind fun second second' hsecond => ?_
  refine (expectWord_follows hsecond.next.rest).bind fun within within' hwithin => ?_
  have h₁ := keyword.shorter
  have h₂ := first.shorter
  have h₃ := second.notLonger
  have h₄ := within.shorter
  refine (read_follows hm hwithin.next.rest).bind fun collection collection' hcollection => ?_
  refine (expect_inner (by decide) hm hcollection.next.rest).bind fun colon colon' hcolon => ?_
  have h₅ := collection.shorter
  have h₆ := colon.shorter
  refine (read_follows hm hcolon.next.rest).bind fun item item' hitem => ?_
  have h₇ := item.shorter
  refine (readForValue_follows closing hitem.next).bind fun value value' hvalue => ?_
  have h₈ := value.notLonger
  refine (readForFilter_follows hvalue.next).bind fun filter filter' hfilter => ?_
  refine (expect_closing hc hfilter.next.rest).bind fun close close' hclose => ?_
  exact follows_ok ⟨hclose.next, .unknown (loosened_sourceFrom hstart hclose.next)⟩
termination_by 16 * c.rest.length + 6

theorem readForValue_follows {depth : Nat} {c c' : Cursor} (closing : Token.Kind)
    (h : g.At (.inside (depth + 1)) c c') :
    Follows (TailSpaced g (.inside (depth + 1)) fun _ _ => True) (readForValue g.source closing c)
      (readForValue g.source' closing c') := by
  have hm := Nesting.allows_ignored depth
  rw [readForValue, readForValue]
  split
  · refine (expect_inner (by decide) hm h.rest).bind fun arrow arrow' harrow => ?_
    have h₁ := arrow.shorter
    refine (read_follows hm harrow.next.rest).bind fun value value' hvalue => ?_
    exact follows_ok ⟨skip_at .ellipsis (by decide) hvalue.next, trivial⟩
  · exact follows_ok ⟨h, trivial⟩
termination_by 16 * c.rest.length + 6

theorem readForFilter_follows {depth : Nat} {c c' : Cursor} (h : g.At (.inside (depth + 1)) c c') :
    Follows (TailSpaced g (.inside (depth + 1)) fun _ _ => True) (readForFilter g.source c)
      (readForFilter g.source' c') := by
  have hkeyword := acceptWord?_rel "if".toList h.rest
  rw [readForFilter, readForFilter]
  generalize c.acceptWord? .ignored "if".toList = found at hkeyword
  generalize c'.acceptWord? .ignored "if".toList = found' at hkeyword
  cases hkeyword with
  | none => exact follows_ok ⟨h, trivial⟩
  | @some keyword keyword' hkeyword =>
    have h₁ := keyword.shorter
    refine (read_follows (Nesting.allows_ignored depth) hkeyword.next.rest).bind fun test test' htest => ?_
    exact follows_ok ⟨htest.next, trivial⟩
termination_by 16 * c.rest.length + 6

end

end HclTidy.Expr
