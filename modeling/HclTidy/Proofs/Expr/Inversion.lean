import HclTidy.Proofs.Expr.Alike

/-!
# What has been read

What a function of the grammar that gave a result has read, told from the result: the token it began
with, and the parts that a chain of operations or steps is made of.
-/

set_option autoImplicit false

namespace HclTidy.Expr

open Comparison

variable {source : Source} {mode : LineMode} {c : Cursor}

/-! ## Operators, calls and `for` expressions -/

theorem operator?_accept {least strength : Nat} {s : Step Token c}
    (hs : operator? mode least c = some (strength, s)) : c.accept? mode .operator = some s ∧
      precedence? s.value.text = some strength ∧ ¬ strength < least := by
  unfold operator? at hs
  split at hs
  · cases hs
  · next step hstep =>
    split at hs
    · cases hs
    · next strength' hp =>
      split at hs
      · cases hs
      · next hlt =>
        cases hs
        exact ⟨hstep, hp, hlt⟩

theorem sign_end : ∀ t : Token, t.kind = .newline ∨ t.kind = .rbrace →
    (t.isWord .operator ['-'] || t.isWord .operator ['!']) = false := by
  intro t ht
  rw [isWord_end _ (by decide) t ht, isWord_end _ (by decide) t ht, Bool.or_self]

/-- The token right behind the first part of a function name. -/
theorem exists_view_of_call {names : Tail (List Text) c} (hnames : nameTail source mode c = .ok names)
    {paren : Step Token names.next} (hparen : names.next.expect source mode .lparen = .ok paren) :
    ∃ t us, c.view mode = t :: us ∧ paren.next.rest <:+ us := by
  rw [nameTail] at hnames
  split at hnames
  · cases hnames
    exact ⟨_, _, (Cursor.view_of_takeIf? (Cursor.expect_ok hparen)).1, List.suffix_refl _⟩
  · next colons hcolons =>
    obtain ⟨part, -, hnames⟩ := Reading.bind_ok hnames
    obtain ⟨more, -, hnames⟩ := Reading.bind_ok hnames
    cases hnames
    exact ⟨_, _, (Cursor.view_of_takeIf? hcolons).1,
      paren.suffix.trans (more.suffix.trans part.suffix)⟩

/-- What is read as a `for` expression begins like one. -/
theorem atFor_of_readFor {start : Nat} {closing : Token.Kind} {s : Step Expr c}
    (hs : readFor source start closing c = .ok s) : atFor source c = true := by
  rw [readFor] at hs
  obtain ⟨keyword, hkeyword, hs⟩ := Reading.bind_ok hs
  obtain ⟨first, hfirst, -⟩ := Reading.bind_ok hs
  obtain ⟨hview, hk⟩ := Cursor.view_of_takeIf? (Cursor.expect_ok hfirst)
  unfold atFor Cursor.acceptWord?
  rw [Cursor.expectWord_ok hkeyword]
  simp only [Cursor.peek_of_view source hview]
  exact hk

/-! ## Operations and steps -/

theorem readOperations_cases {least start : Nat} {left : Expr} {s : Tail Expr c}
    (hs : readOperations source mode least start left c = .ok s) :
    (operator? mode least c = none ∧ s.value = left ∧ s.next = c) ∨
      ∃ (strength : Nat) (operator : Step Token c) (right : Step Expr operator.next)
        (all : Tail Expr right.next), operator? mode least c = some (strength, operator) ∧
        readBinary source mode (strength + 1) operator.next = .ok right ∧
        readOperations source mode least start (.unknown (right.next.sourceFrom source start))
          right.next = .ok all ∧ s.value = all.value ∧ s.next = all.next := by
  rw [readOperations] at hs
  split at hs
  · next hop =>
    cases hs
    exact .inl ⟨hop, rfl, rfl⟩
  · next strength operator hop =>
    obtain ⟨right, hright, hs⟩ := Reading.bind_ok hs
    obtain ⟨all, hall, hs⟩ := Reading.bind_ok hs
    cases hs
    exact .inr ⟨strength, operator, right, all, hop, hright, hall, rfl, rfl⟩

/-- The first token of an attribute or index step. -/
def BeginsStep (t : Token) : Prop := t.kind = .dot ∨ t.kind = .lbrack

theorem BeginsStep.ne_newline {t : Token} (h : BeginsStep t) : t.kind ≠ .newline := by
  intro hk
  rw [BeginsStep, hk] at h
  obtain h | h := h <;> cases h

theorem readStep_none {first : Token} (h : ¬ BeginsStep first) :
    readStep source mode first c = .ok none := by
  rw [readStep, if_neg fun hk => h (.inl hk), if_neg fun hk => h (.inr hk)]

theorem not_beginsStep {first : Token} (hs : readStep source mode first c = .ok none) :
    ¬ BeginsStep first := by
  rw [readStep] at hs
  split at hs
  · split at hs
    · cases hs
    · split at hs
      · cases hs
      · split at hs <;> cases hs
  · next hdot =>
    split at hs
    · split at hs
      · obtain ⟨close, -, hs⟩ := Reading.bind_ok hs
        cases hs
      · obtain ⟨key, -, hs⟩ := Reading.bind_ok hs
        obtain ⟨close, -, hs⟩ := Reading.bind_ok hs
        cases hs
    · next hbrack => exact fun h => h.elim hdot hbrack

theorem beginsStep_of_some {first : Token} {step : Step Bool c}
    (hs : readStep source mode first c = .ok (some step)) : BeginsStep first := by
  by_contra h
  rw [readStep_none h] at hs
  cases hs

theorem readSteps_cases {start : Nat} {before : Expr} {s : Tail Expr c}
    (hs : readSteps source mode start before c = .ok s) :
    ((∀ t us, c.view mode = t :: us → ¬ BeginsStep t) ∧ s.value = before ∧ s.next = c) ∨
      ∃ (first : Step Token c) (step : Step Bool first.next) (all : Tail Expr step.next),
        c.take? mode = some first ∧ readStep source mode first.value first.next = .ok (some step) ∧
        readSteps source mode start
          (before.withStep step.value (step.next.sourceFrom source start)) step.next = .ok all ∧
        s.value = all.value ∧ s.next = all.next := by
  rw [readSteps] at hs
  split at hs
  · next htake =>
    cases hs
    refine .inl ⟨fun t us hview => ?_, rfl, rfl⟩
    obtain ⟨s, hs, -⟩ := Cursor.take?_of_view hview
    rw [htake] at hs
    cases hs
  · next first htake =>
    obtain ⟨step, hstep, hs⟩ := Reading.bind_ok hs
    cases step with
    | none =>
      cases hs
      refine .inl ⟨fun t us hview => ?_, rfl, rfl⟩
      rw [Cursor.view_of_take? htake] at hview
      cases hview
      exact not_beginsStep hstep
    | some step =>
      obtain ⟨all, hall, hs⟩ := Reading.bind_ok hs
      cases hs
      exact .inr ⟨first, step, all, htake, hstep, hall, rfl, rfl⟩

theorem readSteps_none {start : Nat} {before : Expr}
    (h : ∀ t us, c.view mode = t :: us → ¬ BeginsStep t) :
    readSteps source mode start before c = .ok ⟨before, c, List.suffix_refl _⟩ := by
  rw [readSteps]
  cases htake : c.take? mode with
  | none => rfl
  | some first =>
    simp only [readStep_none (h _ _ (Cursor.view_of_take? htake)), bind, Except.bind]

/-! ## The first token -/

/-- What has been read from the cursor up to `rest` begins with a token that is no line break. -/
def Begins (mode : LineMode) (c : Cursor) (rest : List Token) : Prop :=
  ∃ first, c.take? mode = some first ∧ first.value.kind ≠ .newline ∧ rest <:+ first.next.rest

theorem Begins.mono {rest rest' : List Token} (h : Begins mode c rest) (hsuffix : rest' <:+ rest) :
    Begins mode c rest' := by
  obtain ⟨first, hfirst, hn, hrest⟩ := h
  exact ⟨first, hfirst, hn, hsuffix.trans hrest⟩

theorem begins_readPrimary {s : Step Expr c} (hs : readPrimary source mode c = .ok s) :
    Begins mode c s.next.rest := by
  rw [readPrimary] at hs
  split at hs
  · cases hs
  · next first htake =>
    refine ⟨first, htake, ?_⟩
    dsimp only at hs
    split at hs
    · next hk =>
      cases hs
      exact ⟨by rw [hk]; decide, List.suffix_refl _⟩
    · next hk =>
      cases hs
      exact ⟨by rw [hk]; decide, List.suffix_refl _⟩
    · next hk =>
      cases hs
      exact ⟨by rw [hk]; decide, List.suffix_refl _⟩
    · next hk =>
      refine ⟨by rw [hk]; decide, ?_⟩
      split at hs
      · cases hs
        exact List.suffix_refl _
      · split at hs
        · obtain ⟨names, -, hs⟩ := Reading.bind_ok hs
          obtain ⟨paren, -, hs⟩ := Reading.bind_ok hs
          obtain ⟨args, -, hs⟩ := Reading.bind_ok hs
          obtain ⟨close, -, hs⟩ := Reading.bind_ok hs
          cases hs
          exact close.suffix.trans (args.suffix.trans (paren.suffix.trans names.suffix))
        · cases hs
          exact List.suffix_refl _
    · next hk =>
      refine ⟨by rw [hk]; decide, ?_⟩
      split at hs
      · obtain ⟨all, -, hs⟩ := Reading.bind_ok hs
        cases hs
        exact all.suffix
      · obtain ⟨items, -, hs⟩ := Reading.bind_ok hs
        obtain ⟨close, -, hs⟩ := Reading.bind_ok hs
        cases hs
        exact close.suffix.trans items.suffix
    · next hk =>
      refine ⟨by rw [hk]; decide, ?_⟩
      split at hs
      · obtain ⟨all, -, hs⟩ := Reading.bind_ok hs
        cases hs
        exact all.suffix
      · obtain ⟨pairs, -, hs⟩ := Reading.bind_ok hs
        obtain ⟨close, -, hs⟩ := Reading.bind_ok hs
        cases hs
        exact close.suffix.trans pairs.suffix
    · next hk =>
      refine ⟨by rw [hk]; decide, ?_⟩
      obtain ⟨inner, -, hs⟩ := Reading.bind_ok hs
      obtain ⟨close, -, hs⟩ := Reading.bind_ok hs
      cases hs
      exact close.suffix.trans inner.suffix
    · cases hs

theorem begins_readUnary {s : Step Expr c} (hs : readUnary source mode c = .ok s) :
    Begins mode c s.next.rest := by
  rw [readUnary] at hs
  split at hs
  · rw [readPostfix] at hs
    obtain ⟨first, hfirst, hs⟩ := Reading.bind_ok hs
    obtain ⟨all, -, hs⟩ := Reading.bind_ok hs
    cases hs
    exact (begins_readPrimary hfirst).mono all.suffix
  · next sign hsign =>
    obtain ⟨operand, -, hs⟩ := Reading.bind_ok hs
    cases hs
    refine ⟨sign, Cursor.take?_of_takeIf? hsign, fun hk => ?_, operand.suffix⟩
    have hwanted := (Cursor.view_of_takeIf? hsign).2
    rw [sign_end _ (.inl hk)] at hwanted
    cases hwanted

theorem begins_read {s : Step Expr c} (hs : read source mode c = .ok s) :
    Begins mode c s.next.rest := by
  rw [read] at hs
  obtain ⟨condition, hcondition, hs⟩ := Reading.bind_ok hs
  rw [readBinary] at hcondition
  obtain ⟨left, hleft, hcondition⟩ := Reading.bind_ok hcondition
  obtain ⟨all, -, hcondition⟩ := Reading.bind_ok hcondition
  cases hcondition
  have hbegins := (begins_readUnary hleft).mono all.suffix
  dsimp only at hs
  split at hs
  · cases hs
    exact hbegins
  · next question hq =>
    obtain ⟨yes, -, hs⟩ := Reading.bind_ok hs
    obtain ⟨colon, -, hs⟩ := Reading.bind_ok hs
    obtain ⟨no, -, hs⟩ := Reading.bind_ok hs
    cases hs
    exact hbegins.mono (no.suffix.trans (colon.suffix.trans (yes.suffix.trans question.suffix)))

end HclTidy.Expr
