import HclTidy.Proofs.Expr.Excerpt

/-!
# Sources of expressions

The source of an expression that is read off a text is a piece of the text, and it reads as the
expression again. So do the items of tuples, the keys and values of objects and the arguments of
calls. The source is the text from the first to the last token, but for an expression in parentheses
that is no traversal: it is the expression inside them, with the source of the one inside.
-/

set_option autoImplicit false

namespace HclTidy

open Token

/-- At the first cursor, a token has been read that the second one stands in front of. -/
def Cursor.After (d c : Cursor) : Prop := d.rest <:+ c.rest ∧ d.rest.length < c.rest.length

theorem Step.after {α : Type} {c : Cursor} (s : Step α c) : s.next.After c := ⟨s.suffix, s.shorter⟩

theorem Cursor.After.of_suffix {c d e : Cursor} (h : d.After c) (hsuffix : e.rest <:+ d.rest) :
    e.After c := ⟨hsuffix.trans h.1, Nat.lt_of_le_of_lt hsuffix.length_le h.2⟩

namespace Expr

/-- The items of a tuple, the keys and values of an object, the arguments of a call. -/
def children : Expr → List Expr
  | tuple _ items => items
  | object _ items => items.flatMap fun item => [item.1, item.2]
  | call _ _ args => args
  | _ => []

/-- The second expression is the first one, or one of its children reaches it. -/
inductive Reaches : Expr → Expr → Prop
  | refl (e : Expr) : Reaches e e
  | child {e child d : Expr} : child ∈ e.children → Reaches child d → Reaches e d

variable {source : Source} {mode : LineMode} {c c₀ : Cursor}

/-- The expression is read behind a token of the cursor, inside brackets. -/
def ReadWithin (source : Source) (c : Cursor) (e : Expr) : Prop :=
  ∃ (d : Cursor) (s : Step Expr d), d.After c ∧ read source .ignored d = .ok s ∧ s.value = e

theorem readWithin_of_read {d : Cursor} (hd : d.After c) {s : Step Expr d}
    (hs : read source .ignored d = .ok s) : ReadWithin source c s.value := ⟨d, s, hd, hs, rfl⟩

/-- The text is the source of the expression, and its children are read within. -/
structure IsWhole (source : Source) (c : Cursor) (text : Text) (e : Expr) : Prop where
  source_eq : e.source = text
  children : ∀ child ∈ e.children, ReadWithin source c child

theorem isWhole_of_leaf {text : Text} {e : Expr} (hsource : e.source = text)
    (hchildren : e.children = []) : IsWhole source c text e :=
  ⟨hsource, by rw [hchildren]; exact List.forall_mem_nil _⟩

theorem isWhole_withStep (before : Expr) (static : Bool) (text : Text) :
    IsWhole source c text (before.withStep static text) := by
  unfold withStep
  split
  · cases static <;> exact isWhole_of_leaf rfl rfl
  · exact isWhole_of_leaf rfl rfl

/-! ## What is read between brackets -/

theorem readArguments_within : ∀ {c : Cursor}, c.After c₀ → ∀ {s : Tail (List Expr) c},
    readArguments source c = .ok s → ∀ e ∈ s.value, ReadWithin source c₀ e := by
  intro c
  induction hn : c.rest.length using Nat.strongRecOn generalizing c with
  | ind n ih =>
    subst hn
    intro hc s hs
    rw [readArguments] at hs
    split at hs
    · cases hs
      exact List.forall_mem_nil _
    · obtain ⟨first, hfirst, hs⟩ := Reading.bind_ok hs
      have hwithin := readWithin_of_read hc hfirst
      have hdots := (first.next.skip .ignored .ellipsis).suffix
      dsimp only at hs
      split at hs
      · cases hs
        exact List.forall_mem_singleton.mpr hwithin
      · next comma hcomma =>
        obtain ⟨more, hmore, hs⟩ := Reading.bind_ok hs
        cases hs
        have hnext := comma.suffix.trans (hdots.trans first.suffix)
        have h₁ := first.shorter
        have h₂ := (comma.suffix.trans hdots).length_le
        exact List.forall_mem_cons.mpr
          ⟨hwithin, ih _ (by omega) rfl (hc.of_suffix hnext) hmore⟩

theorem readItems_within : ∀ {c : Cursor}, c.After c₀ → ∀ {s : Tail (List Expr) c},
    readItems source c = .ok s → ∀ e ∈ s.value, ReadWithin source c₀ e := by
  intro c
  induction hn : c.rest.length using Nat.strongRecOn generalizing c with
  | ind n ih =>
    subst hn
    intro hc s hs
    rw [readItems] at hs
    split at hs
    · cases hs
      exact List.forall_mem_nil _
    · obtain ⟨first, hfirst, hs⟩ := Reading.bind_ok hs
      have hwithin := readWithin_of_read hc hfirst
      split at hs
      · cases hs
        exact List.forall_mem_singleton.mpr hwithin
      · next comma hcomma =>
        obtain ⟨more, hmore, hs⟩ := Reading.bind_ok hs
        cases hs
        have h₁ := first.shorter
        have h₂ := comma.shorter
        exact List.forall_mem_cons.mpr
          ⟨hwithin, ih _ (by omega) rfl (hc.of_suffix (comma.suffix.trans first.suffix)) hmore⟩

theorem readPairs_within : ∀ {c : Cursor}, c.After c₀ → ∀ {s : Tail (List (Expr × Expr)) c},
    readPairs source c = .ok s →
    ∀ item ∈ s.value, ReadWithin source c₀ item.1 ∧ ReadWithin source c₀ item.2 := by
  intro c
  induction hn : c.rest.length using Nat.strongRecOn generalizing c with
  | ind n ih =>
    subst hn
    intro hc s hs
    rw [readPairs] at hs
    split at hs
    · cases hs
      exact List.forall_mem_nil _
    · split at hs
      · cases hs
      · obtain ⟨key, hkey, hs⟩ := Reading.bind_ok hs
        split at hs
        · cases hs
        · next separator hseparator =>
          obtain ⟨value, hvalue, hs⟩ := Reading.bind_ok hs
          obtain ⟨more, hmore, hs⟩ := Reading.bind_ok hs
          cases hs
          have hcomma := (value.next.skip .ignored .comma).suffix
          have hvalueRest := separator.suffix.trans key.suffix
          have h₁ := key.shorter
          have h₂ := (hcomma.trans (value.suffix.trans separator.suffix)).length_le
          exact List.forall_mem_cons.mpr
            ⟨⟨readWithin_of_read hc hkey, readWithin_of_read (hc.of_suffix hvalueRest) hvalue⟩,
              ih _ (by omega) rfl (hc.of_suffix (hcomma.trans (value.suffix.trans hvalueRest))) hmore⟩

/-! ## The source of what is read -/

section Whole

variable {ws : List Lexeme} {tail : Text} (htext : source.text = textOf ws tail)
  (hc : c.rest <:+ codeAt Position.start ws)

theorem isWhole_readFor {start : Nat} {closing : Token.Kind} {s : Step Expr c}
    (hs : readFor source start closing c = .ok s) :
    IsWhole source c₀ (s.next.sourceFrom source start) s.value := by
  rw [readFor] at hs
  obtain ⟨keyword, -, hs⟩ := Reading.bind_ok hs
  obtain ⟨first, -, hs⟩ := Reading.bind_ok hs
  obtain ⟨second, -, hs⟩ := Reading.bind_ok hs
  obtain ⟨within, -, hs⟩ := Reading.bind_ok hs
  obtain ⟨collection, -, hs⟩ := Reading.bind_ok hs
  obtain ⟨colon, -, hs⟩ := Reading.bind_ok hs
  obtain ⟨item, -, hs⟩ := Reading.bind_ok hs
  obtain ⟨value, -, hs⟩ := Reading.bind_ok hs
  obtain ⟨filter, -, hs⟩ := Reading.bind_ok hs
  obtain ⟨close, -, hs⟩ := Reading.bind_ok hs
  cases hs
  exact isWhole_of_leaf rfl rfl

theorem readSteps_whole : ∀ {c : Cursor} {start : Nat} {before : Expr} {s : Tail Expr c},
    readSteps source mode start before c = .ok s →
    s.value = before ∧ s.next = c ∨ IsWhole source c₀ (s.next.sourceFrom source start) s.value := by
  intro c
  induction hn : c.rest.length using Nat.strongRecOn generalizing c with
  | ind n ih =>
    subst hn
    intro start before s hs
    obtain ⟨-, hvalue, hnext⟩ | ⟨first, step, all, -, -, hall, hvalue, hnext⟩ := readSteps_cases hs
    · exact .inl ⟨hvalue, hnext⟩
    · have h₁ := first.shorter
      have h₂ := step.shorter
      rw [hvalue, hnext]
      obtain ⟨hlast, hend⟩ | hwhole := ih _ (by omega) rfl hall
      · rw [hlast, hend]
        exact .inr (isWhole_withStep before step.value _)
      · exact .inr hwhole

theorem readOperations_whole {least : Nat} : ∀ {c : Cursor} {start : Nat} {left : Expr}
    {s : Tail Expr c}, readOperations source mode least start left c = .ok s →
    s.value = left ∧ s.next = c ∨ IsWhole source c₀ (s.next.sourceFrom source start) s.value := by
  intro c
  induction hn : c.rest.length using Nat.strongRecOn generalizing c with
  | ind n ih =>
    subst hn
    intro start left s hs
    obtain ⟨-, hvalue, hnext⟩ | ⟨strength, operator, right, all, -, -, hall, hvalue, hnext⟩ :=
      readOperations_cases hs
    · exact .inl ⟨hvalue, hnext⟩
    · have h₁ := operator.shorter
      have h₂ := right.shorter
      rw [hvalue, hnext]
      obtain ⟨hlast, hend⟩ | hwhole := ih _ (by omega) rfl hall
      · rw [hlast, hend]
        exact .inr (isWhole_of_leaf rfl rfl)
      · exact .inr hwhole

/-- The value is the text from the first token on, or the value of an expression in parentheses. -/
def IsWholeOrWithin (source : Source) (mode : LineMode) (c : Cursor) (s : Step Expr c) : Prop :=
  IsWhole source c (s.next.sourceFrom source (c.peek source mode).start.offset) s.value ∨
    ReadWithin source c s.value

include htext hc

theorem text_of_take? {first : Step Token c} (hfirst : c.take? mode = some first) :
    first.value.text = first.next.sourceFrom source (c.peek source mode).start.offset := by
  have hview := Cursor.view_of_take? hfirst
  have hmem : first.value ∈ tokensAt (Position.start.after []) ws := by
    refine List.mem_of_mem_filter (((c.view_suffix mode).trans hc).subset ?_)
    rw [hview]
    exact List.mem_cons_self ..
  have hstands := standsIn_of_mem_tokensAt [] tail hmem
  rw [Cursor.peek_of_view source hview, Cursor.sourceFrom, (Cursor.passed_of_take? hfirst).1, htext]
  exact hstands.text_eq_slice

theorem readPrimary_whole {s : Step Expr c} (hs : readPrimary source mode c = .ok s) :
    IsWholeOrWithin source mode c s := by
  obtain ⟨first, hfirst, -, -⟩ := begins_readPrimary hs
  have hword := text_of_take? htext hc hfirst
  have hpeek : c.peek source mode = first.value :=
    Cursor.peek_of_view source (Cursor.view_of_take? hfirst)
  rw [IsWholeOrWithin, hpeek]
  rw [hpeek] at hword
  rw [readPrimary, hfirst] at hs
  dsimp only at hs
  split at hs
  · cases hs
    exact .inl (isWhole_of_leaf hword rfl)
  · cases hs
    exact .inl (isWhole_of_leaf hword rfl)
  · cases hs
    exact .inl (isWhole_of_leaf hword rfl)
  · split at hs
    · cases hs
      exact .inl (isWhole_of_leaf hword rfl)
    · split at hs
      · obtain ⟨names, -, hs⟩ := Reading.bind_ok hs
        obtain ⟨paren, -, hs⟩ := Reading.bind_ok hs
        obtain ⟨args, hargs, hs⟩ := Reading.bind_ok hs
        obtain ⟨close, -, hs⟩ := Reading.bind_ok hs
        cases hs
        exact .inl ⟨rfl, readArguments_within
          (first.after.of_suffix (paren.suffix.trans names.suffix)) hargs⟩
      · cases hs
        exact .inl (isWhole_of_leaf hword rfl)
  · split at hs
    · obtain ⟨all, hall, hs⟩ := Reading.bind_ok hs
      cases hs
      have hwhole : IsWhole source c _ all.value := isWhole_readFor hall
      exact .inl hwhole
    · obtain ⟨items, hitems, hs⟩ := Reading.bind_ok hs
      obtain ⟨close, -, hs⟩ := Reading.bind_ok hs
      cases hs
      exact .inl ⟨rfl, readItems_within first.after hitems⟩
  · split at hs
    · obtain ⟨all, hall, hs⟩ := Reading.bind_ok hs
      cases hs
      have hwhole : IsWhole source c _ all.value := isWhole_readFor hall
      exact .inl hwhole
    · obtain ⟨pairs, hpairs, hs⟩ := Reading.bind_ok hs
      obtain ⟨close, -, hs⟩ := Reading.bind_ok hs
      cases hs
      refine .inl ⟨rfl, fun child hchild => ?_⟩
      obtain ⟨item, hitem, hchild⟩ := List.mem_flatMap.mp hchild
      obtain ⟨hkey, hvalue⟩ := readPairs_within first.after hpairs item hitem
      simp only [List.mem_cons, List.not_mem_nil, or_false] at hchild
      obtain rfl | rfl := hchild
      · exact hkey
      · exact hvalue
  · obtain ⟨inner, hinner, hs⟩ := Reading.bind_ok hs
    obtain ⟨close, -, hs⟩ := Reading.bind_ok hs
    cases hs
    have hwithin := readWithin_of_read first.after hinner
    dsimp only
    split
    · exact .inl (isWhole_of_leaf rfl rfl)
    · exact .inr hwithin
  · cases hs

/-- What follows an expression makes it another one, from the same token on. -/
theorem readPostfix_whole {s : Step Expr c} (hs : readPostfix source mode c = .ok s) :
    IsWholeOrWithin source mode c s := by
  rw [readPostfix] at hs
  obtain ⟨first, hfirst, hs⟩ := Reading.bind_ok hs
  obtain ⟨all, hall, hs⟩ := Reading.bind_ok hs
  cases hs
  have hprimary := readPrimary_whole htext hc hfirst
  unfold IsWholeOrWithin at hprimary ⊢
  obtain ⟨hvalue, hnext⟩ | hwhole := readSteps_whole hall
  · dsimp only
    rw [hvalue, hnext]
    exact hprimary
  · exact .inl hwhole

theorem readUnary_whole {s : Step Expr c} (hs : readUnary source mode c = .ok s) :
    IsWholeOrWithin source mode c s := by
  rw [readUnary] at hs
  split at hs
  · exact readPostfix_whole htext hc hs
  · next sign hsign =>
    obtain ⟨operand, -, hs⟩ := Reading.bind_ok hs
    cases hs
    rw [IsWholeOrWithin, Cursor.peek_of_view source (Cursor.view_of_takeIf? hsign).1]
    dsimp only
    split <;> exact .inl (isWhole_of_leaf rfl rfl)

theorem read_whole {s : Step Expr c} (hs : read source mode c = .ok s) :
    IsWholeOrWithin source mode c s := by
  rw [read] at hs
  obtain ⟨condition, hcondition, hs⟩ := Reading.bind_ok hs
  rw [readBinary] at hcondition
  obtain ⟨left, hleft, hcondition⟩ := Reading.bind_ok hcondition
  obtain ⟨all, hall, hcondition⟩ := Reading.bind_ok hcondition
  cases hcondition
  have hunary := readUnary_whole htext hc hleft
  unfold IsWholeOrWithin at hunary ⊢
  dsimp only at hs
  split at hs
  · cases hs
    obtain ⟨hvalue, hnext⟩ | hwhole := readOperations_whole hall
    · dsimp only
      rw [hvalue, hnext]
      exact hunary
    · exact .inl hwhole
  · obtain ⟨yes, -, hs⟩ := Reading.bind_ok hs
    obtain ⟨colon, -, hs⟩ := Reading.bind_ok hs
    obtain ⟨no, -, hs⟩ := Reading.bind_ok hs
    cases hs
    exact .inl (isWhole_of_leaf rfl rfl)

end Whole

/-! ## Expressions of a text -/

/-- The expression is read somewhere in the tokens of a text. -/
def IsRead (source : Source) (ws : List Lexeme) (e : Expr) : Prop :=
  ∃ (mode : LineMode) (c : Cursor) (s : Step Expr c), c.rest <:+ codeAt Position.start ws ∧
    read source mode c = .ok s ∧ s.value = e

section Read

variable {ws : List Lexeme} {tail : Text} {e : Expr}

theorem isRead_of_readWithin (h : ReadWithin source c e) (hc : c.rest <:+ codeAt Position.start ws) :
    IsRead source ws e := by
  obtain ⟨d, s, ⟨hd, -⟩, hs, hvalue⟩ := h
  exact ⟨.ignored, d, s, hd.trans hc, hs, hvalue⟩

/-- An expression in parentheses is also read inside them, so every expression is the whole of what is
read somewhere. -/
theorem exists_whole_of_read (htext : source.text = textOf ws tail) {s : Step Expr c}
    (hc : c.rest <:+ codeAt Position.start ws) (hs : read source mode c = .ok s) :
    ∃ (mode' : LineMode) (d : Cursor) (inner : Step Expr d), d.rest <:+ codeAt Position.start ws ∧
      read source mode' d = .ok inner ∧ inner.value = s.value ∧
      IsWhole source d (inner.next.sourceFrom source (d.peek source mode').start.offset) s.value := by
  induction hn : c.rest.length using Nat.strongRecOn generalizing mode c with
  | ind n ih =>
    subst hn
    obtain hwhole | ⟨d, inner, ⟨hd, hlt⟩, hinner, hvalue⟩ := read_whole htext hc hs
    · exact ⟨mode, c, s, hc, hs, rfl, hwhole⟩
    · rw [← hvalue]
      exact ih _ hlt (hd.trans hc) hinner rfl

theorem IsRead.child (htext : source.text = textOf ws tail) (h : IsRead source ws e) {child : Expr}
    (hchild : child ∈ e.children) : IsRead source ws child := by
  obtain ⟨mode, c, s, hc, hs, rfl⟩ := h
  obtain ⟨_, d, _, hd, -, -, hwhole⟩ := exists_whole_of_read htext hc hs
  exact isRead_of_readWithin (hwhole.children child hchild) hd

theorem IsRead.reaches (htext : source.text = textOf ws tail) {d : Expr} (hreaches : e.Reaches d)
    (h : IsRead source ws e) : IsRead source ws d := by
  induction hreaches with
  | refl => exact h
  | child hchild _ ih => exact ih (h.child htext hchild)

/-- The source of an expression is a piece of the text, and it reads as the expression. -/
theorem IsRead.ofText_source (htext : source.text = textOf ws tail) (hfit : AllFit ws tail)
    (h : IsRead source ws e) :
    e.source <:+: source.text ∧ ∃ events, ofText e.source = .ok (e, events) := by
  obtain ⟨mode, c, s, hc, hs, rfl⟩ := h
  obtain ⟨_, d, inner, hd, hinner, hvalue, hwhole⟩ := exists_whole_of_read htext hc hs
  rw [hwhole.source_eq, ← hvalue]
  exact ofText_excerpt htext hfit hd hinner

end Read

end Expr

end HclTidy
