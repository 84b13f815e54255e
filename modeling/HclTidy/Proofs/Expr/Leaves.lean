import HclTidy.Proofs.Expr.Sources

/-!
# Templates and traversals

A template is read off a single token, and its parts are those of the text of the token. A traversal
begins and ends in a word or a bracket, so nothing at its ends would be stripped inside an
interpolation.
-/

set_option autoImplicit false

namespace HclTidy

open Token

/-- Nothing is stripped from a text without white space and tildes at its ends. -/
theorem Template.stripMarkers_self {t : Text} (hfirst : ∀ d ∈ t.head?, Text.isBlank d = false ∧ d ≠ '~')
    (hlast : ∀ d ∈ t.getLast?, Text.isBlank d = false ∧ d ≠ '~') : stripMarkers t = t := by
  have htrim : Text.trim t = t := by
    obtain rfl | ⟨s, d, hs⟩ := List.eq_nil_or_concat' t
    · rfl
    · have hleft : Text.trimLeft t = t := by
        cases t with
        | nil => rfl
        | cons e t => exact Text.trimLeft_cons t (hfirst e rfl).1
      rw [Text.trim, hleft]
      exact trimRight_of_getLast s hs (hlast d (by rw [hs, List.getLast?_concat]; rfl)).1
  have hhead : t.head? ≠ some '~' := fun h => (hfirst _ h).2 rfl
  have hend : t.getLast? ≠ some '~' := fun h => (hlast _ h).2 rfl
  simp only [stripMarkers, htrim, if_neg hhead, if_neg hend]

theorem Text.eq_slice_ends {t : Text} {start stop : Nat} (hne : t ≠ []) (h : t = t.slice start stop) :
    start = 0 ∧ t.length ≤ stop := by
  have hpos := List.length_pos_iff.mpr hne
  have hlength := congrArg List.length h
  rw [Text.slice, List.length_take, List.length_drop] at hlength
  omega

namespace Expr

variable {source : Source} {mode : LineMode} {c : Cursor}

/-! ## What operations leave alone -/

theorem readOperations_value {least : Nat} : ∀ {c : Cursor} {start : Nat} {left : Expr}
    {s : Tail Expr c}, readOperations source mode least start left c = .ok s →
    s.value = left ∧ s.next = c ∨ ∃ text, s.value = .unknown text := by
  intro c
  induction hn : c.rest.length using Nat.strongRecOn generalizing c with
  | ind n ih =>
    subst hn
    intro start left s hs
    obtain ⟨-, hvalue, hnext⟩ | ⟨strength, operator, right, all, -, -, hall, hvalue, hnext⟩ :=
      readOperations_cases hs
    · exact .inl ⟨hvalue, hnext⟩
    · have h₁ := operator.shorter
      have h₂ := right.shorter
      rw [hvalue]
      obtain ⟨hlast, -⟩ | hunknown := ih _ (by omega) rfl hall
      · exact .inr ⟨_, hlast⟩
      · exact .inr hunknown

/-- An expression that is neither an operation nor a literal stands in no operation. -/
theorem postfix_of_read {s : Step Expr c} (hs : read source mode c = .ok s)
    (hunknown : ∀ text, s.value ≠ .unknown text) (hliteral : ∀ text, s.value ≠ .literal text) :
    ∃ p : Step Expr c, readPostfix source mode c = .ok p ∧ p.value = s.value ∧ p.next = s.next := by
  rw [read] at hs
  obtain ⟨condition, hcondition, hs⟩ := Reading.bind_ok hs
  rw [readBinary] at hcondition
  obtain ⟨left, hleft, hcondition⟩ := Reading.bind_ok hcondition
  obtain ⟨all, hall, hcondition⟩ := Reading.bind_ok hcondition
  cases hcondition
  dsimp only at hs
  split at hs
  · cases hs
    obtain ⟨hvalue, hnext⟩ | ⟨text, hvalue⟩ := readOperations_value hall
    · dsimp only at hunknown hliteral ⊢
      rw [hvalue] at hunknown hliteral ⊢
      rw [hnext]
      rw [readUnary] at hleft
      split at hleft
      · exact ⟨left, hleft, rfl, rfl⟩
      · obtain ⟨operand, -, hleft⟩ := Reading.bind_ok hleft
        cases hleft
        dsimp only at hunknown hliteral
        split at hunknown
        · next h =>
          rw [if_pos h] at hliteral
          exact absurd rfl (hliteral _)
        · exact absurd rfl (hunknown _)
    · exact absurd hvalue (hunknown text)
  · obtain ⟨yes, -, hs⟩ := Reading.bind_ok hs
    obtain ⟨colon, -, hs⟩ := Reading.bind_ok hs
    obtain ⟨no, -, hs⟩ := Reading.bind_ok hs
    cases hs
    exact absurd rfl (hunknown _)

theorem readFor_value {start : Nat} {closing : Token.Kind} {s : Step Expr c}
    (hs : readFor source start closing c = .ok s) : ∃ text, s.value = .unknown text := by
  rw [readFor] at hs
  obtain ⟨keyword, -, hs⟩ := Reading.bind_ok hs
  obtain ⟨first, -, hs⟩ := Reading.bind_ok hs
  obtain ⟨second, -, hs⟩ := Reading.bind_ok hs
  obtain ⟨within, -, hs⟩ := Reading.bind_ok hs
  obtain ⟨collection, -, hs⟩ := Reading.bind_ok hs
  obtain ⟨colon, -, hs⟩ := Reading.bind_ok hs
  obtain ⟨item, -, hs⟩ := Reading.bind_ok hs
  obtain ⟨value, -, hs⟩ := Reading.bind_ok hs
  obtain ⟨filter, -, hs⟩ := Reading.bind_ok hs
  obtain ⟨close, -, hs⟩ := Reading.bind_ok hs
  cases hs
  exact ⟨_, rfl⟩

theorem withStep_cases (before : Expr) (static : Bool) (text : Text) :
    (∃ whole, before.withStep static text = .unknown whole) ∨
      ∃ first root, before = .traversal first root ∧ static = true ∧
        before.withStep static text = .traversal text root := by
  unfold withStep
  split
  · next first root =>
    cases static
    · exact .inl ⟨text, rfl⟩
    · exact .inr ⟨first, root, rfl, rfl, rfl⟩
  · exact .inl ⟨text, rfl⟩

/-! ## Steps -/

/-- The kinds of the tokens that a traversal begins or ends with. -/
def edgeKinds : List Kind := [.ident, .number, .lparen, .rparen, .rbrack]

theorem passed_of_expect {kind : Kind} {s : Step Token c} (hs : c.expect source mode kind = .ok s) :
    c.Passed s.value s.next ∧ s.value.kind = kind := by
  have htake := Cursor.expect_ok hs
  exact ⟨Cursor.passed_of_take? (Cursor.take?_of_takeIf? htake),
    of_decide_eq_true (Cursor.view_of_takeIf? htake).2⟩

/-- A step that leaves a traversal a traversal is a name, a number or an index in brackets. -/
theorem readStep_last {first : Token} {step : Step Bool c}
    (hs : readStep source mode first c = .ok (some step)) (hstatic : step.value = true) :
    ∃ last, c.Passed last step.next ∧ last.kind ∈ edgeKinds := by
  rw [readStep] at hs
  split at hs
  · split at hs
    · cases hs
    · next name htake =>
      split at hs
      · next hkind =>
        cases hs
        refine ⟨name.value, Cursor.passed_of_take? htake, ?_⟩
        simp only [Bool.or_eq_true, decide_eq_true_eq] at hkind
        obtain hkind | hkind := hkind <;> rw [hkind] <;> decide
      · split at hs
        · cases hs
          cases hstatic
        · cases hs
  · split at hs
    · split at hs
      · obtain ⟨close, -, hs⟩ := Reading.bind_ok hs
        cases hs
        cases hstatic
      · obtain ⟨key, -, hs⟩ := Reading.bind_ok hs
        obtain ⟨close, hclose, hs⟩ := Reading.bind_ok hs
        cases hs
        obtain ⟨hpassed, hkind⟩ := passed_of_expect hclose
        refine ⟨close.value, hpassed.of_suffix key.suffix, ?_⟩
        rw [hkind]
        decide
    · cases hs

/-- Steps make a traversal of a traversal only, and never a template. -/
theorem readSteps_value : ∀ {c : Cursor} {start : Nat} {before : Expr} {s : Tail Expr c},
    readSteps source mode start before c = .ok s →
    s.value = before ∧ s.next = c ∨ (∃ text, s.value = .unknown text) ∨
      ∃ first text root last, before = .traversal first root ∧ s.value = .traversal text root ∧
        c.Passed last s.next ∧ last.kind ∈ edgeKinds := by
  intro c
  induction hn : c.rest.length using Nat.strongRecOn generalizing c with
  | ind n ih =>
    subst hn
    intro start before s hs
    obtain ⟨-, hvalue, hnext⟩ | ⟨first, step, all, -, hstep, hall, hvalue, hnext⟩ := readSteps_cases hs
    · exact .inl ⟨hvalue, hnext⟩
    · have h₁ := first.shorter
      have h₂ := step.shorter
      rw [hvalue, hnext]
      obtain ⟨hlast, hend⟩ | hunknown | ⟨_, text, root, last, hbefore, hlast, hpassed, hkind⟩ :=
        ih _ (by omega) rfl hall
      · rw [hlast, hend]
        obtain hunknown | ⟨text, root, hbefore, hstatic, hvalue⟩ :=
          withStep_cases before step.value (step.next.sourceFrom source start)
        · exact .inr (.inl hunknown)
        · obtain ⟨last, hpassed, hkind⟩ := readStep_last hstep hstatic
          exact .inr (.inr ⟨text, _, root, last, hbefore, hvalue, hpassed.of_suffix first.suffix, hkind⟩)
      · exact .inr (.inl hunknown)
      · obtain ⟨whole, hunknown⟩ | ⟨text', root', rfl, -, hvalue⟩ :=
          withStep_cases before step.value (step.next.sourceFrom source start)
        · rw [hunknown] at hbefore
          cases hbefore
        · rw [hvalue] at hbefore
          cases hbefore
          exact .inr (.inr ⟨text', text, root, last, rfl, hlast,
            hpassed.of_suffix (step.suffix.trans first.suffix), hkind⟩)

/-! ## The token of a template -/

/-- The template that a string or heredoc token is. -/
inductive TemplateOf (t : Token) : Expr → Prop
  | string : t.kind = .string →
      TemplateOf t (.template t.text false (Template.partsOf true t.text))
  | heredoc : t.kind = .heredoc →
      TemplateOf t (.template t.text true (Template.partsOf false (heredocBody t.text)))

/-- What a primary expression is, as far as templates and traversals go. -/
inductive Primary (source : Source) (mode : LineMode) (c : Cursor) (s : Step Expr c) : Prop
  | template {t : Token} : t ∈ c.rest → TemplateOf t s.value → Primary source mode c s
  | name {first : Step Token c} : c.take? mode = some first → first.value.kind = .ident →
      s.next = first.next → s.value = .traversal first.value.text first.value.text →
      Primary source mode c s
  | parentheses {first : Step Token c} {inner : Step Expr first.next} {close : Step Token inner.next} :
      c.take? mode = some first → first.value.kind = .lparen →
      read source .ignored first.next = .ok inner →
      inner.next.expect source .ignored .rparen = .ok close → s.next = close.next →
      s.value = inner.value ∨ (∃ text root, s.value = .traversal text root) → Primary source mode c s
  | other : (∀ text heredoc parts, s.value ≠ .template text heredoc parts) →
      (∀ text root, s.value ≠ .traversal text root) → Primary source mode c s

theorem primary_of_readPrimary {s : Step Expr c} (hs : readPrimary source mode c = .ok s) :
    Primary source mode c s := by
  rw [readPrimary] at hs
  split at hs
  · cases hs
  · next first htake =>
    have hmem := (Cursor.passed_of_take? htake).2.subset (List.mem_cons_self ..)
    dsimp only at hs
    split at hs
    · cases hs
      exact .other (by simp) (by simp)
    · next hkind =>
      cases hs
      exact .template hmem (.string hkind)
    · next hkind =>
      cases hs
      exact .template hmem (.heredoc hkind)
    · next hkind =>
      split at hs
      · cases hs
        exact .other (by simp) (by simp)
      · split at hs
        · obtain ⟨names, -, hs⟩ := Reading.bind_ok hs
          obtain ⟨paren, -, hs⟩ := Reading.bind_ok hs
          obtain ⟨args, -, hs⟩ := Reading.bind_ok hs
          obtain ⟨close, -, hs⟩ := Reading.bind_ok hs
          cases hs
          exact .other (by simp) (by simp)
        · cases hs
          exact .name htake hkind rfl rfl
    · split at hs
      · obtain ⟨all, hall, hs⟩ := Reading.bind_ok hs
        cases hs
        obtain ⟨_, hunknown⟩ := readFor_value hall
        exact .other (by simp [hunknown]) (by simp [hunknown])
      · obtain ⟨items, -, hs⟩ := Reading.bind_ok hs
        obtain ⟨close, -, hs⟩ := Reading.bind_ok hs
        cases hs
        exact .other (by simp) (by simp)
    · split at hs
      · obtain ⟨all, hall, hs⟩ := Reading.bind_ok hs
        cases hs
        obtain ⟨_, hunknown⟩ := readFor_value hall
        exact .other (by simp [hunknown]) (by simp [hunknown])
      · obtain ⟨pairs, -, hs⟩ := Reading.bind_ok hs
        obtain ⟨close, -, hs⟩ := Reading.bind_ok hs
        cases hs
        exact .other (by simp) (by simp)
    · next hkind =>
      obtain ⟨inner, hinner, hs⟩ := Reading.bind_ok hs
      obtain ⟨close, hclose, hs⟩ := Reading.bind_ok hs
      cases hs
      refine .parentheses htake hkind hinner hclose rfl ?_
      dsimp only
      split
      · exact .inr ⟨_, _, rfl⟩
      · exact .inl rfl
    · cases hs

/-- A template is read off one token, in parentheses or not. -/
theorem templateOf_of_read {s : Step Expr c} (hs : read source mode c = .ok s) {text : Text}
    {heredoc : Bool} {parts : List Template.Part} (hvalue : s.value = .template text heredoc parts) :
    ∃ t ∈ c.rest, TemplateOf t s.value := by
  induction hn : c.rest.length using Nat.strongRecOn generalizing mode c with
  | ind n ih =>
    subst hn
    obtain ⟨p, hp, hpvalue, -⟩ := postfix_of_read hs (by simp [hvalue]) (by simp [hvalue])
    rw [← hpvalue] at hvalue ⊢
    rw [readPostfix] at hp
    obtain ⟨first, hfirst, hp⟩ := Reading.bind_ok hp
    obtain ⟨all, hall, hp⟩ := Reading.bind_ok hp
    cases hp
    dsimp only at hvalue ⊢
    obtain ⟨hsame, -⟩ | ⟨_, hunknown⟩ | ⟨_, _, _, _, -, htraversal, -⟩ := readSteps_value hall
    · rw [hsame] at hvalue ⊢
      cases primary_of_readPrimary hfirst with
      | template ht htoken => exact ⟨_, ht, htoken⟩
      | name _ _ _ htraversal =>
        rw [htraversal] at hvalue
        cases hvalue
      | @parentheses paren inner _ _ _ hinner _ _ hsame =>
        obtain hsame | ⟨_, _, htraversal⟩ := hsame
        · rw [hsame] at hvalue ⊢
          obtain ⟨t, ht, htoken⟩ := ih _ paren.shorter hinner hvalue rfl
          exact ⟨t, paren.suffix.subset ht, htoken⟩
        · rw [htraversal] at hvalue
          cases hvalue
      | other htemplate _ => exact absurd hvalue (htemplate _ _ _)
    · rw [hunknown] at hvalue
      cases hvalue
    · rw [htraversal] at hvalue
      cases hvalue

/-! ## The ends of a traversal -/

/-- What has been read from the cursor begins and ends in a word or a bracket. -/
def Edged (mode : LineMode) (c next : Cursor) : Prop :=
  ∃ (first : Step Token c) (last : Token), c.take? mode = some first ∧
    first.value.kind ∈ edgeKinds ∧ c.Passed last next ∧ last.kind ∈ edgeKinds

theorem edged_readPrimary {s : Step Expr c} (hs : readPrimary source mode c = .ok s)
    {text root : Text} (hvalue : s.value = .traversal text root) : Edged mode c s.next := by
  cases primary_of_readPrimary hs with
  | template _ htoken =>
    rw [hvalue] at htoken
    cases htoken
  | @name first htake hkind hnext _ =>
    have hedge : first.value.kind ∈ edgeKinds := by
      rw [hkind]
      decide
    rw [hnext]
    exact ⟨first, first.value, htake, hedge, Cursor.passed_of_take? htake, hedge⟩
  | @parentheses first inner close htake hkind _ hclose hnext _ =>
    obtain ⟨hpassed, hclosing⟩ := passed_of_expect hclose
    rw [hnext]
    refine ⟨first, close.value, htake, ?_, hpassed.of_suffix (inner.suffix.trans first.suffix), ?_⟩
    · rw [hkind]
      decide
    · rw [hclosing]
      decide
  | other _ htraversal => exact absurd hvalue (htraversal _ _)

theorem edged_read {s : Step Expr c} (hs : read source mode c = .ok s) {text root : Text}
    (hvalue : s.value = .traversal text root) : Edged mode c s.next := by
  obtain ⟨p, hp, hpvalue, hpnext⟩ := postfix_of_read hs (by simp [hvalue]) (by simp [hvalue])
  rw [hvalue] at hpvalue
  rw [← hpnext]
  rw [readPostfix] at hp
  obtain ⟨first, hfirst, hp⟩ := Reading.bind_ok hp
  obtain ⟨all, hall, hp⟩ := Reading.bind_ok hp
  cases hp
  dsimp only at hpvalue ⊢
  obtain ⟨hsame, hnext⟩ | ⟨_, hunknown⟩ | ⟨_, _, _, last, hbefore, -, hpassed, hkind⟩ :=
    readSteps_value hall
  · rw [hnext]
    exact edged_readPrimary hfirst (hsame.symm.trans hpvalue)
  · rw [hunknown] at hpvalue
    cases hpvalue
  · obtain ⟨token, -, htake, hedge, -, -⟩ := edged_readPrimary hfirst hbefore
    exact ⟨token, last, htake, hedge, hpassed.of_suffix first.suffix, hkind⟩

/-- No word and no bracket has a tilde or white space in it. -/
theorem solid_of_edgeKinds {kind : Kind} {text after : Text} (h : Fits kind text after)
    (hkind : kind ∈ edgeKinds) : ∀ d ∈ text, Text.isBlank d = false ∧ d ≠ '~' := by
  have hword : ∀ k ∈ edgeKinds, isWordKind k = true := by decide
  intro d hd
  refine ⟨notBlank_of_notSeparator (fits_word h (hword _ hkind) d hd), ?_⟩
  rintro rfl
  simp only [edgeKinds, List.mem_cons, List.not_mem_nil, or_false] at hkind
  obtain rfl | rfl | rfl | rfl | rfl := hkind
  · cases h with
    | ident _ hc ht _ =>
      obtain rfl | hd := List.mem_cons.mp hd
      · cases hc
      · cases ht _ hd
    | symbol _ _ hs => exact absurd (symbol?_kind hs) (by decide)
  · cases h with
    | @number c t _ hc hlen =>
      have ht := numberLength_chars (t ++ after)
      rw [hlen, List.take_left] at ht
      obtain rfl | hd := List.mem_cons.mp hd
      · cases hc
      · cases ht _ hd
    | symbol _ _ hs => exact absurd (symbol?_kind hs) (by decide)
  · rw [fits_mark (d := '(') rfl h] at hd
    cases List.mem_singleton.mp hd
  · rw [fits_mark (d := ')') rfl h] at hd
    cases List.mem_singleton.mp hd
  · rw [fits_mark (d := ']') rfl h] at hd
    cases List.mem_singleton.mp hd

/-- The expression that a text is as a whole is read off the text. -/
theorem isRead_of_ofText {text : Text} {e : Expr} {events : List ParseEvent}
    (h : ofText text = .ok (e, events)) :
    ∃ (source : Source) (ws : List Lexeme) (tail : Text), source.text = text ∧ text = textOf ws tail ∧
      AllFit ws tail ∧ IsRead source ws e := by
  unfold ofText at h
  split at h
  · cases h
  · next stream hstream =>
    obtain ⟨ws, tail, htext, hfit, -, rfl⟩ := exists_lexemes hstream
    obtain ⟨all, hall, h⟩ := Reading.bind_ok h
    dsimp only at h
    split at h
    · cases h
      exact ⟨_, ws, tail, rfl, htext, hfit, _, _, all, List.suffix_refl _, hall, rfl⟩
    · cases h

/-- Nothing is stripped from a text that is a traversal as a whole. -/
theorem stripMarkers_of_traversal {text root : Text} {events : List ParseEvent}
    (h : ofText text = .ok (.traversal text root, events)) : Template.stripMarkers text = text := by
  obtain ⟨source, ws, tail, rfl, htext, hfit, _, c, s, hc, hs, hvalue⟩ := isRead_of_ofText h
  obtain ⟨mode', d, inner, hd, hinner, hsame, hwhole⟩ := exists_whole_of_read htext hc hs
  obtain ⟨first, last, htake, hfirst, hpassed, hlast⟩ := edged_read hinner (hsame.trans hvalue)
  have hslice := hwhole.source_eq
  rw [hvalue, Cursor.sourceFrom, hpassed.1, Cursor.peek_of_view source (Cursor.view_of_take? htake)]
    at hslice
  change source.text = source.text.slice _ _ at hslice
  -- both tokens stand in the text
  have hcode {t : Token} (ht : t ∈ d.rest) : ∃ after, Fits t.kind t.text after ∧ t.StandsIn source.text := by
    have hmem : t ∈ tokensAt Position.start ws := List.mem_of_mem_filter (hd.subset ht)
    obtain ⟨after, hfits⟩ := fits_of_mem_tokensAt hfit t hmem
    exact ⟨after, hfits, htext ▸ standsIn_of_mem_tokensAt [] tail hmem⟩
  obtain ⟨_, hfits, before, behind, hin, hstart⟩ :=
    hcode ((Cursor.passed_of_take? htake).2.subset (List.mem_cons_self ..))
  obtain ⟨_, hfits', before', behind', hin', hstart'⟩ := hcode (hpassed.2.subset (List.mem_cons_self ..))
  obtain ⟨e, t, htext₁, -⟩ := fits_head hfits
  obtain ⟨hzero, hstop⟩ := Text.eq_slice_ends (by simp [hin, htext₁]) hslice
  rw [hstart, start_after_offset] at hzero
  rw [stop, hstart', start_after_offset, hin', List.length_append, List.length_append] at hstop
  obtain rfl : before = [] := List.eq_nil_of_length_eq_zero hzero
  obtain rfl : behind' = [] := List.eq_nil_of_length_eq_zero (by omega)
  refine Template.stripMarkers_self (fun x hx => ?_) fun x hx => ?_
  · rw [hin, htext₁] at hx
    cases hx
    exact solid_of_edgeKinds hfits hfirst _ (by rw [htext₁]; exact List.mem_cons_self ..)
  · obtain ⟨e', t', htext₂, -⟩ := fits_head hfits'
    rw [hin', List.append_nil, List.getLast?_append_of_ne_nil _ (by simp [htext₂])] at hx
    exact solid_of_edgeKinds hfits' hlast _ (List.mem_of_getLast? hx)

end Expr

end HclTidy
