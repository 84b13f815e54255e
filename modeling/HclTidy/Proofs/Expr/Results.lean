import HclTidy.Proofs.Expr.Inversion

/-!
# Results that are alike

Two results are alike when they begin and end with tokens that are the same, the token lists behind
them read alike again, and their values are equal where the comparison is exact. The functions of the
grammar keep step when their results are alike; here they are compared token by token.
-/

set_option autoImplicit false

namespace HclTidy.Expr

open Comparison

variable {f : Comparison} {source source' : Source} {mode mode' : LineMode} {c c' d d' : Cursor}

/-! ## First and last tokens -/

/-- The tokens that come next, with what has been read from there on up to `rest`. -/
def Heads (f : Comparison) (mode mode' : LineMode) (c c' : Cursor) (rest : List Token) : Prop :=
  ∃ t t' us us', c.view mode = t :: us ∧ c'.view mode' = t' :: us' ∧ f.Same t t' ∧ rest <:+ us

/-- The tokens that have been read last. -/
def Lasts (f : Comparison) (c c' next next' : Cursor) : Prop :=
  ∃ t t', f.Same t t' ∧ c.Passed t next ∧ c'.Passed t' next'

theorem Heads.mono {rest rest' : List Token} (h : Heads f mode mode' c c' rest)
    (hsuffix : rest' <:+ rest) : Heads f mode mode' c c' rest' := by
  obtain ⟨t, t', us, us', hview, hview', hsame, hrest⟩ := h
  exact ⟨t, t', us, us', hview, hview', hsame, hsuffix.trans hrest⟩

theorem Heads.place {rest : List Token} (h : Heads f mode mode' c c' rest)
    (source source' : Source) (hx : f.exact) :
    f.place (c.peek source mode).start.offset (c'.peek source' mode').start.offset := by
  obtain ⟨t, t', us, us', hview, hview', hsame, -⟩ := h
  rw [Cursor.peek_of_view source hview, Cursor.peek_of_view source' hview']
  exact (hsame.exact hx).2.1

/-- A test that the first token fails on one side, it fails on the other. -/
theorem Heads.takeIf?_none {rest : List Token} {wanted : Token → Bool}
    (h : Heads f mode mode' c c' rest) (hw : f.Respects wanted) (hs : c.takeIf? mode wanted = none) :
    c'.takeIf? mode' wanted = none := by
  obtain ⟨t, t', us, us', hview, hview', hsame, -⟩ := h
  refine Cursor.takeIf?_none_of_view hview' ?_
  rw [hw _ _ hsame]
  exact Cursor.not_wanted_of_none hview hs

theorem Lasts.mono {next next' : Cursor} (h : Lasts f d d' next next') (hsuffix : d.rest <:+ c.rest)
    (hsuffix' : d'.rest <:+ c'.rest) : Lasts f c c' next next' := by
  obtain ⟨t, t', hsame, hlast, hlast'⟩ := h
  exact ⟨t, t', hsame, hlast.of_suffix hsuffix, hlast'.of_suffix hsuffix'⟩

theorem Lasts.tail {next next' : Cursor} (h : Lasts f c c' d d') (hsuffix : d.rest <:+ c.rest)
    (hsuffix' : d'.rest <:+ c'.rest) (htail : next = d ∧ next' = d' ∨ Lasts f d d' next next') :
    Lasts f c c' next next' := by
  obtain ⟨rfl, rfl⟩ | htail := htail
  · exact h
  · exact htail.mono hsuffix hsuffix'

section Tokens

variable {s : Step Token c} {s' : Step Token c'}

theorem heads_of_take? (hs : c.take? mode = some s) (hs' : c'.take? mode' = some s')
    (hsame : f.Same s.value s'.value) : Heads f mode mode' c c' s.next.rest :=
  ⟨_, _, _, _, Cursor.view_of_take? hs, Cursor.view_of_take? hs', hsame, List.suffix_refl _⟩

theorem lasts_of_take? (hs : c.take? mode = some s) (hs' : c'.take? mode' = some s')
    (hsame : f.Same s.value s'.value) : Lasts f c c' s.next s'.next :=
  ⟨_, _, hsame, Cursor.passed_of_take? hs, Cursor.passed_of_take? hs'⟩

theorem lasts_of_expect {kind : Token.Kind} (hs : c.expect source mode kind = .ok s)
    (hs' : c'.expect source' mode' kind = .ok s') (hsame : f.Same s.value s'.value) :
    Lasts f c c' s.next s'.next :=
  lasts_of_take? (Cursor.take?_of_takeIf? (Cursor.expect_ok hs))
    (Cursor.take?_of_takeIf? (Cursor.expect_ok hs')) hsame

end Tokens

/-- The source of what has been read is the same on both sides. -/
theorem sourceFrom_eq (hsources : f.Sources source source') (hx : f.exact) {start start' : Nat}
    {next next' : Cursor} (hstart : f.place start start') (h : Lasts f c c' next next') :
    next'.sourceFrom source' start' = next.sourceFrom source start := by
  obtain ⟨t, t', hsame, ⟨hstop, -⟩, ⟨hstop', -⟩⟩ := h
  rw [Cursor.sourceFrom, Cursor.sourceFrom, hstop, hstop']
  exact hsources.slice hx hstart (hsame.exact hx).2.2

/-! ## Results that are alike -/

structure StepAlike (f : Comparison) (mode mode' : LineMode) {α : Type} (s : Step α c)
    (s' : Step α c') : Prop where
  rest : f.Alike s.next.rest s'.next.rest
  head : Heads f mode mode' c c' s.next.rest
  last : Lasts f c c' s.next s'.next
  value : f.exact → s'.value = s.value

/-- What the first side reads before its end, the second side reads too. -/
def StepsAlike (f : Comparison) (mode mode' : LineMode) {α : Type} (r : Reading (Step α c))
    (r' : Reading (Step α c')) : Prop :=
  ∀ s, r = .ok s → f.behind ≤ s.next.rest.length → f.Settled mode mode' s.next.rest →
    ∃ s', r' = .ok s' ∧ StepAlike f mode mode' s s'

/-- The same for what may read nothing. -/
def TailsAlike (f : Comparison) (mode mode' : LineMode) {α : Type} (r : Reading (Tail α c))
    (r' : Reading (Tail α c')) : Prop :=
  ∀ s, r = .ok s → f.behind ≤ s.next.rest.length → f.Settled mode mode' s.next.rest →
    ∃ s', r' = .ok s' ∧ f.Alike s.next.rest s'.next.rest ∧ (f.exact → s'.value = s.value) ∧
      (s.next = c ∧ s'.next = c' ∨ Lasts f c c' s.next s'.next)

/-- The same for what is read between brackets, up to the closing one. -/
def ListsAlike (f : Comparison) {α : Type} (r : Reading (Tail α c)) (r' : Reading (Tail α c')) :
    Prop :=
  ∀ s, r = .ok s → f.Inside s.next →
    ∃ s', r' = .ok s' ∧ f.Alike s.next.rest s'.next.rest ∧ (f.exact → s'.value = s.value)

/-- The same for what is read without a value. -/
def RestsAlike (f : Comparison) (r : Reading (Tail Unit c)) (r' : Reading (Tail Unit c')) : Prop :=
  ∀ s, r = .ok s → f.behind ≤ s.next.rest.length →
    ∃ s', r' = .ok s' ∧ f.Alike s.next.rest s'.next.rest

/-- The same for an attribute or index step. -/
def FoundAlike (f : Comparison) (r : Reading (Option (Step Bool c)))
    (r' : Reading (Option (Step Bool c'))) : Prop :=
  ∀ s, r = .ok (some s) → f.behind ≤ s.next.rest.length →
    ∃ s', r' = .ok (some s') ∧ f.Alike s.next.rest s'.next.rest ∧ (f.exact → s'.value = s.value) ∧
      Lasts f c c' s.next s'.next

/-- Every function of the grammar keeps step on cursors whose measure is below a bound. -/
structure KeepsStep (f : Comparison) (source source' : Source) (bound : Nat) : Prop where
  read : ∀ {mode mode' c c'}, mode.Loosens mode' → 16 * c.rest.length + 5 < bound →
    f.Ahead mode mode' c c' →
    StepsAlike f mode mode' (Expr.read source mode c) (Expr.read source' mode' c')
  readBinary : ∀ {mode mode' least c c'}, mode.Loosens mode' → 16 * c.rest.length + 4 < bound →
    f.Ahead mode mode' c c' →
    StepsAlike f mode mode' (Expr.readBinary source mode least c) (Expr.readBinary source' mode' least c')
  readOperations : ∀ {mode mode' least start start' left left' c c'}, mode.Loosens mode' →
    16 * c.rest.length < bound → f.Alike c.rest c'.rest → (f.exact → f.place start start') →
    (f.exact → left' = left) → TailsAlike f mode mode'
      (Expr.readOperations source mode least start left c)
      (Expr.readOperations source' mode' least start' left' c')
  readUnary : ∀ {mode mode' c c'}, mode.Loosens mode' → 16 * c.rest.length + 3 < bound →
    f.Ahead mode mode' c c' →
    StepsAlike f mode mode' (Expr.readUnary source mode c) (Expr.readUnary source' mode' c')
  readPostfix : ∀ {mode mode' c c'}, mode.Loosens mode' → 16 * c.rest.length + 2 < bound →
    f.Ahead mode mode' c c' →
    StepsAlike f mode mode' (Expr.readPostfix source mode c) (Expr.readPostfix source' mode' c')
  readSteps : ∀ {mode mode' start start' before before' c c'}, mode.Loosens mode' →
    16 * c.rest.length < bound → f.Alike c.rest c'.rest → (f.exact → f.place start start') →
    (f.exact → before' = before) → TailsAlike f mode mode'
      (Expr.readSteps source mode start before c) (Expr.readSteps source' mode' start' before' c')
  readStep : ∀ {mode mode' first first' c c'}, mode.Loosens mode' → f.Same first first' →
    16 * c.rest.length + 6 < bound → f.Alike c.rest c'.rest →
    FoundAlike f (Expr.readStep source mode first c) (Expr.readStep source' mode' first' c')
  readPrimary : ∀ {mode mode' c c'}, mode.Loosens mode' → 16 * c.rest.length + 1 < bound →
    f.Ahead mode mode' c c' →
    StepsAlike f mode mode' (Expr.readPrimary source mode c) (Expr.readPrimary source' mode' c')
  readArguments : ∀ {c c'}, 16 * c.rest.length + 6 < bound → f.Alike c.rest c'.rest →
    ListsAlike f (Expr.readArguments source c) (Expr.readArguments source' c')
  readItems : ∀ {c c'}, 16 * c.rest.length + 6 < bound → f.Alike c.rest c'.rest →
    ListsAlike f (Expr.readItems source c) (Expr.readItems source' c')
  readPairs : ∀ {c c'}, 16 * c.rest.length + 6 < bound → f.Alike c.rest c'.rest →
    ListsAlike f (Expr.readPairs source c) (Expr.readPairs source' c')
  readFor : ∀ {start start' closing c c'}, closing ≠ .newline → 16 * c.rest.length + 6 < bound →
    f.Alike c.rest c'.rest → (f.exact → f.place start start') →
    ∀ s, Expr.readFor source start closing c = .ok s → f.behind ≤ s.next.rest.length →
      ∃ s', Expr.readFor source' start' closing c' = .ok s' ∧ f.Alike s.next.rest s'.next.rest ∧
        (f.exact → s'.value = s.value) ∧ Lasts f c c' s.next s'.next
  readForValue : ∀ {closing c c'}, 16 * c.rest.length + 6 < bound → f.Alike c.rest c'.rest →
    RestsAlike f (Expr.readForValue source closing c) (Expr.readForValue source' closing c')
  readForFilter : ∀ {c c'}, 16 * c.rest.length + 6 < bound → f.Alike c.rest c'.rest →
    RestsAlike f (Expr.readForFilter source c) (Expr.readForFilter source' c')

/-! ## Operators, names and heads of expressions -/

theorem operator?_none {least : Nat} (hm : mode.Loosens mode') (h : f.Alike c.rest c'.rest)
    (hsettled : f.Settled mode mode' c.rest) (hs : operator? mode least c = none) :
    operator? mode' least c' = none := by
  unfold operator? Cursor.accept? at hs ⊢
  have hnext := next_of_alike hm h hsettled
  generalize hview : c.view mode = ts at hnext
  generalize hview' : c'.view mode' = ts' at hnext
  cases hnext with
  | ended _ hstop' => rw [takeIf?_none_of_stop hview' hstop' (isKind_end (by decide))]
  | same hsame hrest =>
    rename_i t t' ts ts'
    have hkind := same_isKind hsame .operator
    cases hop : t.isKind .operator with
    | false => rw [Cursor.takeIf?_none_of_view hview' (by rw [hkind, hop])]
    | true =>
      obtain ⟨s, hs', rfl, -⟩ := Cursor.takeIf?_of_view hview hop
      have hk := of_decide_eq_true hop
      rw [← hkind] at hop
      obtain ⟨s', hs'', rfl, -⟩ := Cursor.takeIf?_of_view hview' hop
      have htext := hsame.text (by rw [hk]; decide) (by rw [hk]; decide)
      rw [hs'] at hs
      rw [hs'']
      simp only [htext] at hs ⊢
      cases hp : precedence? s.value.text with
      | none => rfl
      | some strength =>
        rw [hp] at hs
        by_cases hlt : strength < least
        · exact if_pos hlt
        · simp [hlt] at hs

theorem operator?_some {least strength : Nat} {s : Step Token c} (hm : mode.Loosens mode')
    (h : f.Alike c.rest c'.rest) (hs : operator? mode least c = some (strength, s))
    (hlen : f.behind ≤ s.next.rest.length) :
    ∃ s', operator? mode' least c' = some (strength, s') ∧ f.Alike s.next.rest s'.next.rest := by
  obtain ⟨hstep, hp, hlt⟩ := operator?_accept hs
  obtain ⟨s', hs', hsame, halike⟩ := accept?_some (by decide) hm h hstep hlen
  have hk := of_decide_eq_true (Cursor.view_of_takeIf? hstep).2
  have htext := hsame.text (by rw [hk]; decide) (by rw [hk]; decide)
  refine ⟨s', ?_, halike⟩
  unfold operator?
  simp only [hs', htext, hp, if_neg hlt]

theorem respects_sign : f.Respects fun t => t.isWord .operator ['-'] || t.isWord .operator ['!'] := by
  intro t t' h
  simp only [same_isWord h _ (show Token.Kind.operator ≠ .heredoc ∧ Token.Kind.operator ≠ .string by
    decide)]

theorem nameTail_alike (source' : Source) (hm : mode.Loosens mode') : ∀ {c c' : Cursor},
    f.Alike c.rest c'.rest → ∀ s, nameTail source mode c = .ok s → f.behind ≤ s.next.rest.length →
    f.Settled mode mode' s.next.rest →
    ∃ s', nameTail source' mode' c' = .ok s' ∧ f.Alike s.next.rest s'.next.rest ∧ s'.value = s.value := by
  intro c
  induction hn : c.rest.length using Nat.strongRecOn generalizing c with
  | ind n ih =>
    subst hn
    intro c' h s hs hlen hsettled
    rw [nameTail] at hs
    split at hs
    · next hcolons =>
      cases hs
      rw [nameTail, accept?_none (by decide) hm h hsettled hcolons]
      exact ⟨_, rfl, h, rfl⟩
    · next colons hcolons =>
      obtain ⟨part, hpart, hs⟩ := Reading.bind_ok hs
      obtain ⟨more, hmore, hs⟩ := Reading.bind_ok hs
      cases hs
      change f.behind ≤ more.next.rest.length at hlen
      have h₁ := colons.shorter
      have h₂ := part.shorter
      have h₃ := more.notLonger
      obtain ⟨colons', hcolons', -, halike⟩ := accept?_some (by decide) hm h hcolons (by omega)
      obtain ⟨part', hpart', hsame, halike⟩ := expect_alike source' (by decide) hm halike hpart
        (by omega)
      obtain ⟨more', hmore', halike, hvalue⟩ := ih _ (by omega) rfl halike more hmore hlen hsettled
      have hk : part.value.kind = .ident :=
        of_decide_eq_true (Cursor.view_of_takeIf? (Cursor.expect_ok hpart)).2
      have htext := hsame.text (by rw [hk]; decide) (by rw [hk]; decide)
      rw [nameTail]
      simp only [hcolons', bind, Except.bind, hpart', hmore', htext, hvalue]
      exact ⟨_, rfl, halike, rfl⟩

theorem secondName_alike (source' : Source) (h : f.Alike c.rest c'.rest) :
    RestsAlike f (secondName source c) (secondName source' c') := by
  intro s hs hlen
  unfold secondName at hs ⊢
  split at hs
  · next hcomma =>
    cases hs
    rw [accept?_none (by decide) (LineMode.loosens_refl _) h (.inl rfl) hcomma]
    exact ⟨_, rfl, h⟩
  · next comma hcomma =>
    obtain ⟨name, hname, hs⟩ := Reading.bind_ok hs
    cases hs
    change f.behind ≤ name.next.rest.length at hlen
    have h₁ := name.shorter
    obtain ⟨comma', hcomma', -, halike⟩ := accept?_some (by decide) (LineMode.loosens_refl _) h hcomma
      (by omega)
    obtain ⟨name', hname', -, halike⟩ := expect_alike source' (by decide) (LineMode.loosens_refl _)
      halike hname hlen
    simp only [hcomma', bind, Except.bind, hname']
    exact ⟨_, rfl, halike⟩

/-- No call where none follows on the first side. -/
theorem callFollows_false (hend : source'.endToken.kind = .endOfText) {name name' : Token}
    (hname : f.Same name name') (hm : mode.Loosens mode') (h : f.Alike c.rest c'.rest)
    (hsettled : f.Settled mode mode' c.rest) (hs : callFollows source mode name c = false) :
    callFollows source' mode' name' c' = false := by
  have hnext := next_of_alike hm h hsettled
  generalize hview : c.view mode = ts at hnext
  generalize hview' : c'.view mode' = ts' at hnext
  unfold callFollows at hs ⊢
  cases hnext with
  | same hsame hrest =>
    rename_i t t' ts ts'
    rw [Cursor.peek_of_view source hview] at hs
    rw [Cursor.peek_of_view source' hview']
    have hl := hname.line
    have ht := hsame.line
    have hline : (t'.start.line = name'.start.line) = (t.start.line = name.start.line) := by
      refine propext ⟨fun _ => ?_, fun _ => ?_⟩ <;> omega
    simp only [hsame.kind, hline]
    exact hs
  | ended _ hstop' =>
    cases ts' with
    | nil => simp [Cursor.peek, hview', hend]
    | cons t' us' =>
      rw [Cursor.peek_of_view source' hview']
      obtain hk | hk := hstop' t' us' rfl <;> simp [hk]

/-- A call where one follows on the first side, with its parenthesis before the end. -/
theorem callFollows_true {name name' : Token} (hname : f.Same name name') (hm : mode.Loosens mode')
    (h : f.Alike c.rest c'.rest) {names : Tail (List Text) c}
    (hnames : nameTail source mode c = .ok names) {paren : Step Token names.next}
    (hparen : names.next.expect source mode .lparen = .ok paren)
    (hlen : f.behind ≤ paren.next.rest.length) (hs : callFollows source mode name c = true) :
    callFollows source' mode' name' c' = true := by
  obtain ⟨t, us, hview, hsuffix⟩ := exists_view_of_call hnames hparen
  have hle := hsuffix.length_le
  unfold callFollows at hs ⊢
  rw [Cursor.peek_of_view source hview] at hs
  have hn : t.kind ≠ .newline := by
    intro hk
    simp [hk] at hs
  obtain ⟨t', us', hview', hsame, -⟩ := ahead_of_alike hm h t us hview hn (by omega)
  rw [Cursor.peek_of_view source' hview']
  have hl := hname.line
  have ht := hsame.line
  have hline : (t'.start.line = name'.start.line) = (t.start.line = name.start.line) := by
    refine propext ⟨fun _ => ?_, fun _ => ?_⟩ <;> omega
  simp only [hsame.kind, hline]
  exact hs

/-- No `for` where none stands on the first side. -/
theorem atFor_false (hend : source'.endToken.kind = .endOfText) (h : f.Alike c.rest c'.rest)
    (hin : f.Inside c) (hs : atFor source c = false) : atFor source' c' = false := by
  obtain ⟨t, t', us, us', hview, hview', hsame, hrest⟩ := same_inside h hin
  have hword : t'.isWord .ident "for".toList = t.isWord .ident "for".toList :=
    same_isWord hsame _ (by decide)
  unfold atFor Cursor.acceptWord? at hs ⊢
  cases hfor : t.isWord .ident "for".toList with
  | false => rw [Cursor.takeIf?_none_of_view hview' (by rw [hword, hfor])]
  | true =>
    obtain ⟨s, htake, -, rfl⟩ := Cursor.takeIf?_of_view hview hfor
    rw [← hword] at hfor
    obtain ⟨s', htake', -, rfl⟩ := Cursor.takeIf?_of_view hview' hfor
    rw [htake] at hs
    rw [htake']
    -- the variable behind the keyword decides
    have hnext : f.Next (s.next.view .ignored) (s'.next.view .ignored) := next_dropWhile hrest
    generalize hpeek : s.next.view .ignored = ts at hnext
    generalize hpeek' : s'.next.view .ignored = ts' at hnext
    cases hnext with
    | same hvariable _ =>
      simp only [Cursor.peek_of_view source hpeek] at hs
      simp only [Cursor.peek_of_view source' hpeek', hvariable.kind]
      exact hs
    | ended _ hstop' =>
      cases ts' with
      | nil => simp [Cursor.peek, hpeek', hend]
      | cons u us =>
        simp only [Cursor.peek_of_view source' hpeek']
        obtain hk | hk := hstop' u us rfl <;> simp [hk]

/-! ## Where the first side stops -/

section Settled

variable {least start : Nat} {before : Expr} {s : Tail Expr c}

theorem settled_of_readOperations (hm : mode.Loosens mode')
    (hs : readOperations source mode least start before c = .ok s)
    (h : f.Settled mode mode' s.next.rest) : f.Settled mode mode' c.rest := by
  obtain ⟨-, -, heq⟩ | ⟨strength, operator, right, all, hop, -⟩ := readOperations_cases hs
  · rwa [heq] at h
  · exact settled_of_accept? (by decide) hm (operator?_accept hop).1

theorem settled_of_readSteps (hm : mode.Loosens mode')
    (hs : readSteps source mode start before c = .ok s)
    (h : f.Settled mode mode' s.next.rest) : f.Settled mode mode' c.rest := by
  obtain ⟨-, -, heq⟩ | ⟨first, step, all, hfirst, hstep, -⟩ := readSteps_cases hs
  · rwa [heq] at h
  · cases mode with
    | ignored => exact .inl (hm.elim id id)
    | significant =>
      refine .inr (.inr fun t us heq hk => ?_)
      have hview := Cursor.view_of_take? hfirst
      rw [show c.view .significant = t :: us from heq] at hview
      cases hview
      exact (beginsStep_of_some hstep).ne_newline hk

end Settled

end HclTidy.Expr
