import HclTidy.Proofs.Expr.Inversion
import HclTidy.Proofs.Indexed.Steps

/-!
# Expressions read by index

From some depth on an expression that is read by index is what it is when it is read with a cursor, the
reader moves on by at least one token, and it leaves the modes as it has found them. The proof follows
the recursion of the grammar over cursors, which takes tokens off; the depth that a run needs is read
off the proof.
-/

set_option autoImplicit false

namespace HclTidy.Indexed

variable {input : Input} {code : List Token} {last : Token} {mode : LineMode} {s : State} {c : Cursor}

/-- From some depth on, reading the interpolations among parts ends and changes nothing. -/
def Passes (parts : List Template.Part) : Prop :=
  ∀ s, ∀ᶠ depth in Filter.atTop, Yields (interpolations parts depth) s () s

/-- Reading the interpolations of a token ends, and changes nothing. -/
structure Harmless (t : Token) : Prop where
  quoted : Passes (Template.partsOf true t.text)
  heredoc : Passes (Template.partsOf false (heredocBody t.text))

/-- The tokens end in the only one for the end of the text, and the interpolations of all others can be
read. -/
structure Readable (input : Input) (code : List Token) (last : Token) : Prop
    extends EndsIn input code last where
  harmless : ∀ t ∈ code, Harmless t

/-- Line breaks are layout from here on. -/
theorem ready_push (h : Exact input code last s c) :
    Ready input code last .ignored { s with modes := .ignored :: s.modes } c := by
  have h' : Exact input code last { s with modes := .ignored :: s.modes } c := h.with rfl rfl rfl
  exact ⟨h'.at_exact rfl, rfl⟩

section Readers

variable (hend : EndsIn input code last)

include hend

/-! ## Names and separators -/

theorem follows_nameParts (mode : LineMode) (c : Cursor) (s : State)
    (h : Ready input code last mode s c) :
    Follows (Expr.nameTail ⟨input.text, last⟩ mode c) (nameParts input) s fun names value s' =>
      value = names.value ∧ Came (Settled input code last mode) 0 s names.next s' := by
  refine Follows.deeper ?_
  simp only [nameParts]
  rw [Expr.nameTail]
  refine Follows.after (yields_eaten s) ?_
  split
  · next hnone =>
    obtain ⟨s₁, hmaybe, h₁⟩ := yields_accept_none hend (by decide) h.place hnone
    exact Follows.after hmaybe (follows_pure ⟨rfl, h₁.toCame⟩)
  · next colons hcolons =>
    obtain ⟨s₁, hmaybe, h₁⟩ := yields_accept_some hend (by decide) h.place hcolons
    refine Follows.after hmaybe ?_
    refine (follows_expect hend (by decide) (h₁.ready_exact h.mode).place).bind ?_
    rintro part token s₂ ⟨rfl, h₂⟩
    have := colons.shorter
    have := part.shorter
    have h₁₂ := h₁.trans h₂
    refine Follows.after (yields_moved (h₁₂.moved (by decide))) ?_
    refine (follows_nameParts mode part.next s₂ (h₁₂.ready_exact h.mode)).bind ?_
    rintro more value s₃ ⟨rfl, h₃⟩
    exact follows_pure ⟨rfl, (h₁₂.trans h₃).of_le (Nat.zero_le _)⟩
termination_by c.rest.length
decreasing_by omega

theorem yields_atFor (h : Ready input code last .ignored s c) :
    ∃ s', Yields (atFor input) s (Expr.atFor ⟨input.text, last⟩ c) s' ∧
      Came (Settled input code last .ignored) 0 s c s' := by
  obtain ⟨s₁, hpeek, h₁⟩ := yields_peek hend h.place
  unfold Expr.atFor
  cases hword : c.acceptWord? .ignored "for".toList with
  | some keyword =>
    obtain ⟨hvalue, hkeyword⟩ := peek_of_takeIf? ⟨input.text, last⟩ hword
    obtain ⟨s₂, hnext, h₂⟩ := yields_peek_one hend (h₁.ready_settled h.mode)
      (Cursor.take?_of_takeIf? hword)
    refine ⟨s₂, hpeek.bind ?_, h₁.toCame.trans h₂.toCame⟩
    rw [hvalue, if_pos hkeyword]
    exact hnext.bind (yields_pure _ _)
  | none =>
    refine ⟨s₁, hpeek.bind ?_, h₁.toCame⟩
    have hlast : last.isWord .ident "for".toList = false := (neverEnd_ofWord _).not_last hend
    rw [if_neg (Bool.eq_false_iff.mp (not_wanted_peek ⟨input.text, last⟩ hlast hword))]
    exact yields_pure _ _

theorem follows_secondName (h : Ready input code last .ignored s c) :
    Follows (Expr.secondName ⟨input.text, last⟩ c) (fun _ => secondName input) s fun name _ s' =>
      Came (At input code last .ignored) 0 s name.next s' := by
  unfold Expr.secondName secondName
  split
  · next hnone =>
    obtain ⟨s₁, hmaybe, h₁⟩ := yields_accept_none hend (by decide) h.place hnone
    exact Follows.after hmaybe (follows_pure h₁.came_again)
  · next comma hcomma =>
    obtain ⟨s₁, hmaybe, h₁⟩ := yields_accept_some hend (by decide) h.place hcomma
    refine Follows.after hmaybe ?_
    refine (follows_expect hend (by decide) (h₁.ready_exact h.mode).place).bind ?_
    rintro name token s₂ ⟨-, h₂⟩
    exact follows_pure (((h₁.trans h₂).of_le (Nat.zero_le _)).at_exact h.mode)

/-- An equals sign or a colon behind a key. -/
theorem yields_separator (h : Ready input code last .ignored s c) {next : Step Token c}
    (hnext : c.takeIf? .ignored (fun t => t.kind = .equal || t.kind = .colon) = some next) :
    ∃ s', Yields (separator input) s () s' ∧ Came (Exact input code last) 1 s next.next s' := by
  have htake := Cursor.take?_of_takeIf? hnext
  have hkind := (peek_of_takeIf? ⟨input.text, last⟩ hnext).2
  by_cases hequal : next.value.kind = .equal
  · have haccept : c.accept? .ignored .equal = some next :=
      takeIf?_of_take? htake (decide_eq_true hequal)
    obtain ⟨s₁, hmaybe, h₁⟩ := yields_accept_some hend (by decide) h.place haccept
    exact ⟨s₁, hmaybe.bind (yields_pure _ _), h₁⟩
  · rw [Bool.or_eq_true, decide_eq_true_iff, decide_eq_true_iff] at hkind
    have hnone : c.accept? .ignored .equal = none :=
      Cursor.takeIf?_none_of_view (Cursor.view_of_take? htake) (decide_eq_false hequal)
    have haccept : c.accept? .ignored .colon = some next :=
      takeIf?_of_take? htake (decide_eq_true (hkind.resolve_left hequal))
    obtain ⟨s₁, hmaybe, h₁⟩ := yields_accept_none hend (by decide) h.place hnone
    obtain ⟨s₂, hmaybe', h₂⟩ := yields_accept_some hend (by decide) h₁.again haccept
    exact ⟨s₂, hmaybe.bind (hmaybe'.bind (yields_pure _ _)), (h₁.toCame.trans h₂).of_le (by decide)⟩

/-- Anything else behind a key is refused. -/
theorem refuses_separator (h : Ready input code last .ignored s c)
    (hnone : c.takeIf? .ignored (fun t => t.kind = .equal || t.kind = .colon) = none) :
    Refuses (separator input) s
      ⟨.grammar .expectedKeySeparator (c.peek ⟨input.text, last⟩ .ignored), c.events⟩ := by
  have hnot {kind : Token.Kind} (hk : kind = .equal ∨ kind = .colon) : c.accept? .ignored kind = none := by
    cases hview : c.view .ignored with
    | nil => exact Cursor.takeIf?_none_of_nil hview
    | cons t ts =>
      refine Cursor.takeIf?_none_of_view hview (decide_eq_false fun ht => ?_)
      have hwanted := Cursor.not_wanted_of_none hview hnone
      rw [ht, Bool.or_eq_false_iff, decide_eq_false_iff_not, decide_eq_false_iff_not] at hwanted
      exact hk.elim hwanted.1 hwanted.2
  obtain ⟨s₁, hequal, h₁⟩ := yields_accept_none hend (by decide) h.place (hnot (.inl rfl))
  obtain ⟨s₂, hcolon, h₂⟩ := yields_accept_none hend (by decide) h₁.again (hnot (.inr rfl))
  obtain ⟨s₃, hpeek, h₃⟩ := yields_peek hend h₂.again
  rw [Refuses, separator, bind_of_yields hequal]
  dsimp only
  rw [bind_of_yields hcolon]
  dsimp only
  rw [bind_of_yields hpeek, ← h₃.here.events]
  rfl

/-! ## Operators and signs -/

omit hend in
theorem strength?_of_operator? (source : Source) {least strength : Nat} {next : Step Token c}
    (h : Expr.operator? mode least c = some (strength, next)) :
    strength? (c.peek source mode) = some strength := by
  obtain ⟨haccept, hstrength, -⟩ := Expr.operator?_accept h
  obtain ⟨hvalue, hkind⟩ := peek_of_takeIf? source haccept
  rw [hvalue, strength?, if_pos (of_decide_eq_true hkind), hstrength]

/-- What is no operator to be read here is no operator, or binds less strongly. -/
theorem lt_of_operator?_none {least strength : Nat} (h : Expr.operator? mode least c = none)
    (hstrength : strength? (c.peek ⟨input.text, last⟩ mode) = some strength) : strength < least := by
  unfold strength? at hstrength
  split at hstrength
  · next hkind =>
    cases haccept : c.accept? mode .operator with
    | none =>
      have hlast : last.isKind .operator = false := (neverEnd_ofKind (by decide)).not_last hend
      have hnot := not_wanted_peek ⟨input.text, last⟩ hlast haccept
      exact absurd hkind (of_decide_eq_false hnot)
    | some next =>
      rw [(peek_of_takeIf? ⟨input.text, last⟩ haccept).1] at hstrength
      unfold Expr.operator? at h
      rw [haccept] at h
      simp only [hstrength] at h
      split at h
      · assumption
      · cases h
  · cases hstrength

theorem last_isWord {kind : Token.Kind} (hk : kind ≠ .endOfText) (word : Text) :
    last.isWord kind word = false := by
  rw [Token.isWord, hend.kind, decide_eq_false (Ne.symm hk), Bool.false_and]

omit hend in
theorem kind_of_isWord {kind : Token.Kind} {word : Text} {t : Token} (h : t.isWord kind word = true) :
    t.kind = kind := by
  rw [Token.isWord, Bool.and_eq_true] at h
  exact of_decide_eq_true h.1

omit hend in
theorem kind_of_sign? {sign : Step Token c} (h : Expr.sign? mode c = some sign) :
    sign.value.kind = .operator := by
  have hsign := (Cursor.view_of_takeIf? h).2
  rw [Bool.or_eq_true] at hsign
  exact hsign.elim kind_of_isWord kind_of_isWord

end Readers

/-! ## Steps behind an expression -/

theorem eventually_step_none {t : Token} (h : ¬ Expr.BeginsStep t) (s : State) :
    ∀ᶠ depth in Filter.atTop, Yields (step input t depth) s none s := by
  refine eventually_of_succ (.of_forall fun depth => ?_)
  rw [step, if_neg fun hk => h (.inl hk), if_neg fun hk => h (.inr hk)]
  exact yields_pure none s

theorem peek_of_take?_none (source : Source) (h : c.take? mode = none) :
    c.peek source mode = source.endToken := by
  cases hview : c.view mode with
  | nil =>
    rw [Cursor.peek, hview]
    rfl
  | cons t ts =>
    obtain ⟨next, hnext, -⟩ := Cursor.take?_of_view hview
    rw [h] at hnext
    cases hnext

/-- The star of an index step. -/
theorem eventually_index_splat (hend : EndsIn input code last) (h : Ready input code last .ignored s c)
    {splat : Step Token c} (hsplat : c.takeIf? .ignored (Token.isWord .operator ['*']) = some splat) :
    ∃ s', (∀ᶠ depth in Filter.atTop, Yields (index input depth) s false s') ∧
      Came (Exact input code last) 1 s splat.next s' := by
  obtain ⟨s₁, hpeek, h₁⟩ := yields_peek hend h.place
  obtain ⟨hvalue, hstar⟩ := peek_of_takeIf? ⟨input.text, last⟩ hsplat
  obtain ⟨s₂, heat, h₂⟩ := yields_eat_kind hend (by decide) h₁.again (Cursor.take?_of_takeIf? hsplat)
    (kind_of_isWord hstar)
  refine ⟨s₂, eventually_of_succ (.of_forall fun depth => hpeek.bind ?_),
    (h₁.toCame.trans h₂).of_le (by decide)⟩
  rw [hvalue, if_pos hstar]
  exact heat.bind (yields_pure false s₂)

/-- A step has been read, or there is none and nothing has changed. -/
def Stepped (input : Input) (code : List Token) (last : Token) (s : State) :
    Option (Step Bool c) → Option Bool → State → Prop
  | none, static?, s' => static? = none ∧ s' = s
  | some next, static?, s' =>
    static? = some next.value ∧ Came (Exact input code last) 1 s next.next s'

theorem eventually_template {token : Token} {heredoc : Bool} {parts : List Template.Part}
    (h : Passes parts) (s : State) :
    ∀ᶠ depth in Filter.atTop, Yields (template token heredoc parts depth) s
      (.template token.text heredoc parts) { s with events := .template token :: s.events } :=
  eventually_of_succ ((h _).mono fun _ h =>
    (yields_record (.template token) s).bind (h.bind (yields_pure _ _)))

/-- What is read from a later state on has been read from the earlier one on. -/
theorem Follows.since {place place' : State → Cursor → Prop} {n : Nat} {s₁ : State} {d : Cursor}
    {r : Reading (Step Expr c)} {x : Nat → Run Expr}
    (h : Follows r x s₁ fun next value s' => value = next.value ∧ Came place' n s₁ next.next s')
    (h₁ : Came place 0 s d s₁) :
    Follows r x s₁ fun next value s' => value = next.value ∧ Came place' n s next.next s' := by
  refine h.mono ?_
  rintro next _ s₂ ⟨rfl, h₂⟩
  exact ⟨rfl, (h₁.trans h₂).of_le (Nat.le_add_left n 0)⟩

/-- The closing bracket, and in front of it the end of the layout. -/
theorem Follows.close (hend : EndsIn input code last) {γ δ : Type} {closing : Token.Kind}
    (hclosing : closing ≠ .endOfText) {n : Nat} {s' : State} {next : Step Token c → Reading δ}
    {k : Nat → Token → Run γ} {Q : δ → γ → State → Prop}
    (h : Came (Settled input code last .ignored) n { s with modes := .ignored :: s.modes } c s')
    (hk : ∀ close token s'', Came (Exact input code last) (n + 1) s close.next s'' →
      Follows (next close) (fun depth => k depth token) s'' Q) :
    Follows (c.expect ⟨input.text, last⟩ .ignored closing >>= next)
      (fun depth => pop >>= fun _ => eat input (.ofKind closing) >>= k depth) s' Q := by
  obtain ⟨s₁, hpop, h₁⟩ := h.popped
  refine Follows.after hpop ?_
  refine (follows_expect hend hclosing h₁.here.at_ignored).bind ?_
  rintro close token s₂ ⟨-, h₂⟩
  exact hk close token s₂ (h₁.trans h₂)

/-! ## Expressions -/

section Grammar

variable (hinput : Readable input code last)

include hinput

mutual

theorem follows_expression (mode : LineMode) (c : Cursor) (s : State)
    (h : Ready input code last mode s c) :
    Follows (Expr.read ⟨input.text, last⟩ mode c) (expression input) s fun next value s' =>
      value = next.value ∧ Came (Settled input code last mode) 1 s next.next s' := by
  refine Follows.deeper ?_
  simp only [expression]
  rw [Expr.read]
  refine Follows.after (yields_eaten s) ?_
  obtain ⟨s₁, hpeek, h₁⟩ := yields_peek hinput.toEndsIn h.place
  refine Follows.after hpeek ?_
  refine (follows_binary mode 1 c s₁ (h₁.ready_settled h.mode)).bind ?_
  rintro condition _ s₂ ⟨rfl, h₂⟩
  have := condition.shorter
  have h₁₂ := h₁.toCame.trans h₂
  have hready := h₁₂.ready_settled h.mode
  dsimp only
  split
  · next hnone =>
    obtain ⟨s₃, hmaybe, h₃⟩ := yields_accept_none hinput.toEndsIn (by decide) hready.place hnone
    have h₁₃ := h₁₂.trans h₃.toCame
    refine Follows.after hmaybe ?_
    refine Follows.after (yields_moved (h₁₃.moved (by decide))) ?_
    exact follows_pure ⟨rfl, h₁₃⟩
  · next question hquestion =>
    have := question.shorter
    obtain ⟨s₃, hmaybe, h₃⟩ := yields_accept_some hinput.toEndsIn (by decide) hready.place hquestion
    have h₁₃ := h₁₂.trans h₃
    refine Follows.after hmaybe ?_
    refine (follows_expression mode question.next s₃ (h₁₃.ready_exact h.mode)).bind ?_
    rintro yes _ s₄ ⟨-, h₄⟩
    have := yes.shorter
    have h₁₄ := h₁₃.trans h₄
    refine (follows_expect hinput.toEndsIn (by decide) (h₁₄.ready_settled h.mode).place).bind ?_
    rintro colon _ s₅ ⟨-, h₅⟩
    have := colon.shorter
    have h₁₅ := h₁₄.trans h₅
    refine (follows_expression mode colon.next s₅ (h₁₅.ready_exact h.mode)).bind ?_
    rintro no _ s₆ ⟨-, h₆⟩
    have h₁₆ := h₁₅.trans h₆
    refine Follows.after (yields_moved (h₁₆.moved (by decide))) ?_
    refine Follows.after (yields_sourceFrom input last _ h₁₆.here.stop) ?_
    exact follows_pure ⟨rfl, h₁₆.of_le (by decide)⟩
termination_by 16 * c.rest.length + 9

theorem follows_binary (mode : LineMode) (least : Nat) (c : Cursor) (s : State)
    (h : Ready input code last mode s c) :
    Follows (Expr.readBinary ⟨input.text, last⟩ mode least c) (binary input least) s
      fun next value s' =>
        value = next.value ∧ Came (Settled input code last mode) 1 s next.next s' := by
  refine Follows.deeper ?_
  simp only [binary]
  rw [Expr.readBinary]
  obtain ⟨s₁, hpeek, h₁⟩ := yields_peek hinput.toEndsIn h.place
  refine Follows.after hpeek ?_
  refine (follows_unary mode c s₁ (h₁.ready_settled h.mode)).bind ?_
  rintro left _ s₂ ⟨rfl, h₂⟩
  have := left.shorter
  have h₁₂ := h₁.toCame.trans h₂
  refine (follows_operations mode least _ left.value left.next s₂ (h₁₂.ready_settled h.mode)).map ?_
  rintro all _ s₃ ⟨rfl, h₃⟩
  exact follows_pure ⟨rfl, h₁₂.trans h₃⟩
termination_by 16 * c.rest.length + 8

theorem follows_operations (mode : LineMode) (least start : Nat) (left : Expr) (c : Cursor) (s : State)
    (h : Ready input code last mode s c) :
    Follows (Expr.readOperations ⟨input.text, last⟩ mode least start left c)
      (operations input least start left) s fun all value s' =>
        value = all.value ∧ Came (Settled input code last mode) 0 s all.next s' := by
  refine Follows.deeper ?_
  simp only [operations]
  rw [Expr.readOperations]
  refine Follows.after (yields_eaten s) ?_
  obtain ⟨s₁, hpeek, h₁⟩ := yields_peek hinput.toEndsIn h.place
  refine Follows.after hpeek ?_
  cases hoperator : Expr.operator? mode least c with
  | none =>
    cases hstrength : strength? (c.peek ⟨input.text, last⟩ mode) with
    | none => exact follows_pure ⟨rfl, h₁.toCame⟩
    | some strength =>
      dsimp only
      simp only [if_pos (lt_of_operator?_none hinput.toEndsIn hoperator hstrength)]
      exact follows_pure ⟨rfl, h₁.toCame⟩
  | some found =>
    obtain ⟨strength, operator⟩ := found
    obtain ⟨haccept, -, hleast⟩ := Expr.operator?_accept hoperator
    obtain ⟨s₂, heat, h₂⟩ := yields_eat_accept hinput.toEndsIn (by decide) h₁.again haccept
    have := operator.shorter
    have h₁₂ := h₁.toCame.trans h₂
    rw [strength?_of_operator? _ hoperator]
    dsimp only
    simp only [if_neg hleast]
    refine Follows.after heat ?_
    refine (follows_binary mode (strength + 1) operator.next s₂ (h₁₂.ready_exact h.mode)).bind ?_
    rintro right _ s₃ ⟨-, h₃⟩
    have := right.shorter
    have h₁₃ := h₁₂.trans h₃
    refine Follows.after (yields_moved (h₁₃.moved (by decide))) ?_
    refine Follows.after (yields_sourceFrom input last start h₁₃.here.stop) ?_
    refine (follows_operations mode least start _ right.next s₃ (h₁₃.ready_settled h.mode)).map ?_
    rintro all _ s₄ ⟨rfl, h₄⟩
    exact follows_pure ⟨rfl, (h₁₃.trans h₄).of_le (Nat.zero_le _)⟩
termination_by 16 * c.rest.length

theorem follows_unary (mode : LineMode) (c : Cursor) (s : State)
    (h : Ready input code last mode s c) :
    Follows (Expr.readUnary ⟨input.text, last⟩ mode c) (unary input) s fun next value s' =>
      value = next.value ∧ Came (Settled input code last mode) 1 s next.next s' := by
  refine Follows.deeper ?_
  simp only [unary]
  rw [Expr.readUnary]
  obtain ⟨s₁, hpeek, h₁⟩ := yields_peek hinput.toEndsIn h.place
  refine Follows.after hpeek ?_
  cases hsign : Expr.sign? mode c with
  | none =>
    have hlast : (last.isWord .operator ['-'] || last.isWord .operator ['!']) = false := by
      rw [last_isWord hinput.toEndsIn (by decide), last_isWord hinput.toEndsIn (by decide), Bool.or_self]
    simp only [if_neg (Bool.eq_false_iff.mp (not_wanted_peek ⟨input.text, last⟩ hlast hsign))]
    exact (follows_primaryWithSteps mode c s₁ (h₁.ready_settled h.mode)).since h₁.toCame
  | some sign =>
    obtain ⟨hvalue, hsigned⟩ := peek_of_takeIf? ⟨input.text, last⟩ hsign
    obtain ⟨s₂, heat, h₂⟩ :=
      yields_eat_kind hinput.toEndsIn (by decide) h₁.again (Cursor.take?_of_takeIf? hsign)
      (kind_of_sign? hsign)
    have := sign.shorter
    have h₁₂ := h₁.toCame.trans h₂
    rw [hvalue]
    simp only [if_pos hsigned]
    refine Follows.after heat ?_
    refine (follows_unary mode sign.next s₂ (h₁₂.ready_exact h.mode)).bind ?_
    rintro operand _ s₃ ⟨rfl, h₃⟩
    have h₁₃ := h₁₂.trans h₃
    refine Follows.after (yields_sourceFrom input last _ h₁₃.here.stop) ?_
    exact follows_pure ⟨rfl, h₁₃.of_le (by decide)⟩
termination_by 16 * c.rest.length + 7

theorem follows_primaryWithSteps (mode : LineMode) (c : Cursor) (s : State)
    (h : Ready input code last mode s c) :
    Follows (Expr.readPostfix ⟨input.text, last⟩ mode c) (primaryWithSteps input) s
      fun next value s' =>
        value = next.value ∧ Came (Settled input code last mode) 1 s next.next s' := by
  refine Follows.deeper ?_
  simp only [primaryWithSteps]
  rw [Expr.readPostfix]
  obtain ⟨s₁, hpeek, h₁⟩ := yields_peek hinput.toEndsIn h.place
  refine Follows.after hpeek ?_
  refine (follows_primary mode c s₁ (h₁.ready_settled h.mode)).bind ?_
  rintro first _ s₂ ⟨rfl, h₂⟩
  have := first.shorter
  have h₁₂ := h₁.toCame.trans h₂
  refine (follows_steps mode _ first.value first.next s₂ (h₁₂.ready_exact h.mode)).map ?_
  rintro all _ s₃ ⟨rfl, h₃⟩
  exact follows_pure ⟨rfl, h₁₂.trans h₃⟩
termination_by 16 * c.rest.length + 6

theorem follows_steps (mode : LineMode) (start : Nat) (before : Expr) (c : Cursor) (s : State)
    (h : Ready input code last mode s c) :
    Follows (Expr.readSteps ⟨input.text, last⟩ mode start before c) (steps input start before) s
      fun all value s' =>
        value = all.value ∧ Came (Settled input code last mode) 0 s all.next s' := by
  refine Follows.deeper ?_
  simp only [steps]
  rw [Expr.readSteps]
  refine Follows.after (yields_eaten s) ?_
  obtain ⟨s₁, hpeek, h₁⟩ := yields_peek hinput.toEndsIn h.place
  refine Follows.after hpeek ?_
  cases htake : c.take? mode with
  | none =>
    have hnot : ¬ Expr.BeginsStep last := by
      rw [Expr.BeginsStep, hinput.toEndsIn.kind]
      decide
    rw [peek_of_take?_none _ htake]
    exact Follows.eventually (eventually_step_none hnot s₁) (follows_pure ⟨rfl, h₁.toCame⟩)
  | some first =>
    have := first.shorter
    rw [Cursor.peek_of_view _ (Cursor.view_of_take? htake)]
    refine (follows_step mode c first htake s₁ (h₁.ready_settled h.mode)).bind ?_
    rintro next? static? s₂ hstep
    cases next? with
    | none =>
      obtain ⟨rfl, rfl⟩ := hstep
      exact follows_pure ⟨rfl, h₁.toCame⟩
    | some next =>
      obtain ⟨rfl, h₂⟩ := hstep
      have := next.shorter
      have h₁₂ := h₁.toCame.trans h₂
      refine Follows.after (yields_moved (h₁₂.moved (by decide))) ?_
      refine Follows.after (yields_sourceFrom input last start h₁₂.here.stop) ?_
      refine (follows_steps mode start _ next.next s₂ (h₁₂.ready_exact h.mode)).map ?_
      rintro all _ s₃ ⟨rfl, h₃⟩
      exact follows_pure ⟨rfl, (h₁₂.trans h₃).of_le (Nat.zero_le _)⟩
termination_by 16 * c.rest.length

theorem follows_step (mode : LineMode) (c : Cursor) (first : Step Token c)
    (htake : c.take? mode = some first) (s : State) (h : Ready input code last mode s c) :
    Follows (Expr.readStep ⟨input.text, last⟩ mode first.value first.next) (step input first.value) s
      (Stepped input code last s) := by
  refine Follows.deeper ?_
  simp only [step]
  rw [Expr.readStep]
  split
  · next hdot =>
    obtain ⟨s₁, heat, h₁⟩ := yields_eat_kind hinput.toEndsIn (by decide) h.place htake hdot
    have hready := h₁.ready_exact h.mode
    obtain ⟨s₂, hpeek, h₂⟩ := yields_peek hinput.toEndsIn hready.place
    have h₁₂ := h₁.trans h₂.toCame
    refine Follows.after heat (Follows.after hpeek ?_)
    cases hname : first.next.take? mode with
    | none =>
      have hkind : ¬ (last.kind = .ident || last.kind = .number) = true := by
        rw [hinput.toEndsIn.kind]
        decide
      rw [peek_of_take?_none _ hname, last_isWord hinput.toEndsIn (by decide)]
      simp only [if_neg hkind, if_neg Bool.false_ne_true]
      exact follows_refuse h₂.here.events _ _
    | some name =>
      rw [Cursor.peek_of_view _ (Cursor.view_of_take? hname)]
      dsimp only
      split
      · next hkind =>
        have hne : name.value.kind ≠ .endOfText := by
          intro hk
          rw [hk] at hkind
          exact absurd hkind (by decide)
        obtain ⟨s₃, heat, h₃⟩ := yields_eat_kind hinput.toEndsIn hne h₂.again hname rfl
        exact Follows.after heat (follows_pure (And.intro rfl ((h₁₂.trans h₃).of_le (by decide))))
      · split
        · next hstar =>
          obtain ⟨s₃, heat, h₃⟩ :=
            yields_eat_kind hinput.toEndsIn (by decide) h₂.again hname (kind_of_isWord hstar)
          exact Follows.after heat (follows_pure (And.intro rfl ((h₁₂.trans h₃).of_le (by decide))))
        · exact follows_refuse h₂.here.events _ _
  · split
    · next hbrack =>
      obtain ⟨s₁, heat, h₁⟩ := yields_eat_kind hinput.toEndsIn (by decide) h.place htake hbrack
      refine Follows.after heat (Follows.after (yields_push .ignored s₁) ?_)
      have hready := ready_push h₁.here
      split
      · next splat hsplat =>
        obtain ⟨s₂, hindex, h₂⟩ := eventually_index_splat hinput.toEndsIn hready hsplat
        obtain ⟨s₃, hpop, h₃⟩ := h₂.popped
        have h₁₃ := h₁.trans h₃
        refine Follows.eventually hindex (Follows.after hpop ?_)
        refine (follows_expect hinput.toEndsIn (by decide) (h₁₃.ready_exact h.mode).place).bind ?_
        rintro close _ s₄ ⟨-, h₄⟩
        exact follows_pure (And.intro rfl ((h₁₃.trans h₄).of_le (by decide)))
      · next hnone =>
        refine (follows_index first.next _ hready hnone).bind ?_
        rintro key _ s₂ ⟨rfl, h₂⟩
        refine Follows.close hinput.toEndsIn (by decide) h₂ fun close _ s₃ h₃ => ?_
        exact follows_pure (And.intro rfl ((h₁.trans h₃).of_le (by decide)))
    · exact follows_pure (And.intro rfl rfl)
termination_by 16 * first.next.rest.length + 11

theorem follows_index (c : Cursor) (s : State) (h : Ready input code last .ignored s c)
    (hnone : c.takeIf? .ignored (Token.isWord .operator ['*']) = none) :
    Follows (Expr.read ⟨input.text, last⟩ .ignored c) (index input) s fun key static s' =>
      static = key.value.isStaticIndex ∧ Came (Settled input code last .ignored) 1 s key.next s' := by
  obtain ⟨s₁, hpeek, h₁⟩ := yields_peek hinput.toEndsIn h.place
  have hlast : last.isWord .operator ['*'] = false := last_isWord hinput.toEndsIn (by decide) _
  refine Follows.deeper ?_
  simp only [index]
  refine Follows.after hpeek ?_
  simp only [if_neg (Bool.eq_false_iff.mp (not_wanted_peek ⟨input.text, last⟩ hlast hnone))]
  refine (follows_expression .ignored c s₁ (h₁.ready_settled h.mode)).andThen ?_
  rintro key _ s₂ ⟨rfl, h₂⟩
  exact follows_pure ⟨rfl, h₁.toCame.trans h₂⟩
termination_by 16 * c.rest.length + 10

theorem follows_primary (mode : LineMode) (c : Cursor) (s : State)
    (h : Ready input code last mode s c) :
    Follows (Expr.readPrimary ⟨input.text, last⟩ mode c) (primary input) s fun next value s' =>
      value = next.value ∧ Came (Exact input code last) 1 s next.next s' := by
  refine Follows.deeper ?_
  simp only [primary]
  obtain ⟨s₁, hpeek, h₁⟩ := yields_peek hinput.toEndsIn h.place
  have hready := h₁.ready_settled h.mode
  refine Follows.after hpeek ?_
  cases htake : c.take? mode with
  | none =>
    rw [peek_of_take?_none _ htake, Expr.readPrimary, htake]
    dsimp only
    rw [hinput.toEndsIn.kind]
    exact follows_refuse h₁.here.events _ _
  | some first =>
    have := first.shorter
    have hmem : first.value ∈ code := by
      refine h₁.here.suffix.subset ((c.view_suffix mode).subset ?_)
      rw [Cursor.view_of_take? htake]
      exact List.mem_cons_self ..
    have heat {kind : Token.Kind} (hk : first.value.kind = kind) (hne : kind ≠ .endOfText) :=
      yields_eat_kind hinput.toEndsIn hne h₁.again htake hk
    rw [Cursor.peek_of_view _ (Cursor.view_of_take? htake)]
    split
    · next hk =>
      obtain ⟨s₂, heat, h₂⟩ := heat hk (by decide)
      rw [Expr.readPrimary, htake]
      dsimp only
      rw [hk]
      exact Follows.after heat (follows_pure ⟨rfl, (h₁.toCame.trans h₂).of_le (by decide)⟩)
    · next hk =>
      obtain ⟨s₂, heat, h₂⟩ := heat hk (by decide)
      rw [Expr.readPrimary, htake]
      dsimp only
      rw [hk]
      refine Follows.after heat ⟨_, _, eventually_template (hinput.harmless _ hmem).quoted s₂, rfl, ?_⟩
      exact ((h₁.toCame.trans h₂).of_le (by decide)).recorded _
    · next hk =>
      obtain ⟨s₂, heat, h₂⟩ := heat hk (by decide)
      rw [Expr.readPrimary, htake]
      dsimp only
      rw [hk]
      refine Follows.after heat ⟨_, _, eventually_template (hinput.harmless _ hmem).heredoc s₂, rfl, ?_⟩
      exact ((h₁.toCame.trans h₂).of_le (by decide)).recorded _
    · next hk =>
      exact (follows_word mode c first htake hk s₁ hready).since h₁.toCame
    · next hk =>
      exact (follows_tuple mode c first htake hk s₁ hready).since h₁.toCame
    · next hk =>
      exact (follows_object mode c first htake hk s₁ hready).since h₁.toCame
    · next hk =>
      obtain ⟨s₂, heat, h₂⟩ := heat hk (by decide)
      have h₁₂ := h₁.toCame.trans h₂
      rw [Expr.readPrimary, htake]
      dsimp only
      rw [hk]
      refine Follows.after heat (Follows.after (yields_push .ignored s₂) ?_)
      refine (follows_expression .ignored first.next _ (ready_push h₂.here)).bind ?_
      rintro inner _ s₃ ⟨rfl, h₃⟩
      refine Follows.close hinput.toEndsIn (by decide) h₃ fun close _ s₄ h₄ => ?_
      have h₁₄ := h₁₂.trans h₄
      cases inner.value with
      | traversal text root =>
        refine Follows.after (yields_sourceFrom input last _ h₁₄.here.stop) ?_
        exact follows_pure ⟨rfl, h₁₄.of_le (by decide)⟩
      | _ => exact follows_pure ⟨rfl, h₁₄.of_le (by decide)⟩
    · rw [Expr.readPrimary, htake]
      dsimp only
      split <;> first | contradiction | exact follows_refuse h₁.here.events _ _
termination_by 16 * c.rest.length + 5

theorem follows_word (mode : LineMode) (c : Cursor) (first : Step Token c)
    (htake : c.take? mode = some first) (hk : first.value.kind = .ident) (s : State)
    (h : Ready input code last mode s c) :
    Follows (Expr.readPrimary ⟨input.text, last⟩ mode c) (word input first.value) s fun next value s' =>
      value = next.value ∧ Came (Exact input code last) 1 s next.next s' := by
  refine Follows.deeper ?_
  simp only [word]
  by_cases hkeyword : Expr.isKeyword first.value = true
  · obtain ⟨s₁, heat, h₁⟩ := yields_eat_kind hinput.toEndsIn (by decide) h.place htake hk
    simp only [if_pos hkeyword]
    rw [Expr.readPrimary, htake]
    dsimp only
    rw [hk]
    dsimp only
    simp only [if_pos hkeyword]
    exact Follows.after heat (follows_pure ⟨rfl, h₁⟩)
  obtain ⟨s₁, hpeek, h₁⟩ := yields_peek_one hinput.toEndsIn h htake
  simp only [if_neg hkeyword]
  refine Follows.after hpeek ?_
  change Follows _ (fun _ => if Expr.callFollows ⟨input.text, last⟩ mode first.value first.next then _
    else _) _ _
  by_cases hcall : Expr.callFollows ⟨input.text, last⟩ mode first.value first.next = true
  · simp only [if_pos hcall]
    have hready := h₁.ready_settled h.mode
    exact (follows_call mode c first htake hk hkeyword hcall s₁ hready).since h₁.toCame
  · obtain ⟨s₂, heat, h₂⟩ := yields_eat_kind hinput.toEndsIn (by decide) h₁.again htake hk
    simp only [if_neg hcall]
    rw [Expr.readPrimary, htake]
    dsimp only
    rw [hk]
    dsimp only
    rw [if_neg hkeyword, if_neg hcall]
    exact Follows.after heat (follows_pure ⟨rfl, (h₁.toCame.trans h₂).of_le (by decide)⟩)
termination_by 16 * c.rest.length + 4

theorem follows_call (mode : LineMode) (c : Cursor) (first : Step Token c)
    (htake : c.take? mode = some first) (hk : first.value.kind = .ident)
    (hkeyword : ¬ Expr.isKeyword first.value = true)
    (hcall : Expr.callFollows ⟨input.text, last⟩ mode first.value first.next = true) (s : State)
    (h : Ready input code last mode s c) :
    Follows (Expr.readPrimary ⟨input.text, last⟩ mode c) (call input) s fun next value s' =>
      value = next.value ∧ Came (Exact input code last) 1 s next.next s' := by
  obtain ⟨s₁, hpeek, h₁⟩ := yields_peek hinput.toEndsIn h.place
  obtain ⟨s₂, heat, h₂⟩ := yields_eat_kind hinput.toEndsIn (by decide) h₁.again htake hk
  have := first.shorter
  have h₁₂ := h₁.toCame.trans h₂
  rw [Cursor.peek_of_view _ (Cursor.view_of_take? htake)] at hpeek
  refine Follows.deeper ?_
  simp only [call]
  rw [Expr.readPrimary, htake]
  dsimp only
  rw [hk]
  dsimp only
  rw [if_neg hkeyword, if_pos hcall]
  refine Follows.after hpeek (Follows.after heat ?_)
  refine (follows_nameParts hinput.toEndsIn mode first.next s₂ (h₁₂.ready_exact h.mode)).bind ?_
  rintro names _ s₃ ⟨rfl, h₃⟩
  have := names.notLonger
  have h₁₃ := h₁₂.trans h₃
  refine (follows_expect hinput.toEndsIn (by decide) (h₁₃.ready_settled h.mode).place).bind ?_
  rintro paren _ s₄ ⟨-, h₄⟩
  have := paren.shorter
  have h₁₄ := h₁₃.trans h₄
  refine Follows.after (yields_push .ignored s₄) ?_
  refine (follows_arguments paren.next _ (ready_push h₄.here)).bind ?_
  rintro args _ s₅ ⟨rfl, h₅⟩
  refine Follows.close hinput.toEndsIn (by decide) h₅ fun close _ s₆ h₆ => ?_
  have h₁₆ := h₁₄.trans h₆
  refine Follows.after (yields_sourceFrom input last _ h₁₆.here.stop) ?_
  exact follows_pure ⟨rfl, h₁₆.of_le (by decide)⟩
termination_by 16 * c.rest.length + 3

theorem follows_tuple (mode : LineMode) (c : Cursor) (first : Step Token c)
    (htake : c.take? mode = some first) (hk : first.value.kind = .lbrack) (s : State)
    (h : Ready input code last mode s c) :
    Follows (Expr.readPrimary ⟨input.text, last⟩ mode c) (tuple input) s fun next value s' =>
      value = next.value ∧ Came (Exact input code last) 1 s next.next s' := by
  obtain ⟨s₁, heat, h₁⟩ := yields_eat_kind hinput.toEndsIn (by decide) h.place htake hk
  obtain ⟨s₂, hfor, h₂⟩ := yields_atFor hinput.toEndsIn (ready_push h₁.here)
  have := first.shorter
  refine Follows.deeper ?_
  simp only [tuple]
  rw [Expr.readPrimary, htake]
  dsimp only
  rw [hk]
  dsimp only
  refine Follows.after heat (Follows.after (yields_push .ignored s₁) (Follows.after hfor ?_))
  split
  · refine (follows_forExpression _ .rbrack (by decide) first.next s₁ s₂ h₂).map ?_
    rintro all _ s₃ ⟨rfl, h₃⟩
    exact follows_pure ⟨rfl, (h₁.trans h₃).of_le (by decide)⟩
  · refine (follows_items first.next s₂ (h₂.ready_settled rfl)).bind ?_
    rintro items _ s₃ ⟨rfl, h₃⟩
    refine Follows.close hinput.toEndsIn (by decide) (h₂.trans h₃) fun close _ s₄ h₄ => ?_
    have h₁₄ := h₁.trans h₄
    refine Follows.after (yields_sourceFrom input last _ h₁₄.here.stop) ?_
    exact follows_pure ⟨rfl, h₁₄.of_le (by decide)⟩
termination_by 16 * c.rest.length + 3

theorem follows_object (mode : LineMode) (c : Cursor) (first : Step Token c)
    (htake : c.take? mode = some first) (hk : first.value.kind = .lbrace) (s : State)
    (h : Ready input code last mode s c) :
    Follows (Expr.readPrimary ⟨input.text, last⟩ mode c) (object input) s fun next value s' =>
      value = next.value ∧ Came (Exact input code last) 1 s next.next s' := by
  obtain ⟨s₁, heat, h₁⟩ := yields_eat_kind hinput.toEndsIn (by decide) h.place htake hk
  obtain ⟨s₂, hfor, h₂⟩ := yields_atFor hinput.toEndsIn (ready_push h₁.here)
  have := first.shorter
  refine Follows.deeper ?_
  simp only [object]
  rw [Expr.readPrimary, htake]
  dsimp only
  rw [hk]
  dsimp only
  refine Follows.after heat (Follows.after (yields_push .ignored s₁) (Follows.after hfor ?_))
  split
  · refine (follows_forExpression _ .rbrace (by decide) first.next s₁ s₂ h₂).map ?_
    rintro all _ s₃ ⟨rfl, h₃⟩
    exact follows_pure ⟨rfl, (h₁.trans h₃).of_le (by decide)⟩
  · refine (follows_pairs first.next s₂ (h₂.ready_settled rfl)).bind ?_
    rintro entries _ s₃ ⟨rfl, h₃⟩
    refine Follows.close hinput.toEndsIn (by decide) (h₂.trans h₃) fun close _ s₄ h₄ => ?_
    have h₁₄ := h₁.trans h₄
    refine Follows.after (yields_sourceFrom input last _ h₁₄.here.stop) ?_
    exact follows_pure ⟨rfl, h₁₄.of_le (by decide)⟩
termination_by 16 * c.rest.length + 3

theorem follows_arguments (c : Cursor) (s : State) (h : Ready input code last .ignored s c) :
    Follows (Expr.readArguments ⟨input.text, last⟩ c) (arguments input) s fun all value s' =>
      value = all.value ∧ Came (Settled input code last .ignored) 0 s all.next s' := by
  refine Follows.deeper ?_
  simp only [arguments]
  rw [Expr.readArguments]
  refine Follows.after (yields_eaten s) ?_
  obtain ⟨s₁, hpeek, h₁⟩ := yields_peek hinput.toEndsIn h.place
  refine Follows.after hpeek ?_
  by_cases hclose : (c.peek ⟨input.text, last⟩ .ignored).kind = .rparen
  · simp only [if_pos hclose]
    exact follows_pure ⟨rfl, h₁.toCame⟩
  · simp only [if_neg hclose]
    refine (follows_expression .ignored c s₁ (h₁.ready_settled h.mode)).bind ?_
    rintro first _ s₂ ⟨rfl, h₂⟩
    have := first.shorter
    have := (first.next.skip .ignored .ellipsis).notLonger
    have h₁₂ := h₁.toCame.trans h₂
    obtain ⟨_, s₃, hskip, h₃⟩ :=
      yields_skip hinput.toEndsIn .ellipsis (by decide) (h₁₂.ready_settled h.mode)
    have h₁₃ := h₁₂.trans h₃
    refine Follows.after hskip (Follows.after (yields_moved (h₁₃.moved (by decide))) ?_)
    have hready := h₁₃.ready h.mode
    split
    · next hnone =>
      obtain ⟨s₄, hmaybe, h₄⟩ := yields_accept_none hinput.toEndsIn (by decide) hready.place hnone
      exact Follows.after hmaybe (follows_pure ⟨rfl, (h₁₃.trans h₄.toCame).of_le (Nat.zero_le _)⟩)
    · next comma hcomma =>
      have := comma.shorter
      obtain ⟨s₄, hmaybe, h₄⟩ := yields_accept_some hinput.toEndsIn (by decide) hready.place hcomma
      have h₁₄ := h₁₃.trans h₄
      refine Follows.after hmaybe ?_
      refine (follows_arguments comma.next s₄ (h₁₄.ready_exact h.mode)).bind ?_
      rintro more _ s₅ ⟨rfl, h₅⟩
      exact follows_pure ⟨rfl, (h₁₄.trans h₅).of_le (Nat.zero_le _)⟩
termination_by 16 * c.rest.length + 10

theorem follows_items (c : Cursor) (s : State) (h : Ready input code last .ignored s c) :
    Follows (Expr.readItems ⟨input.text, last⟩ c) (items input) s fun all value s' =>
      value = all.value ∧ Came (Settled input code last .ignored) 0 s all.next s' := by
  refine Follows.deeper ?_
  simp only [items]
  rw [Expr.readItems]
  refine Follows.after (yields_eaten s) ?_
  obtain ⟨s₁, hpeek, h₁⟩ := yields_peek hinput.toEndsIn h.place
  refine Follows.after hpeek ?_
  by_cases hclose : (c.peek ⟨input.text, last⟩ .ignored).kind = .rbrack
  · simp only [if_pos hclose]
    exact follows_pure ⟨rfl, h₁.toCame⟩
  · simp only [if_neg hclose]
    refine (follows_expression .ignored c s₁ (h₁.ready_settled h.mode)).bind ?_
    rintro first _ s₂ ⟨rfl, h₂⟩
    have := first.shorter
    have h₁₂ := h₁.toCame.trans h₂
    have hready := h₁₂.ready_settled h.mode
    refine Follows.after (yields_moved (h₁₂.moved (by decide))) ?_
    split
    · next hnone =>
      obtain ⟨s₃, hmaybe, h₃⟩ := yields_accept_none hinput.toEndsIn (by decide) hready.place hnone
      exact Follows.after hmaybe (follows_pure ⟨rfl, (h₁₂.trans h₃.toCame).of_le (Nat.zero_le _)⟩)
    · next comma hcomma =>
      have := comma.shorter
      obtain ⟨s₃, hmaybe, h₃⟩ := yields_accept_some hinput.toEndsIn (by decide) hready.place hcomma
      have h₁₃ := h₁₂.trans h₃
      refine Follows.after hmaybe ?_
      refine (follows_items comma.next s₃ (h₁₃.ready_exact h.mode)).bind ?_
      rintro more _ s₄ ⟨rfl, h₄⟩
      exact follows_pure ⟨rfl, (h₁₃.trans h₄).of_le (Nat.zero_le _)⟩
termination_by 16 * c.rest.length + 10

theorem follows_pairs (c : Cursor) (s : State) (h : Ready input code last .ignored s c) :
    Follows (Expr.readPairs ⟨input.text, last⟩ c) (pairs input) s fun all value s' =>
      value = all.value ∧ Came (Settled input code last .ignored) 0 s all.next s' := by
  refine Follows.deeper ?_
  simp only [pairs]
  rw [Expr.readPairs]
  refine Follows.after (yields_eaten s) ?_
  obtain ⟨s₁, hpeek, h₁⟩ := yields_peek hinput.toEndsIn h.place
  refine Follows.after hpeek ?_
  by_cases hclose : (c.peek ⟨input.text, last⟩ .ignored).kind = .rbrace
  · simp only [if_pos hclose]
    exact follows_pure ⟨rfl, h₁.toCame⟩
  simp only [if_neg hclose]
  by_cases hlast : (c.peek ⟨input.text, last⟩ .ignored).kind = .endOfText
  · simp only [if_pos hlast]
    exact follows_refuse h₁.here.events _ _
  simp only [if_neg hlast]
  refine (follows_expression .ignored c s₁ (h₁.ready_settled h.mode)).bind ?_
  rintro key _ s₂ ⟨rfl, h₂⟩
  have := key.shorter
  have h₁₂ := h₁.toCame.trans h₂
  have hready := h₁₂.ready_settled h.mode
  split
  · next hnone => exact .of_forall fun _ => (refuses_separator hinput.toEndsIn hready hnone).bind
  · next sep hsep =>
    have := sep.shorter
    obtain ⟨s₃, hseparator, h₃⟩ := yields_separator hinput.toEndsIn hready hsep
    have h₁₃ := h₁₂.trans h₃
    refine Follows.after hseparator ?_
    refine (follows_expression .ignored sep.next s₃ (h₁₃.ready_exact h.mode)).bind ?_
    rintro value _ s₄ ⟨rfl, h₄⟩
    have := value.shorter
    have := (value.next.skip .ignored .comma).notLonger
    have h₁₄ := h₁₃.trans h₄
    obtain ⟨_, s₅, hskip, h₅⟩ :=
      yields_skip hinput.toEndsIn .comma (by decide) (h₁₄.ready_settled h.mode)
    have h₁₅ := h₁₄.trans h₅
    refine Follows.after hskip (Follows.after (yields_moved (h₁₅.moved (by decide))) ?_)
    refine (follows_pairs _ s₅ (h₁₅.ready h.mode)).bind ?_
    rintro more _ s₆ ⟨rfl, h₆⟩
    exact follows_pure ⟨rfl, (h₁₅.trans h₆).of_le (Nat.zero_le _)⟩
termination_by 16 * c.rest.length + 10

/-- The mode that is taken off at the end is the one that has been put on in front of `s`. -/
theorem follows_forExpression (start : Nat) (closing : Token.Kind) (hclosing : closing ≠ .endOfText)
    (c : Cursor) (s s₁ : State)
    (h : Came (Settled input code last .ignored) 0 { s with modes := .ignored :: s.modes } c s₁) :
    Follows (Expr.readFor ⟨input.text, last⟩ start closing c) (forExpression input start closing) s₁
      fun next value s' =>
        value = next.value ∧ Came (Exact input code last) 1 s next.next s' := by
  refine Follows.deeper ?_
  simp only [forExpression]
  rw [Expr.readFor]
  refine (follows_expectWord hinput.toEndsIn _ (h.ready_settled rfl).place).bind ?_
  rintro keyword _ s₂ ⟨-, h₂⟩
  have := keyword.shorter
  have h₁₂ := h.trans h₂
  refine (follows_expect hinput.toEndsIn (by decide) (h₁₂.ready_exact rfl).place).bind ?_
  rintro first _ s₃ ⟨-, h₃⟩
  have := first.shorter
  have h₁₃ := h₁₂.trans h₃
  refine (follows_secondName hinput.toEndsIn (h₁₃.ready_exact rfl)).bind ?_
  rintro second _ s₄ h₄
  have := second.notLonger
  have h₁₄ := h₁₃.trans h₄
  refine (follows_expectWord hinput.toEndsIn _ h₁₄.here).bind ?_
  rintro within _ s₅ ⟨-, h₅⟩
  have := within.shorter
  have h₁₅ := h₁₄.trans h₅
  refine (follows_expression .ignored within.next s₅ (h₁₅.ready_exact rfl)).bind ?_
  rintro collection _ s₆ ⟨-, h₆⟩
  have := collection.shorter
  have h₁₆ := h₁₅.trans h₆
  refine (follows_expect hinput.toEndsIn (by decide) (h₁₆.ready_settled rfl).place).bind ?_
  rintro colon _ s₇ ⟨-, h₇⟩
  have := colon.shorter
  have h₁₇ := h₁₆.trans h₇
  refine (follows_expression .ignored colon.next s₇ (h₁₇.ready_exact rfl)).bind ?_
  rintro item _ s₈ ⟨-, h₈⟩
  have := item.shorter
  have h₁₈ := h₁₇.trans h₈
  refine (follows_forValue closing item.next s₈ (h₁₈.ready_settled rfl)).bind ?_
  rintro value _ s₉ h₉
  have := value.notLonger
  have h₁₉ := h₁₈.trans h₉
  refine (follows_forFilter value.next s₉ (h₁₉.ready rfl)).bind ?_
  rintro filter _ s₁₀ h₁₀
  refine Follows.close hinput.toEndsIn hclosing (h₁₉.trans h₁₀) fun close _ s₁₁ h₁₁ => ?_
  refine Follows.after (yields_sourceFrom input last start h₁₁.here.stop) ?_
  exact follows_pure ⟨rfl, h₁₁.of_le (by decide)⟩
termination_by 16 * c.rest.length + 10

theorem follows_forValue (closing : Token.Kind) (c : Cursor) (s : State)
    (h : Ready input code last .ignored s c) :
    Follows (Expr.readForValue ⟨input.text, last⟩ closing c) (forValue input closing) s
      fun all _ s' => Came (At input code last .ignored) 0 s all.next s' := by
  refine Follows.deeper ?_
  simp only [forValue]
  rw [Expr.readForValue]
  split
  · refine (follows_expect hinput.toEndsIn (by decide) h.place).bind ?_
    rintro arrow _ s₁ ⟨-, h₁⟩
    have := arrow.shorter
    refine (follows_expression .ignored arrow.next s₁ (h₁.ready_exact h.mode)).bind ?_
    rintro value _ s₂ ⟨-, h₂⟩
    have h₁₂ := h₁.trans h₂
    obtain ⟨_, s₃, hskip, h₃⟩ :=
      yields_skip hinput.toEndsIn .ellipsis (by decide) (h₁₂.ready_settled h.mode)
    exact Follows.after hskip (follows_pure ((h₁₂.trans h₃).of_le (Nat.zero_le _)))
  · exact follows_pure (.refl h.place)
termination_by 16 * c.rest.length + 10

theorem follows_forFilter (c : Cursor) (s : State) (h : Ready input code last .ignored s c) :
    Follows (Expr.readForFilter ⟨input.text, last⟩ c) (forFilter input) s fun all _ s' =>
      Came (Settled input code last .ignored) 0 s all.next s' := by
  refine Follows.deeper ?_
  simp only [forFilter]
  rw [Expr.readForFilter]
  split
  · next hnone =>
    obtain ⟨s₁, hmaybe, h₁⟩ := yields_maybeEat_none hinput.toEndsIn (neverEnd_ofWord _) h.place hnone
    exact Follows.after hmaybe (follows_pure h₁.toCame)
  · next keyword hkeyword =>
    have := keyword.shorter
    obtain ⟨s₁, hmaybe, h₁⟩ := yields_maybeEat_some hinput.toEndsIn (neverEnd_ofWord _) h.place hkeyword
    refine Follows.after hmaybe ?_
    refine (follows_expression .ignored keyword.next s₁ (h₁.ready_exact h.mode)).bind ?_
    rintro test _ s₂ ⟨-, h₂⟩
    exact follows_pure ((h₁.trans h₂).of_le (Nat.zero_le _))
termination_by 16 * c.rest.length + 10

end

end Grammar

end HclTidy.Indexed
