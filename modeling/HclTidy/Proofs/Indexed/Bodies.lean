import HclTidy.Proofs.Indexed.Templates

/-!
# Bodies and files read by index

From some depth on a body and a file that are read by index are what they are when they are read with a
cursor. Every item of a body and every block of a file takes the reader on.
-/

set_option autoImplicit false

namespace HclTidy.Indexed

variable {input : Input} {code : List Token} {last : Token} {s : State} {c : Cursor}

theorem labelText_congr {d : Cursor} (h : d.events = c.events) (token : Token) :
    Body.labelText d token = Body.labelText c token := by
  unfold Body.labelText Body.decodeLabel Cursor.fail
  rw [h]

section Items

variable (hend : EndsIn input code last)

include hend

/-! ## Labels -/

theorem follows_label (h : Ready input code last .significant s c) {first : Step Token c}
    (htake : c.take? .significant = some first) (hne : first.value.kind ≠ .endOfText) :
    Follows (Body.labelText first.next first.value) (fun _ => label input first.value) s fun text value s' =>
      value = text ∧ Came (Exact input code last) 1 s first.next s' := by
  obtain ⟨s₁, heat, h₁⟩ := yields_eat_kind hend hne h.place htake rfl
  have hget : Yields (get : Run State) s₁ s₁ s₁ := rfl
  refine Follows.after heat (Follows.after hget ?_)
  rw [labelText_congr (d := ⟨[], s₁.stop, s₁.events⟩) h₁.here.events]
  cases Body.labelText first.next first.value with
  | ok text => exact follows_pure ⟨rfl, h₁⟩
  | error failure => exact follows_refuses rfl

theorem follows_labels (c : Cursor) (s : State) (h : Ready input code last .significant s c) :
    Follows (Body.readLabels ⟨input.text, last⟩ c) (labels input) s fun all value s' =>
      value = all.value ∧ Came (Exact input code last) 0 s all.next s' := by
  refine Follows.deeper ?_
  simp only [labels]
  rw [Body.readLabels]
  refine Follows.after (yields_eaten s) ?_
  obtain ⟨s₁, hpeek, h₁⟩ := yields_peek hend h.place
  refine Follows.after hpeek ?_
  split
  · next hnone =>
    have hlast : (last.kind = .string || last.kind = .ident) = false := by
      rw [hend.kind]
      rfl
    have hnot := not_wanted_peek ⟨input.text, last⟩ hlast hnone
    simp only [if_neg (Bool.eq_false_iff.mp hnot)]
    exact follows_pure ⟨rfl, h₁.toCame⟩
  · next first hfirst =>
    have := first.shorter
    obtain ⟨hvalue, hkind⟩ := peek_of_takeIf? ⟨input.text, last⟩ hfirst
    have hne : first.value.kind ≠ .endOfText := by
      intro hk
      rw [hk] at hkind
      exact absurd hkind (by decide)
    rw [hvalue]
    simp only [if_pos hkind]
    refine (follows_label hend (h₁.ready_settled h.mode) (Cursor.take?_of_takeIf? hfirst) hne).bind ?_
    rintro text _ s₂ ⟨rfl, h₂⟩
    have h₁₂ := h₁.toCame.trans h₂
    refine Follows.after (yields_moved (h₁₂.moved (by decide))) ?_
    refine (follows_labels first.next s₂ (h₁₂.ready_exact h.mode)).bind ?_
    rintro more _ s₃ ⟨rfl, h₃⟩
    exact follows_pure ⟨rfl, (h₁₂.trans h₃).of_le (Nat.zero_le _)⟩
termination_by c.rest.length

/-! ## Bodies -/

/-- The line breaks behind an item. -/
theorem follows_itemEnd {γ δ : Type} {n : Nat} {s₁ : State} {next : Reading δ} {k : Nat → Run γ}
    {Q : δ → γ → State → Prop} (hmode : s.mode = .significant) (h : Came (Exact input code last) n s c s₁)
    (hn : 0 < n)
    (hk : ∀ s₂, Came (Exact input code last) n s c.skipNewlines s₂ → Follows next k s₂ Q) :
    Follows (c.endOfItem ⟨input.text, last⟩ >>= fun _ => next)
      (fun depth => endOfItem input >>= fun _ => skipNewlines input depth >>= fun _ =>
        moved s.eaten >>= fun _ => k depth) s₁ Q := by
  refine (follows_endOfItem hend (h.ready_exact hmode)).bind ?_
  rintro _ _ s₂ h₂
  have h₁₂ := h.trans h₂
  obtain ⟨s₃, hskip, h₃⟩ := exact_skipNewlines hend (h₁₂.ready_exact hmode).mode h₂.here
  have h₁₃ := h₁₂.trans h₃
  exact Follows.eventually hskip (Follows.after (yields_moved (h₁₃.moved hn)) (hk s₃ h₁₃))

mutual

theorem follows_body (c : Cursor) (s : State) (h : Exact input code last s c) :
    Follows (Body.read ⟨input.text, last⟩ c) (body input) s fun all value s' =>
      value = all.value ∧ Came (Exact input code last) 0 s all.next s' := by
  have hpush : Exact input code last { s with modes := .significant :: s.modes } c := h.with rfl rfl rfl
  obtain ⟨s₁, hskip, h₁⟩ := exact_skipNewlines hend rfl hpush
  refine Follows.deeper ?_
  simp only [body]
  refine Follows.after (yields_push .significant s) (Follows.eventually hskip ?_)
  refine (follows_bodyItems c s₁ h₁.mode_eq h₁.here).andThen ?_
  rintro all _ s₂ ⟨rfl, h₂⟩
  obtain ⟨s₃, hpop, h₃⟩ := (h₁.trans h₂).popped
  exact Follows.after hpop (follows_pure ⟨rfl, h₃⟩)
termination_by 2 * c.rest.length + 1

theorem follows_bodyItems (c : Cursor) (s : State) (hmode : s.mode = .significant)
    (h : Exact input code last s c.skipNewlines) :
    Follows (Body.read ⟨input.text, last⟩ c) (bodyItems input) s fun all value s' =>
      value = all.value ∧ Came (Exact input code last) 0 s all.next s' := by
  refine Follows.deeper ?_
  simp only [bodyItems]
  rw [Body.read]
  refine Follows.after (yields_eaten s) ?_
  obtain ⟨s₁, hpeek, h₁⟩ := yields_peek hend (h.at_exact hmode)
  refine Follows.after hpeek ?_
  have := c.skipNewlines_length_le
  dsimp only
  by_cases hclose : (c.skipNewlines.peek ⟨input.text, last⟩ .significant).kind = .rbrace
  · simp only [if_pos hclose]
    exact follows_pure ⟨rfl, h₁.toCame⟩
  simp only [if_neg hclose]
  by_cases hlast : (c.skipNewlines.peek ⟨input.text, last⟩ .significant).kind = .endOfText
  · simp only [if_pos hlast]
    exact follows_refuse h₁.here.events _ _
  simp only [if_neg hlast]
  refine (follows_expect hend (by decide) h₁.again).bind ?_
  rintro name _ s₂ ⟨rfl, h₂⟩
  have := name.shorter
  have h₁₂ := h₁.toCame.trans h₂
  have hready := h₁₂.ready_exact hmode
  split
  · next equal hequal =>
    have := equal.shorter
    obtain ⟨s₃, hmaybe, h₃⟩ := yields_accept_some hend (by decide) hready.place hequal
    have h₁₃ := h₁₂.trans h₃
    refine Follows.after hmaybe ?_
    refine (follows_expression ⟨hend, fun t _ => harmless t⟩ .significant equal.next s₃
      (h₁₃.ready_exact hmode)).bind ?_
    rintro value _ s₄ ⟨rfl, h₄⟩
    have := value.shorter
    refine follows_itemEnd hend hmode (h₁₃.trans h₄) (by decide) fun s₅ h₅ => ?_
    refine (follows_bodyItems value.next s₅ (h₅.ready_exact hmode).mode h₅.here).bind ?_
    rintro more _ s₆ ⟨rfl, h₆⟩
    exact follows_pure ⟨rfl, (h₅.trans h₆).of_le (Nat.zero_le _)⟩
  · next hnone =>
    obtain ⟨s₃, hmaybe, h₃⟩ := yields_accept_none hend (by decide) hready.place hnone
    have h₁₃ := h₁₂.trans h₃.toCame
    refine Follows.after hmaybe ?_
    refine (follows_labels hend name.next s₃ (h₁₃.ready_settled hmode)).bind ?_
    rintro names _ s₄ ⟨rfl, h₄⟩
    have := names.notLonger
    have h₁₄ := h₁₃.trans h₄
    refine (follows_expect hend (by decide) (h₁₄.ready_exact hmode).place).bind ?_
    rintro opening _ s₅ ⟨-, h₅⟩
    have := opening.shorter
    have h₁₅ := h₁₄.trans h₅
    refine (follows_body opening.next s₅ h₅.here).bind ?_
    rintro inner _ s₆ ⟨rfl, h₆⟩
    have := inner.notLonger
    have h₁₆ := h₁₅.trans h₆
    refine (follows_expect hend (by decide) (h₁₆.ready_exact hmode).place).bind ?_
    rintro closing _ s₇ ⟨-, h₇⟩
    have := closing.shorter
    refine follows_itemEnd hend hmode (h₁₆.trans h₇) (by decide) fun s₈ h₈ => ?_
    refine (follows_bodyItems closing.next s₈ (h₈.ready_exact hmode).mode h₈.here).bind ?_
    rintro more _ s₉ ⟨rfl, h₉⟩
    exact follows_pure ⟨rfl, (h₈.trans h₉).of_le (Nat.zero_le _)⟩
termination_by 2 * c.rest.length

end

/-! ## Files -/

omit hend in
theorem follows_checkLabels (name : Token) (labels : List Text) (h : Exact input code last s c) :
    Follows (ParsedFile.checkLabels name labels c) (fun _ => checkLabels name labels) s fun header _ s' =>
      Came (Exact input code last) 0 s header.next s' := by
  have hhere : Came (Exact input code last) 0 s c s := .refl h
  unfold ParsedFile.checkLabels checkLabels
  cases Block.labelCounts.lookup name.text with
  | none => exact follows_yields (yields_record _ s) (hhere.recorded _)
  | some count =>
    dsimp only
    split
    · exact follows_pure hhere
    · exact follows_refuse h.events _ _

theorem follows_blocks (file : Text) (keepSource : Bool) (previousEnd : Nat) (c : Cursor) (s : State)
    (hmode : s.mode = .significant) (h : Exact input code last s c.skipNewlines) :
    Follows (ParsedFile.readBlocks ⟨input.text, last⟩ file keepSource previousEnd c)
      (blocks input file keepSource previousEnd) s fun result value s' =>
        value = result.1 ∧ s'.events = result.2 ∧ ∃ d, Came (Exact input code last) 0 s d s' := by
  refine Follows.deeper ?_
  simp only [blocks]
  rw [ParsedFile.readBlocks]
  refine Follows.after (yields_eaten s) ?_
  obtain ⟨s₁, hpeek, h₁⟩ := yields_peek hend (h.at_exact hmode)
  refine Follows.after hpeek ?_
  have := c.skipNewlines_length_le
  by_cases hlast : (c.skipNewlines.peek ⟨input.text, last⟩ .significant).kind = .endOfText
  · simp only [if_pos hlast]
    exact follows_pure ⟨rfl, h₁.here.events, _, h₁.toCame⟩
  simp only [if_neg hlast]
  refine (follows_expect hend (by decide) h₁.again).bind ?_
  rintro name _ s₂ ⟨rfl, h₂⟩
  have := name.shorter
  have h₁₂ := h₁.toCame.trans h₂
  have hready := h₁₂.ready_exact hmode
  split
  · next equal hequal =>
    have := equal.shorter
    obtain ⟨s₃, hmaybe, h₃⟩ := yields_accept_some hend (by decide) hready.place hequal
    have h₁₃ := h₁₂.trans h₃
    refine Follows.after hmaybe ?_
    refine (follows_expression ⟨hend, fun t _ => harmless t⟩ .significant equal.next s₃
      (h₁₃.ready_exact hmode)).bind ?_
    rintro value _ s₄ ⟨-, h₄⟩
    have := value.shorter
    have h₁₄ := h₁₃.trans h₄
    refine (follows_endOfItem hend (h₁₄.ready_settled hmode)).bind ?_
    rintro _ _ s₅ h₅
    have h₁₅ := (h₁₄.trans h₅).recorded (.skippedAttribute name.value.text name.value.start.line)
    obtain ⟨s₆, hskip, h₆⟩ := exact_skipNewlines hend (h₁₅.ready_exact hmode).mode h₁₅.here
    have h₁₆ := h₁₅.trans h₆
    refine Follows.after (yields_record _ s₅) (Follows.eventually hskip ?_)
    refine Follows.after (yields_moved (h₁₆.moved (by decide))) ?_
    refine (follows_blocks file keepSource previousEnd _ s₆ (h₁₆.ready_exact hmode).mode h₁₆.here).mono ?_
    rintro result value s₇ ⟨rfl, hevents, d, h₇⟩
    exact ⟨rfl, hevents, d, (h₁₆.trans h₇).of_le (Nat.zero_le _)⟩
  · next hnone =>
    obtain ⟨s₃, hmaybe, h₃⟩ := yields_accept_none hend (by decide) hready.place hnone
    have h₁₃ := h₁₂.trans h₃.toCame
    refine Follows.after hmaybe ?_
    refine (follows_labels hend name.next s₃ (h₁₃.ready_settled hmode)).bind ?_
    rintro names _ s₄ ⟨rfl, h₄⟩
    have := names.notLonger
    refine (follows_checkLabels name.value names.value h₄.here).bind ?_
    rintro header _ s₅ h₅
    have := header.notLonger
    have h₁₅ := (h₁₃.trans h₄).trans h₅
    refine (follows_expect hend (by decide) (h₁₅.ready_exact hmode).place).bind ?_
    rintro opening _ s₆ ⟨rfl, h₆⟩
    have := opening.shorter
    have h₁₆ := h₁₅.trans h₆
    refine (follows_body hend opening.next s₆ h₆.here).bind ?_
    rintro inner _ s₇ ⟨rfl, h₇⟩
    have := inner.notLonger
    have h₁₇ := h₁₆.trans h₇
    refine (follows_expect hend (by decide) (h₁₇.ready_exact hmode).place).bind ?_
    rintro closing _ s₈ ⟨rfl, h₈⟩
    have := closing.shorter
    refine follows_itemEnd hend hmode (h₁₇.trans h₈) (by decide) fun s₉ h₉ => ?_
    refine (follows_blocks file keepSource closing.value.stop closing.next s₉
      (h₉.ready_exact hmode).mode h₉.here).bind ?_
    rintro ⟨more, events⟩ _ s₁₀ ⟨rfl, hevents, d, h₁₀⟩
    exact follows_pure ⟨rfl, hevents, d, (h₉.trans h₁₀).of_le (Nat.zero_le _)⟩
termination_by c.rest.length
decreasing_by
  · change value.next.rest.length < _
    omega
  · omega

theorem follows_file (name : Text) (keepSource : Bool) (c : Cursor) (s : State)
    (hmode : s.mode = .significant) (h : Exact input code last s c) :
    Follows (ParsedFile.readBlocks ⟨input.text, last⟩ name keepSource 0 c) (file input name keepSource) s
      fun result value s' =>
        value = result.1 ∧ s'.events = result.2 ∧ ∃ d, Came (Exact input code last) 0 s d s' := by
  obtain ⟨s₁, hskip, h₁⟩ := exact_skipNewlines hend hmode h
  refine Follows.eventually hskip ?_
  refine (follows_blocks hend name keepSource 0 c s₁ (h₁.ready_exact hmode).mode h₁.here).mono ?_
  rintro result _ s₂ ⟨rfl, hevents, d, h₂⟩
  exact ⟨rfl, hevents, d, h₁.trans h₂⟩

end Items

/-- The blocks of a text are read by index as they are read with a cursor. -/
theorem follows_ofText {text : Text} {stream : TokenStream} (h : TokenStream.ofText text = .ok stream)
    (name : Text) (keepSource : Bool) :
    Follows (ParsedFile.ofText name keepSource text) (file (.ofStream text stream) name keepSource) .start
      fun result value s => value = result.1.blocks ∧ s.events = result.2 := by
  have hend := endsIn_ofStream h
  rw [ParsedFile.ofText, h]
  refine (follows_file hend name keepSource (.ofTokens stream.tokens) .start rfl
    ⟨hend.tokens, rfl, rfl, List.suffix_refl _⟩).map ?_
  rintro ⟨blocks, events⟩ _ s ⟨rfl, hevents, -⟩
  exact follows_pure ⟨rfl, hevents⟩

end HclTidy.Indexed
