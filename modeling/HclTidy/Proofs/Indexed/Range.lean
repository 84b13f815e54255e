import HclTidy.Proofs.Indexed.Bodies
import HclTidy.Proofs.Indexed.Depth

/-!
# Reading by index stays in the list

In a list of tokens that ends in its only token for the end of the text, reading by index comes to an
end from every index: from some depth on it gives the value that reading with a cursor gives, or refuses
the tokens for the same reason, and at no depth does it end in another way. So it never looks outside the
list and never passes the end of the text, and every expression and every round of a loop takes it on.
-/

set_option autoImplicit false

namespace HclTidy.Indexed

variable {input : Input} {code : List Token} {last : Token} {s s' : State} {n : Nat}

/-- The cursor at the index of a state. -/
def State.cursor (code : List Token) (s : State) : Cursor := ⟨code.drop s.position, s.stop, s.events⟩

/-- A state later in a run: the modes are as before, at least `n` tokens have been eaten, the index has
moved on by those at least, and it is that of a token of the list. -/
structure Advanced (code : List Token) (n : Nat) (s s' : State) : Prop where
  modes : s'.modes = s.modes
  eaten : s.eaten + n ≤ s'.eaten
  position : s.position + (s'.eaten - s.eaten) ≤ s'.position
  inside : s'.position ≤ code.length

theorem exact_cursor (hend : EndsIn input code last) (hs : s.position ≤ code.length) :
    Exact input code last s (s.cursor code) where
  tokens := by
    rw [hend.tokens, List.drop_append_of_le_length hs]
    rfl
  stop := rfl
  events := rfl
  suffix := List.drop_suffix _ _

theorem Stands.position_le {ts : List Token} {c : Cursor} (hend : EndsIn input code last)
    (h : Stands input code last ts s c) : s.position ≤ code.length := by
  have hlength := congrArg List.length h.tokens
  rw [hend.tokens, List.length_drop, List.length_append, List.length_append, List.length_singleton]
    at hlength
  omega

theorem Came.advanced {ts : Cursor → List Token} {c : Cursor} (hend : EndsIn input code last)
    (h : Came (fun s c => Stands input code last (ts c) s c) n s c s') : Advanced code n s s' where
  modes := h.modes
  eaten := h.eaten
  position := by
    have heaten := h.eaten
    have hposition := h.position
    omega
  inside := h.here.position_le hend

theorem mem_headD_append (ts : List Token) (last : Token) (h : ts <:+ code) :
    ts.headD last ∈ code ++ [last] := by
  cases ts with
  | nil => exact List.mem_append_right code (List.mem_singleton_self last)
  | cons t ts => exact List.mem_append_left _ (h.subset (List.mem_cons_self ..))

theorem ahead_suffix (mode : LineMode) (offset : Nat) (ts : List Token) : mode.ahead offset ts <:+ ts := by
  induction offset generalizing ts with
  | zero => exact List.suffix_refl ts
  | succ offset ih =>
    exact (ih _).trans ((mode.view_suffix _).trans (List.tail_suffix ts))

/-- From every index in the list, looking ahead finds a token of the list, and an expression, a body and
a file come to an end as they do when they are read with a cursor. Where a value is given, the modes are
as before and the index has moved on without passing the end of the text. -/
theorem reads_inside (hend : EndsIn input code last) (s : State) (hs : s.position ≤ code.length) :
    (∀ offset, ∃ t s', Yields (peek input offset) s t s' ∧ t ∈ input.tokens ∧ Advanced code 0 s s') ∧
    EndsAs (Expr.read ⟨input.text, last⟩ s.mode (s.cursor code)) (expression input) s
      (fun next value s' => value = next.value ∧ Advanced code 1 s s') ∧
    EndsAs (Body.read ⟨input.text, last⟩ (s.cursor code)) (body input) s
      (fun all value s' => value = all.value ∧ Advanced code 0 s s') ∧
    (s.mode = .significant → ∀ name keepSource,
      EndsAs (ParsedFile.readBlocks ⟨input.text, last⟩ name keepSource 0 (s.cursor code))
        (file input name keepSource) s fun result value s' =>
          value = result.1 ∧ s'.events = result.2 ∧ Advanced code 0 s s') := by
  have hexact := exact_cursor hend hs
  have hready : Ready input code last s.mode s (s.cursor code) := ⟨hexact.at_exact rfl, rfl⟩
  refine ⟨fun offset => ?_, Follows.endsAs ?_ (deepens_expression input),
    Follows.endsAs ?_ (deepens_body input),
    fun hmode name keepSource => Follows.endsAs ?_ (deepens_file input name keepSource)⟩
  · obtain ⟨s', hpeek, h⟩ := yields_peek_ahead hend offset hready.place
    refine ⟨_, s', hpeek, ?_, h.toCame.advanced hend⟩
    rw [hend.tokens]
    have hview := ((s.cursor code).view_suffix s.mode).trans hexact.suffix
    exact mem_headD_append _ _ ((ahead_suffix s.mode offset _).trans hview)
  · refine (follows_expression ⟨hend, fun t _ => harmless t⟩ s.mode _ s hready).mono ?_
    rintro next _ s' ⟨rfl, h⟩
    exact ⟨rfl, h.advanced hend⟩
  · refine (follows_body hend _ s hexact).mono ?_
    rintro all _ s' ⟨rfl, h⟩
    exact ⟨rfl, h.advanced hend⟩
  · refine (follows_file hend name keepSource _ s hmode hexact).mono ?_
    rintro result _ s' ⟨rfl, hevents, d, h⟩
    exact ⟨rfl, hevents, h.advanced hend⟩

/-- A file with a `for` expression, a call over lines and an interpolation. -/
theorem reads_inside_nested :
    let text : Text := "a \"b\" \x7b\n c = [for x in d : x ? \"$\x7bx\x7d\" : f(\n1)]\n\x7d\n".toList
    ∃ stream, TokenStream.ofText text = .ok stream ∧
      ∃ blocks s, Ends (file (.ofStream text stream) [] true) .start (.ok (blocks, s)) ∧
        blocks.length = 1 ∧ s.modes = [] ∧ s.eaten ≤ s.position ∧
        s.position ≤ (stream.tokens.filter fun t => t.kind ≠ .comment).length := by
  intro text
  have hparse : (ParsedFile.ofText [] true text).toOption.map (fun result => result.1.blocks.length) =
      some 1 := by decide +kernel
  cases hstream : TokenStream.ofText text with
  | error e =>
    rw [ParsedFile.ofText, hstream] at hparse
    cases hparse
  | ok stream =>
    rw [ParsedFile.ofText, hstream] at hparse
    obtain ⟨-, -, -, hfile⟩ := reads_inside (endsIn_ofStream hstream) .start (Nat.zero_le _)
    have hread := hfile rfl [] true
    change EndsAs (ParsedFile.readBlocks ⟨text, stream.endToken⟩ [] true 0 (.ofTokens stream.tokens)) _ _ _
      at hread
    refine ⟨stream, rfl, ?_⟩
    cases hblocks : ParsedFile.readBlocks ⟨text, stream.endToken⟩ [] true 0 (.ofTokens stream.tokens) with
    | error failure =>
      simp only [hblocks] at hparse
      cases hparse
    | ok result =>
      rw [hblocks] at hread
      simp only [hblocks] at hparse
      obtain ⟨blocks, s, hends, rfl, -, h⟩ := hread
      exact ⟨_, s, hends, Option.some.inj hparse, h.modes, by simpa [State.start] using h.position,
        h.inside⟩

end HclTidy.Indexed
