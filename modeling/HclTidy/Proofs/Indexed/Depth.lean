import HclTidy.Proofs.Indexed.Steps

/-!
# The depth of a run is a bound only

A run that has come to its end has come to the same end at every greater depth, by one lemma for each
reader that calls another. So a run that ends from some depth on has ended in that way wherever it has
ended, and what it ends in does not depend on the depth.
-/

set_option autoImplicit false

namespace HclTidy.Indexed

section Runs

variable {α β : Type}

/-- The first run has not come to its end, or ends as the second one does. -/
def Below (x y : Run α) : Prop := ∀ s, x s = (none : Option (Except Halt (α × State))) ∨ x s = y s

/-- What has ended at a depth has ended in the same way at the next one. -/
abbrev Deepens (x : Nat → Run α) : Prop := ∀ depth, Below (x depth) (x (depth + 1))

theorem Below.refl (x : Run α) : Below x x := fun _ => .inr rfl

theorem Below.unfinished (y : Run α) : Below unfinished y := fun _ => .inl rfl

theorem Below.trans {x y z : Run α} (h : Below x y) (h' : Below y z) : Below x z := by
  intro s
  obtain hnone | heq := h s
  · exact .inl hnone
  · rw [heq]
    exact h' s

theorem Below.bind {x y : Run α} {k l : α → Run β} (h : Below x y) (hk : ∀ a, Below (k a) (l a)) :
    Below (x >>= k) (y >>= l) := by
  intro s
  change (x s >>= fun p => k p.1 p.2 : ExceptT Halt Option (β × State)) = none ∨
    (x s >>= fun p => k p.1 p.2 : ExceptT Halt Option (β × State)) = (y s >>= fun p => l p.1 p.2)
  obtain hnone | heq := h s
  · rw [hnone]
    exact .inl rfl
  · rw [heq]
    match y s with
    | none => exact .inl rfl
    | some (.error halt) => exact .inr rfl
    | some (.ok (a, s')) => exact hk a s'

theorem Below.andThen {x : Run α} {k l : α → Run β} (hk : ∀ a, Below (k a) (l a)) :
    Below (x >>= k) (x >>= l) := (Below.refl x).bind hk

theorem Below.ite {c : Prop} [Decidable c] {x y z w : Run α} (h : Below x y) (h' : Below z w) :
    Below (if c then x else z) (if c then y else w) := by
  split
  · exact h
  · exact h'

theorem Below.aside {x y : Run α} (h : Below x y) : Below (aside x) (aside y) := by
  intro s
  unfold Indexed.aside
  obtain hnone | heq := h .start
  · rw [hnone]
    exact .inl rfl
  · rw [heq]
    exact .inr rfl

end Runs

theorem deepens_skipNewlines (input : Input) : Deepens (skipNewlines input)
  | 0 => .unfinished _
  | depth + 1 => .andThen fun _ => .ite (.andThen fun _ => deepens_skipNewlines input depth) (.refl _)

theorem deepens_nameParts (input : Input) : Deepens (nameParts input)
  | 0 => .unfinished _
  | depth + 1 => by
    refine .andThen fun _ => .andThen fun colons? => ?_
    cases colons? with
    | none => exact .refl _
    | some _ =>
      exact .andThen fun _ => .andThen fun _ => .bind (deepens_nameParts input depth) fun _ => .refl _

/-! ## Expressions -/

mutual

theorem deepens_expression (input : Input) : Deepens (expression input)
  | 0 => .unfinished _
  | depth + 1 => by
    refine .andThen fun _ => .andThen fun _ => .bind (deepens_binary input 1 depth) fun _ =>
      .andThen fun question? => ?_
    cases question? with
    | none => exact .refl _
    | some _ =>
      exact .bind (deepens_expression input depth) fun _ => .andThen fun _ =>
        .bind (deepens_expression input depth) fun _ => .refl _
termination_by structural depth => depth

theorem deepens_binary (input : Input) (least : Nat) : Deepens (binary input least)
  | 0 => .unfinished _
  | depth + 1 => .andThen fun _ => .bind (deepens_unary input depth) fun _ =>
      deepens_operations input _ _ _ depth
termination_by structural depth => depth

theorem deepens_operations (input : Input) (least start : Nat) (left : Expr) :
    Deepens (operations input least start left)
  | 0 => .unfinished _
  | depth + 1 => by
    refine .andThen fun _ => .andThen fun token => ?_
    cases strength? token with
    | none => exact .refl _
    | some strength =>
      exact .ite (.refl _) (.andThen fun _ => .bind (deepens_binary input (strength + 1) depth) fun _ =>
        .andThen fun _ => .andThen fun _ => deepens_operations input _ _ _ depth)
termination_by structural depth => depth

theorem deepens_unary (input : Input) : Deepens (unary input)
  | 0 => .unfinished _
  | depth + 1 => .andThen fun _ => .ite
      (.andThen fun _ => .bind (deepens_unary input depth) fun _ => .refl _)
      (deepens_primaryWithSteps input depth)
termination_by structural depth => depth

theorem deepens_primaryWithSteps (input : Input) : Deepens (primaryWithSteps input)
  | 0 => .unfinished _
  | depth + 1 => .andThen fun _ => .bind (deepens_primary input depth) fun _ => deepens_steps input _ _ depth
termination_by structural depth => depth

theorem deepens_steps (input : Input) (start : Nat) (value : Expr) : Deepens (steps input start value)
  | 0 => .unfinished _
  | depth + 1 => by
    refine .andThen fun _ => .andThen fun token => .bind (deepens_step input token depth) fun static? => ?_
    cases static? with
    | none => exact .refl _
    | some static => exact .andThen fun _ => .andThen fun _ => deepens_steps input _ _ depth
termination_by structural depth => depth

theorem deepens_step (input : Input) (token : Token) : Deepens (step input token)
  | 0 => .unfinished _
  | depth + 1 => .ite (.refl _) (.ite
      (.andThen fun _ => .andThen fun _ => .bind (deepens_index input depth) fun _ => .refl _) (.refl _))
termination_by structural depth => depth

theorem deepens_index (input : Input) : Deepens (index input)
  | 0 => .unfinished _
  | depth + 1 => .andThen fun _ => .ite (.refl _) (.bind (deepens_expression input depth) fun _ => .refl _)
termination_by structural depth => depth

theorem deepens_primary (input : Input) : Deepens (primary input)
  | 0 => .unfinished _
  | depth + 1 => by
    refine .andThen fun token => ?_
    cases token.kind with
    | string | heredoc => exact .andThen fun _ => deepens_template token _ _ depth
    | ident => exact deepens_word input token depth
    | lbrack => exact deepens_tuple input depth
    | lbrace => exact deepens_object input depth
    | lparen =>
      exact .andThen fun _ => .andThen fun _ => .bind (deepens_expression input depth) fun _ => .refl _
    | _ => exact .refl _
termination_by structural depth => depth

theorem deepens_word (input : Input) (token : Token) : Deepens (word input token)
  | 0 => .unfinished _
  | depth + 1 => .ite (.refl _) (.andThen fun _ => .ite (deepens_call input depth) (.refl _))
termination_by structural depth => depth

theorem deepens_template (token : Token) (heredoc : Bool) (parts : List Template.Part) :
    Deepens (template token heredoc parts)
  | 0 => .unfinished _
  | depth + 1 => .andThen fun _ => .bind (deepens_interpolations parts depth) fun _ => .refl _
termination_by structural depth => depth

theorem deepens_interpolations (parts : List Template.Part) : Deepens (interpolations parts)
  | 0 => .unfinished _
  | depth + 1 =>
    match parts with
    | [] => .refl _
    | .literal _ :: rest | .interpolation true _ :: rest => deepens_interpolations rest depth
    | .interpolation false inner :: rest => by
      simp only [interpolations]
      cases TokenStream.ofText (Template.stripMarkers inner) with
      | error _ => exact deepens_interpolations rest depth
      | ok stream => exact .bind (deepens_standalone _ depth).aside fun _ => deepens_interpolations rest depth
termination_by structural depth => depth

theorem deepens_standalone (input : Input) : Deepens (standalone input)
  | 0 => .unfinished _
  | depth + 1 => .andThen fun _ => .bind (deepens_expression input depth) fun _ => .refl _
termination_by structural depth => depth

theorem deepens_call (input : Input) : Deepens (call input)
  | 0 => .unfinished _
  | depth + 1 => .andThen fun _ => .andThen fun _ => .bind (deepens_nameParts input depth) fun _ =>
      .andThen fun _ => .andThen fun _ => .bind (deepens_arguments input depth) fun _ => .refl _
termination_by structural depth => depth

theorem deepens_arguments (input : Input) : Deepens (arguments input)
  | 0 => .unfinished _
  | depth + 1 => by
    refine .andThen fun _ => .andThen fun _ => .ite (.refl _) (.bind (deepens_expression input depth) fun _ =>
      .andThen fun _ => .andThen fun _ => .andThen fun comma? => ?_)
    cases comma? with
    | none => exact .refl _
    | some _ => exact .bind (deepens_arguments input depth) fun _ => .refl _
termination_by structural depth => depth

theorem deepens_tuple (input : Input) : Deepens (tuple input)
  | 0 => .unfinished _
  | depth + 1 => .andThen fun _ => .andThen fun _ => .andThen fun _ => .ite
      (deepens_forExpression input _ _ depth) (.bind (deepens_items input depth) fun _ => .refl _)
termination_by structural depth => depth

theorem deepens_items (input : Input) : Deepens (items input)
  | 0 => .unfinished _
  | depth + 1 => by
    refine .andThen fun _ => .andThen fun _ => .ite (.refl _) (.bind (deepens_expression input depth) fun _ =>
      .andThen fun _ => .andThen fun comma? => ?_)
    cases comma? with
    | none => exact .refl _
    | some _ => exact .bind (deepens_items input depth) fun _ => .refl _
termination_by structural depth => depth

theorem deepens_object (input : Input) : Deepens (object input)
  | 0 => .unfinished _
  | depth + 1 => .andThen fun _ => .andThen fun _ => .andThen fun _ => .ite
      (deepens_forExpression input _ _ depth) (.bind (deepens_pairs input depth) fun _ => .refl _)
termination_by structural depth => depth

theorem deepens_pairs (input : Input) : Deepens (pairs input)
  | 0 => .unfinished _
  | depth + 1 => .andThen fun _ => .andThen fun _ => .ite (.refl _) (.ite (.refl _)
      (.bind (deepens_expression input depth) fun _ => .andThen fun _ =>
        .bind (deepens_expression input depth) fun _ => .andThen fun _ => .andThen fun _ =>
          .bind (deepens_pairs input depth) fun _ => .refl _))
termination_by structural depth => depth

theorem deepens_forExpression (input : Input) (start : Nat) (closing : Token.Kind) :
    Deepens (forExpression input start closing)
  | 0 => .unfinished _
  | depth + 1 => .andThen fun _ => .andThen fun _ => .andThen fun _ => .andThen fun _ =>
      .bind (deepens_expression input depth) fun _ => .andThen fun _ =>
        .bind (deepens_expression input depth) fun _ => .bind (deepens_forValue input closing depth) fun _ =>
          .bind (deepens_forFilter input depth) fun _ => .refl _
termination_by structural depth => depth

theorem deepens_forValue (input : Input) (closing : Token.Kind) : Deepens (forValue input closing)
  | 0 => .unfinished _
  | depth + 1 => .ite (.andThen fun _ => .bind (deepens_expression input depth) fun _ => .refl _) (.refl _)
termination_by structural depth => depth

theorem deepens_forFilter (input : Input) : Deepens (forFilter input)
  | 0 => .unfinished _
  | depth + 1 => by
    refine .andThen fun keyword? => ?_
    cases keyword? with
    | none => exact .refl _
    | some _ => exact .bind (deepens_expression input depth) fun _ => .refl _
termination_by structural depth => depth

end

/-! ## Bodies and files -/

theorem deepens_labels (input : Input) : Deepens (labels input)
  | 0 => .unfinished _
  | depth + 1 => .andThen fun _ => .andThen fun _ => .ite (.andThen fun _ => .andThen fun _ =>
      .bind (deepens_labels input depth) fun _ => .refl _) (.refl _)

mutual

theorem deepens_body (input : Input) : Deepens (body input)
  | 0 => .unfinished _
  | depth + 1 => .andThen fun _ => .bind (deepens_skipNewlines input depth) fun _ =>
      .bind (deepens_bodyItems input depth) fun _ => .refl _
termination_by structural depth => depth

theorem deepens_bodyItems (input : Input) : Deepens (bodyItems input)
  | 0 => .unfinished _
  | depth + 1 => by
    refine .andThen fun _ => .andThen fun _ => .ite (.refl _) (.ite (.refl _) (.andThen fun _ =>
      .andThen fun equal? => ?_))
    cases equal? with
    | some _ =>
      exact .bind (deepens_expression input depth) fun _ => .andThen fun _ =>
        .bind (deepens_skipNewlines input depth) fun _ => .andThen fun _ =>
          .bind (deepens_bodyItems input depth) fun _ => .refl _
    | none =>
      exact .bind (deepens_labels input depth) fun _ => .andThen fun _ =>
        .bind (deepens_body input depth) fun _ => .andThen fun _ => .andThen fun _ =>
          .bind (deepens_skipNewlines input depth) fun _ => .andThen fun _ =>
            .bind (deepens_bodyItems input depth) fun _ => .refl _
termination_by structural depth => depth

end

theorem deepens_blocks (input : Input) (file : Text) (keepSource : Bool) (previousEnd : Nat) :
    Deepens (blocks input file keepSource previousEnd)
  | 0 => .unfinished _
  | depth + 1 => by
    refine .andThen fun _ => .andThen fun _ => .ite (.refl _) (.andThen fun _ => .andThen fun equal? => ?_)
    cases equal? with
    | some _ =>
      exact .bind (deepens_expression input depth) fun _ => .andThen fun _ => .andThen fun _ =>
        .bind (deepens_skipNewlines input depth) fun _ => .andThen fun _ =>
          deepens_blocks input file keepSource previousEnd depth
    | none =>
      exact .bind (deepens_labels input depth) fun _ => .andThen fun _ => .andThen fun _ =>
        .bind (deepens_body input depth) fun _ => .andThen fun _ => .andThen fun _ =>
          .bind (deepens_skipNewlines input depth) fun _ => .andThen fun _ =>
            .bind (deepens_blocks input file keepSource _ depth) fun _ => .refl _

theorem deepens_file (input : Input) (name : Text) (keepSource : Bool) :
    Deepens (file input name keepSource) := fun depth =>
  .bind (deepens_skipNewlines input depth) fun _ => deepens_blocks input name keepSource 0 depth

/-! ## Ends -/

section Ends

variable {α β : Type} {x : Nat → Run β} {s : State}

/-- From some depth on the run comes to this end, and it comes to no other one at any depth. -/
def Ends (x : Nat → Run β) (s : State) (outcome : Except Halt (β × State)) : Prop :=
  (∀ᶠ depth in Filter.atTop, x depth s = some outcome) ∧
    ∀ depth, x depth s = (none : Option (Except Halt (β × State))) ∨ x depth s = some outcome

/-- The run comes to an end as the reading does: in a value where the reading has one, and refused for
the same reason where it has none. -/
def EndsAs (r : Reading α) (x : Nat → Run β) (s : State) (P : α → β → State → Prop) : Prop :=
  match r with
  | .ok a => ∃ b s', Ends x s (.ok (b, s')) ∧ P a b s'
  | .error failure => Ends x s (.error (.refused failure))

theorem Deepens.below (h : Deepens x) {depth deeper : Nat} (hle : depth ≤ deeper) :
    Below (x depth) (x deeper) := by
  induction hle with
  | refl => exact .refl _
  | step _ ih => exact ih.trans (h _)

theorem Deepens.ends {outcome : Except Halt (β × State)} (h : Deepens x)
    (hends : ∀ᶠ depth in Filter.atTop, x depth s = some outcome) : Ends x s outcome := by
  refine ⟨hends, fun depth => ?_⟩
  obtain ⟨least, hleast⟩ := Filter.eventually_atTop.mp hends
  refine (h.below (le_max_left depth least) s).imp_right fun heq => ?_
  rw [heq]
  exact hleast _ (le_max_right depth least)

theorem Follows.endsAs {r : Reading α} {P : α → β → State → Prop} (h : Follows r x s P)
    (hdeepens : Deepens x) : EndsAs r x s P := by
  cases r with
  | ok a =>
    obtain ⟨b, s', hb, hp⟩ := h
    exact ⟨b, s', hdeepens.ends hb, hp⟩
  | error failure => exact hdeepens.ends h

end Ends

end HclTidy.Indexed
