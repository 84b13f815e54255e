import HclTidy.Proofs.Expr.Heredocs
import HclTidy.Proofs.Indexed.Agreement

/-!
# Templates read by index

An interpolation is read as a text of its own, which is shorter than the template around it, and the
tokens of a text are no longer than the text. So reading the templates in a list of tokens comes to
an end, whatever their interpolations hold.
-/

set_option autoImplicit false

namespace HclTidy

/-! ## Lengths -/

theorem Template.length_inner_lt {quoted : Bool} {offset : Nat} {text after inner : Text}
    {directive : Bool} {parts : List Part} (h : scan quoted [] offset [] text = .ok (parts, after))
    (hpart : .interpolation directive inner ∈ parts) : inner.length < text.length := by
  obtain ⟨used, rfl, -, hwritten⟩ := covers_of_scan h
  obtain ⟨front, back, rfl⟩ := List.append_of_mem hpart
  have hlength := congrArg List.length hwritten
  simp only [List.flatMap_append, List.flatMap_cons, Part.written, List.length_append,
    List.length_cons] at hlength ⊢
  have hnil : (opened [] []).length = 0 := rfl
  omega

/-- An interpolation is shorter than the template it stands in. -/
theorem Template.length_lt_of_mem_partsOf {quoted directive : Bool} {text inner : Text}
    (h : .interpolation directive inner ∈ partsOf quoted text) : inner.length < text.length := by
  unfold partsOf at h
  split at h
  · next parts after hscan =>
    cases quoted with
    | false => exact length_inner_lt hscan h
    | true =>
      change scanQuoted 0 text = _ at hscan
      unfold scanQuoted at hscan
      split at hscan
      · exact Nat.lt_succ_of_lt (length_inner_lt hscan h)
      · cases hscan
      · cases hscan
  · cases List.mem_singleton.mp h

theorem Text.length_trim_le (t : Text) : (trim t).length ≤ t.length :=
  (trimRight_isPrefix _).length_le.trans (List.dropWhile_suffix _).length_le

theorem Template.length_stripMarkers_le (inner : Text) : (stripMarkers inner).length ≤ inner.length := by
  have hfront (body : Text) :
      (if body.head? = some '~' then body.tail else body).length ≤ body.length := by
    split
    · exact (List.tail_suffix body).length_le
    · exact le_rfl
  have hback (body : Text) :
      (if body.getLast? = some '~' then body.dropLast else body).length ≤ body.length := by
    split
    · exact (List.dropLast_sublist body).length_le
    · exact le_rfl
  exact (Text.length_trim_le _).trans
    ((hback _).trans ((hfront _).trans (Text.length_trim_le inner)))

theorem Expr.length_rowsOf_map_le {f : Text → Text} (hf : ∀ row, (f row).length ≤ row.length)
    (rows : List Text) : (rowsOf (rows.map f)).length ≤ (rowsOf rows).length := by
  induction rows with
  | nil => exact le_rfl
  | cons row rows ih =>
    rw [List.map_cons, rowsOf_cons, rowsOf_cons, List.length_append, List.length_append]
    exact Nat.add_le_add (hf row) (Nat.succ_le_succ ih)

theorem Expr.length_rowsOf_dropLast_le (body : Text) :
    (rowsOf (Text.lines body).dropLast).length ≤ body.length := by
  obtain hnil | ⟨rows, last, hlines⟩ := List.eq_nil_or_concat' (Text.lines body)
  · exact absurd hnil (Text.lines_ne_nil body)
  · have hrows := Text.newline_not_mem_lines body
    rw [hlines, List.forall_mem_append, List.forall_mem_singleton] at hrows
    have hbody : body = rowsOf rows ++ last := by
      rw [← Text.unlines_lines body, hlines, ← lines_rowsOf hrows.1 hrows.2, Text.unlines_lines]
    rw [hlines, List.dropLast_concat]
    conv_rhs => rw [hbody, List.length_append]
    exact Nat.le_add_right _ _

theorem Expr.length_heredocBody_le (source : Text) : (heredocBody source).length ≤ source.length := by
  have hbody : ((source.dropWhile (· ≠ '\n')).tail).length ≤ source.length :=
    (List.tail_suffix _).length_le.trans (List.dropWhile_suffix _).length_le
  refine le_trans ?_ ((length_rowsOf_dropLast_le _).trans hbody)
  unfold heredocBody
  dsimp only
  split
  · exact length_rowsOf_map_le (fun row => (List.drop_sublist _ row).length_le) _
  · exact le_rfl

theorem Token.length_le_of_mem_ofText {text : Text} {stream : TokenStream} {t : Token}
    (h : TokenStream.ofText text = .ok stream) (ht : t ∈ stream.tokens) :
    t.text.length ≤ text.length := by
  obtain ⟨ws, tail, rfl, -, -, rfl⟩ := exists_lexemes h
  obtain ⟨before, after, htext, -⟩ := standsIn_of_mem_tokensAt [] tail ht
  have hlength := congrArg List.length htext
  simp only [List.nil_append, List.length_append] at hlength
  omega

namespace Indexed

/-- The tokens of a text end in the only token for its end. -/
theorem endsIn_ofStream {text : Text} {stream : TokenStream} (h : TokenStream.ofText text = .ok stream) :
    EndsIn (.ofStream text stream) (stream.tokens.filter fun t => t.kind ≠ .comment)
      stream.endToken where
  tokens := by
    rw [Input.ofStream, TokenStream.toList, List.filter_append]
    rfl
  kind := rfl
  inner t ht := by
    obtain ⟨ws, tail, rfl, hfit, -, rfl⟩ := Token.exists_lexemes h
    obtain ⟨after, hfits⟩ := Token.fits_of_mem_tokensAt hfit t (List.mem_of_mem_filter ht)
    exact Token.fits_not_endOfText hfits

/-! ## Interpolations -/

/-- A text is read by index as the expression it is read as with a cursor. -/
theorem follows_standalone {text : Text} {stream : TokenStream}
    (h : TokenStream.ofText text = .ok stream) (hharmless : ∀ t ∈ stream.tokens, Harmless t) :
    Follows (Expr.ofText text) (standalone (.ofStream text stream)) .start fun result value s =>
      value = result.1 ∧ s.events = result.2 := by
  have hend := endsIn_ofStream h
  have hstart : Exact (.ofStream text stream) (stream.tokens.filter fun t => t.kind ≠ .comment)
      stream.endToken .start (.ofTokens stream.tokens) :=
    ⟨hend.tokens, rfl, rfl, List.suffix_refl _⟩
  refine Follows.deeper ?_
  simp only [standalone]
  rw [Expr.ofText, h]
  refine Follows.after (yields_push .ignored _) ?_
  refine (follows_expression ⟨hend, fun t ht => hharmless t (List.mem_of_mem_filter ht)⟩ .ignored _ _
    (ready_push hstart)).bind ?_
  rintro all _ s₁ ⟨rfl, h₁⟩
  obtain ⟨s₂, hpeek, h₂⟩ := yields_peek hend (h₁.ready_settled rfl).place
  obtain ⟨s₃, hpop, h₃⟩ := (h₁.trans h₂.toCame).popped
  change Yields _ s₁ (all.next.peek ⟨text, stream.endToken⟩ .ignored) s₂ at hpeek
  refine Follows.after hpeek ?_
  dsimp only
  split
  · exact Follows.after hpop (follows_pure ⟨rfl, h₃.here.events⟩)
  · exact follows_refuse h₂.here.events _ _

/-- A run that is set aside is passed over as soon as it has come to an end in a value or a refusal. -/
theorem Follows.aside {α β : Type} {r : Reading α} {x : Nat → Run β} {P : α → β → State → Prop}
    (h : Follows r x .start P) (s : State) :
    ∀ᶠ depth in Filter.atTop, Yields (aside (x depth)) s () s := by
  cases r with
  | ok a =>
    obtain ⟨b, s', hb, -⟩ := h
    exact hb.mono fun depth hb => by rw [Yields, Indexed.aside, show x depth .start = _ from hb]
  | error failure =>
    exact Filter.Eventually.mono h fun depth h => by
      rw [Yields, Indexed.aside, show x depth .start = _ from h]

theorem passes_interpolations {n : Nat} (hharmless : ∀ t : Token, t.text.length < n → Harmless t)
    {parts : List Template.Part}
    (hparts : ∀ directive inner, .interpolation directive inner ∈ parts → inner.length < n) :
    Passes parts := by
  intro s
  induction parts with
  | nil => exact eventually_of_succ (.of_forall fun _ => yields_pure () s)
  | cons part parts ih =>
    have ih := ih fun directive inner h => hparts directive inner (List.mem_cons_of_mem part h)
    refine eventually_of_succ ?_
    match part with
    | .literal _ | .interpolation true _ => simpa only [interpolations] using ih
    | .interpolation false inner =>
      simp only [interpolations]
      cases hstream : TokenStream.ofText (Template.stripMarkers inner) with
      | error e => exact ih
      | ok stream =>
        have hread := follows_standalone hstream fun t ht => by
          refine hharmless t (lt_of_le_of_lt ?_ (hparts false inner (List.mem_cons_self ..)))
          exact (Token.length_le_of_mem_ofText hstream ht).trans (Template.length_stripMarkers_le inner)
        exact ((hread.aside s).and ih).mono fun _ h => h.1.bind h.2

/-- Reading the templates of a token comes to an end, whatever the token is. -/
theorem harmless (t : Token) : Harmless t := by
  induction hn : t.text.length using Nat.strong_induction_on generalizing t with
  | _ n ih =>
    subst hn
    have hshorter : ∀ u : Token, u.text.length < t.text.length → Harmless u := fun u hu => ih _ hu u rfl
    refine ⟨passes_interpolations hshorter fun _ _ h => Template.length_lt_of_mem_partsOf h,
      passes_interpolations hshorter fun _ _ h => ?_⟩
    exact lt_of_lt_of_le (Template.length_lt_of_mem_partsOf h) (Expr.length_heredocBody_le t.text)

end Indexed

end HclTidy
