import HclTidy.Block.Parser
import HclTidy.Proofs.Expr.Alike
import HclTidy.Proofs.Expr.Faults
import HclTidy.Proofs.Template.Oversized
import HclTidy.Proofs.Token.Lexemes

/-!
# Texts that are refused

Reading a text gives its blocks, or fails with an error of its tokens or of its grammar. The one
exception is a label with an escape beyond the range of code numbers, whose error is of another kind.
-/

set_option autoImplicit false

namespace HclTidy

open Reading

/-- An error that reading a text may end with: one of its tokens or of its grammar, or that of an
oversized escape which the text has. -/
def ParseError.DueTo (text : Text) : ParseError → Prop
  | .escape _ => Escape.Oversized text
  | _ => True

theorem ParseError.IsGrammar.dueTo {error : ParseError} (h : error.IsGrammar) (text : Text) :
    error.DueTo text := by
  cases error with
  | escape => cases h
  | _ => trivial

/-- The tokens that are left stand in a text. -/
def Cursor.Within (text : Text) (c : Cursor) : Prop := ∀ t ∈ c.rest, t.text <:+: text

theorem Cursor.Within.of_suffix {text : Text} {c c' : Cursor} (h : c.Within text)
    (hsuffix : c'.rest <:+ c.rest) : c'.Within text :=
  fun t ht => h t (hsuffix.subset ht)

variable {text : Text} {α : Type}

theorem Reading.FailsOnly.dueTo {r : Reading α} (h : FailsOnly ParseError.IsGrammar r) :
    FailsOnly (ParseError.DueTo text) r :=
  h.mono fun _ herror => herror.dueTo text

/-! ## Bodies -/

namespace Body

variable {source : Source}

theorem failsOnly_decodeLabel (c : Cursor) {token : Token} (h : token.text <:+: text) :
    FailsOnly (ParseError.DueTo text) (decodeLabel c token) := by
  unfold decodeLabel
  dsimp only
  split
  · next hliteral =>
    split
    · exact failsOnly_ok _
    · next error herror =>
      intro failure hfailure
      cases hfailure
      exact (Escape.oversized_of_decodeFrom herror).of_part
        ((Template.literalText_infix_of_all hliteral).trans h)
  · exact (Cursor.failsOnly_fail _ _ _).dueTo

theorem failsOnly_labelText (c : Cursor) {token : Token} (h : token.text <:+: text) :
    FailsOnly (ParseError.DueTo text) (labelText c token) := by
  unfold labelText
  split
  · exact failsOnly_ok _
  · exact failsOnly_decodeLabel c h

theorem failsOnly_readLabels {c : Cursor} (h : c.Within text) :
    FailsOnly (ParseError.DueTo text) (readLabels source c) := by
  rw [readLabels]
  split
  · exact failsOnly_ok _
  · next first hfirst =>
    have := first.shorter
    have hmem : first.value ∈ c.rest := by
      refine (c.view_suffix .significant).subset ?_
      rw [(Cursor.view_of_takeIf? hfirst).1]
      exact List.mem_cons_self
    exact (failsOnly_labelText _ (h _ hmem)).bind fun _ =>
      (failsOnly_readLabels (h.of_suffix first.suffix)).bind fun _ => failsOnly_ok _
termination_by c.rest.length

theorem failsOnly_read {c : Cursor} (h : c.Within text) :
    FailsOnly (ParseError.DueTo text) (read source c) := by
  have := c.skipNewlines_length_le
  have hitems : c.skipNewlines.Within text := h.of_suffix (c.view_suffix .ignored)
  rw [read]
  dsimp only
  split
  · exact failsOnly_ok _
  · split
    · exact (Cursor.failsOnly_fail _ _ _).dueTo
    · refine (Cursor.failsOnly_expect _).dueTo.bind fun name => ?_
      have := name.shorter
      have hname := hitems.of_suffix name.suffix
      split
      · next equal _ =>
        have := equal.shorter
        refine (Expr.failsOnly_read _ _ _).dueTo.bind fun value => ?_
        have := value.shorter
        exact Cursor.failsOnly_endOfItem.dueTo.bind fun _ =>
          (failsOnly_read ((hname.of_suffix equal.suffix).of_suffix value.suffix)).bind fun _ =>
            failsOnly_ok _
      · refine (failsOnly_readLabels hname).bind fun labels => ?_
        have := labels.notLonger
        refine (Cursor.failsOnly_expect _).dueTo.bind fun opening => ?_
        have := opening.shorter
        have hopening := (hname.of_suffix labels.suffix).of_suffix opening.suffix
        refine (failsOnly_read hopening).bind fun inner => ?_
        have := inner.notLonger
        refine (Cursor.failsOnly_expect _).dueTo.bind fun closing => ?_
        have := closing.shorter
        exact Cursor.failsOnly_endOfItem.dueTo.bind fun _ =>
          (failsOnly_read ((hopening.of_suffix inner.suffix).of_suffix closing.suffix)).bind fun _ =>
            failsOnly_ok _
termination_by c.rest.length

end Body

/-! ## Files -/

namespace ParsedFile

variable {source : Source}

theorem failsOnly_checkLabels (name : Token) (labels : List Text) (c : Cursor) :
    FailsOnly ParseError.IsGrammar (checkLabels name labels c) := by
  unfold checkLabels
  split
  · exact failsOnly_ok _
  · split
    · exact failsOnly_ok _
    · exact Cursor.failsOnly_fail _ _ _

theorem failsOnly_readBlocks {file : Text} {keepSource : Bool} (previousEnd : Nat) {c : Cursor}
    (h : c.Within text) :
    FailsOnly (ParseError.DueTo text) (readBlocks source file keepSource previousEnd c) := by
  have := c.skipNewlines_length_le
  have hitems : c.skipNewlines.Within text := h.of_suffix (c.view_suffix .ignored)
  rw [readBlocks]
  split
  · exact failsOnly_ok _
  · refine (Cursor.failsOnly_expect _).dueTo.bind fun name => ?_
    have := name.shorter
    have hname := hitems.of_suffix name.suffix
    dsimp only
    split
    · next equal _ =>
      have := equal.shorter
      refine (Expr.failsOnly_read _ _ _).dueTo.bind fun value => ?_
      have : (value.next.record (.skippedAttribute name.value.text
        name.value.start.line)).rest.length < equal.next.rest.length := value.shorter
      exact Cursor.failsOnly_endOfItem.dueTo.bind fun _ =>
        failsOnly_readBlocks _ ((hname.of_suffix equal.suffix).of_suffix value.suffix)
    · refine (Body.failsOnly_readLabels hname).bind fun labels => ?_
      have := labels.notLonger
      refine (failsOnly_checkLabels _ _ _).dueTo.bind fun header => ?_
      have := header.notLonger
      refine (Cursor.failsOnly_expect _).dueTo.bind fun opening => ?_
      have := opening.shorter
      have hopening :=
        ((hname.of_suffix labels.suffix).of_suffix header.suffix).of_suffix opening.suffix
      refine (Body.failsOnly_read hopening).bind fun body => ?_
      have := body.notLonger
      refine (Cursor.failsOnly_expect _).dueTo.bind fun closing => ?_
      have := closing.shorter
      exact Cursor.failsOnly_endOfItem.dueTo.bind fun _ =>
        (failsOnly_readBlocks _ ((hopening.of_suffix body.suffix).of_suffix closing.suffix)).bind
          fun _ => failsOnly_ok _
termination_by c.rest.length

end ParsedFile

/-- The tokens of a text stand in it. -/
theorem Token.infix_textOf {p : Position} {ws : List Lexeme} (after : Text) :
    ∀ t ∈ tokensAt p ws, t.text <:+: textOf ws after := by
  induction ws generalizing p with
  | nil => exact List.forall_mem_nil _
  | cons w ws ih =>
    rw [textOf_cons]
    refine List.forall_mem_cons.mpr ⟨⟨w.gap, textOf ws after, List.append_assoc _ _ _⟩, fun t ht => ?_⟩
    exact (ih t ht).trans
      ((List.suffix_append w.text _).trans (List.suffix_append w.gap _)).isInfix

/-- Reading a text fails with an error of its tokens or of its grammar, unless the text has an
oversized escape. -/
theorem ParsedFile.failsOnly_ofText (file : Text) (keepSource : Bool) (text : Text) :
    FailsOnly (ParseError.DueTo text) (ofText file keepSource text) := by
  unfold ofText
  split
  · intro failure hfailure
    cases hfailure
    trivial
  · next stream hstream =>
    obtain ⟨ws, tail, htext, -, -, rfl⟩ := Token.exists_lexemes hstream
    have hwithin : (Cursor.ofTokens (Token.tokensAt Position.start ws)).Within text := by
      intro t ht
      rw [htext]
      exact Token.infix_textOf tail t (List.mem_filter.mp ht).1
    exact (failsOnly_readBlocks 0 hwithin).bind fun _ => failsOnly_ok _

/-- An oversized escape in a label ends reading with an error of neither kind. -/
theorem ParsedFile.ofText_oversized :
    ¬∀ text : Text, FailsOnly (fun error => ∀ fault, error ≠ .escape fault) (ofText [] true text) := by
  intro h
  have hfailed : (match ofText [] true "x \"\\U80000000\" \x7b\x7d\n".toList with
      | .error failure => decide (failure.error = .escape .codeTooLarge)
      | .ok _ => false) = true := by decide +kernel
  cases hread : ofText [] true "x \"\\U80000000\" \x7b\x7d\n".toList with
  | ok read =>
    rw [hread] at hfailed
    cases hfailed
  | error failure =>
    rw [hread] at hfailed
    exact h _ failure hread _ (of_decide_eq_true hfailed)

end HclTidy
