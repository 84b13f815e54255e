import HclTidy.Expr.Parser

/-!
# How reading fails

Tokens that do not fit the grammar are the only errors of reading expressions. The proof follows the
recursion of the grammar: each of its functions fails where it asks for a token, or as the functions
that it calls.
-/

set_option autoImplicit false

namespace HclTidy

/-- The error is a token that does not fit the grammar. -/
def ParseError.IsGrammar : ParseError → Prop
  | .grammar _ _ => True
  | _ => False

namespace Reading

/-- A reading fails with allowed errors only. -/
def FailsOnly {α : Type} (allowed : ParseError → Prop) (r : Reading α) : Prop :=
  ∀ failure, r = .error failure → allowed failure.error

variable {α β : Type} {allowed : ParseError → Prop} {r : Reading α} {next : α → Reading β}

theorem failsOnly_ok (a : α) : FailsOnly allowed (.ok a) := nofun

theorem FailsOnly.bind (h : FailsOnly allowed r) (hnext : ∀ a, FailsOnly allowed (next a)) :
    FailsOnly allowed (r >>= next) := by
  intro failure hfailure
  cases r with
  | error other =>
    cases hfailure
    exact h failure rfl
  | ok a => exact hnext a failure hfailure

theorem FailsOnly.mono {allowed' : ParseError → Prop} (h : FailsOnly allowed r)
    (himp : ∀ error, allowed error → allowed' error) : FailsOnly allowed' r :=
  fun failure hfailure => himp _ (h failure hfailure)

end Reading

namespace Cursor

open Reading

variable {source : Source} {mode : LineMode} {c : Cursor}

theorem failsOnly_fail {α : Type} (c : Cursor) (fault : GrammarFault) (token : Token) :
    FailsOnly ParseError.IsGrammar (c.fail fault token : Reading α) := by
  intro failure hfailure
  cases hfailure
  trivial

theorem failsOnly_expect (kind : Token.Kind) :
    FailsOnly ParseError.IsGrammar (c.expect source mode kind) := by
  unfold expect
  split
  · exact failsOnly_ok _
  · exact failsOnly_fail _ _ _

theorem failsOnly_expectWord (word : Text) :
    FailsOnly ParseError.IsGrammar (c.expectWord source mode word) := by
  unfold expectWord
  split
  · exact failsOnly_ok _
  · exact failsOnly_fail _ _ _

theorem failsOnly_endOfItem : FailsOnly ParseError.IsGrammar (c.endOfItem source) := by
  unfold endOfItem
  dsimp only
  split
  · exact failsOnly_ok _
  · exact failsOnly_fail _ _ _

end Cursor

namespace Expr

open Reading Cursor

variable (source : Source)

theorem failsOnly_nameTail (mode : LineMode) (c : Cursor) :
    FailsOnly ParseError.IsGrammar (nameTail source mode c) := by
  rw [nameTail]
  split
  · exact failsOnly_ok _
  · next colons _ =>
    refine (failsOnly_expect _).bind fun part => ?_
    have := colons.shorter
    have := part.shorter
    exact (failsOnly_nameTail mode part.next).bind fun _ => failsOnly_ok _
termination_by c.rest.length
decreasing_by omega

theorem failsOnly_secondName (c : Cursor) : FailsOnly ParseError.IsGrammar (secondName source c) := by
  unfold secondName
  split
  · exact failsOnly_ok _
  · exact (failsOnly_expect _).bind fun _ => failsOnly_ok _

mutual

theorem failsOnly_read (mode : LineMode) (c : Cursor) :
    FailsOnly ParseError.IsGrammar (read source mode c) := by
  rw [read]
  refine (failsOnly_readBinary mode 1 c).bind fun condition => ?_
  have := condition.shorter
  dsimp only
  split
  · exact failsOnly_ok _
  · next question _ =>
    have := question.shorter
    refine (failsOnly_read mode question.next).bind fun yes => ?_
    have := yes.shorter
    refine (failsOnly_expect _).bind fun colon => ?_
    have := colon.shorter
    exact (failsOnly_read mode colon.next).bind fun no => failsOnly_ok _
termination_by 16 * c.rest.length + 5

theorem failsOnly_readBinary (mode : LineMode) (least : Nat) (c : Cursor) :
    FailsOnly ParseError.IsGrammar (readBinary source mode least c) := by
  rw [readBinary]
  refine (failsOnly_readUnary mode c).bind fun left => ?_
  have := left.shorter
  exact (failsOnly_readOperations mode least _ left.value left.next).bind fun _ => failsOnly_ok _
termination_by 16 * c.rest.length + 4

theorem failsOnly_readOperations (mode : LineMode) (least start : Nat) (left : Expr) (c : Cursor) :
    FailsOnly ParseError.IsGrammar (readOperations source mode least start left c) := by
  rw [readOperations]
  split
  · exact failsOnly_ok _
  · next strength operator _ =>
    have := operator.shorter
    refine (failsOnly_readBinary mode (strength + 1) operator.next).bind fun right => ?_
    have := right.shorter
    exact (failsOnly_readOperations mode least start _ right.next).bind fun _ => failsOnly_ok _
termination_by 16 * c.rest.length

theorem failsOnly_readUnary (mode : LineMode) (c : Cursor) :
    FailsOnly ParseError.IsGrammar (readUnary source mode c) := by
  rw [readUnary]
  split
  · exact failsOnly_readPostfix mode c
  · next sign _ =>
    have := sign.shorter
    exact (failsOnly_readUnary mode sign.next).bind fun _ => failsOnly_ok _
termination_by 16 * c.rest.length + 3

theorem failsOnly_readPostfix (mode : LineMode) (c : Cursor) :
    FailsOnly ParseError.IsGrammar (readPostfix source mode c) := by
  rw [readPostfix]
  refine (failsOnly_readPrimary mode c).bind fun first => ?_
  have := first.shorter
  exact (failsOnly_readSteps mode _ first.value first.next).bind fun _ => failsOnly_ok _
termination_by 16 * c.rest.length + 2

theorem failsOnly_readSteps (mode : LineMode) (start : Nat) (before : Expr) (c : Cursor) :
    FailsOnly ParseError.IsGrammar (readSteps source mode start before c) := by
  rw [readSteps]
  split
  · exact failsOnly_ok _
  · next first _ =>
    have := first.shorter
    refine (failsOnly_readStep mode first.value first.next).bind fun step => ?_
    cases step with
    | none => exact failsOnly_ok _
    | some step =>
      have := step.shorter
      exact (failsOnly_readSteps mode start _ step.next).bind fun _ => failsOnly_ok _
termination_by 16 * c.rest.length

theorem failsOnly_readStep (mode : LineMode) (first : Token) (c : Cursor) :
    FailsOnly ParseError.IsGrammar (readStep source mode first c) := by
  rw [readStep]
  split
  · split
    · exact failsOnly_fail _ _ _
    · split
      · exact failsOnly_ok _
      · split
        · exact failsOnly_ok _
        · exact failsOnly_fail _ _ _
  · split
    · split
      · exact (failsOnly_expect _).bind fun _ => failsOnly_ok _
      · exact (failsOnly_read .ignored c).bind fun key =>
          (failsOnly_expect _).bind fun _ => failsOnly_ok _
    · exact failsOnly_ok _
termination_by 16 * c.rest.length + 6

theorem failsOnly_readPrimary (mode : LineMode) (c : Cursor) :
    FailsOnly ParseError.IsGrammar (readPrimary source mode c) := by
  rw [readPrimary]
  split
  · exact failsOnly_fail _ _ _
  · next first _ =>
    have := first.shorter
    dsimp only
    split
    · exact failsOnly_ok _
    · exact failsOnly_ok _
    · exact failsOnly_ok _
    · split
      · exact failsOnly_ok _
      · split
        · refine (failsOnly_nameTail source mode first.next).bind fun names => ?_
          have := names.notLonger
          refine (failsOnly_expect _).bind fun paren => ?_
          have := paren.shorter
          exact (failsOnly_readArguments paren.next).bind fun _ =>
            (failsOnly_expect _).bind fun _ => failsOnly_ok _
        · exact failsOnly_ok _
    · split
      · exact (failsOnly_readFor _ _ first.next).bind fun _ => failsOnly_ok _
      · exact (failsOnly_readItems first.next).bind fun _ =>
          (failsOnly_expect _).bind fun _ => failsOnly_ok _
    · split
      · exact (failsOnly_readFor _ _ first.next).bind fun _ => failsOnly_ok _
      · exact (failsOnly_readPairs first.next).bind fun _ =>
          (failsOnly_expect _).bind fun _ => failsOnly_ok _
    · exact (failsOnly_read .ignored first.next).bind fun _ =>
        (failsOnly_expect _).bind fun _ => failsOnly_ok _
    · exact failsOnly_fail _ _ _
termination_by 16 * c.rest.length + 1

theorem failsOnly_readArguments (c : Cursor) :
    FailsOnly ParseError.IsGrammar (readArguments source c) := by
  rw [readArguments]
  split
  · exact failsOnly_ok _
  · refine (failsOnly_read .ignored c).bind fun first => ?_
    have := first.shorter
    have := (first.next.skip .ignored .ellipsis).notLonger
    dsimp only
    split
    · exact failsOnly_ok _
    · next comma _ =>
      have := comma.shorter
      exact (failsOnly_readArguments comma.next).bind fun _ => failsOnly_ok _
termination_by 16 * c.rest.length + 6

theorem failsOnly_readItems (c : Cursor) : FailsOnly ParseError.IsGrammar (readItems source c) := by
  rw [readItems]
  split
  · exact failsOnly_ok _
  · refine (failsOnly_read .ignored c).bind fun first => ?_
    have := first.shorter
    dsimp only
    split
    · exact failsOnly_ok _
    · next comma _ =>
      have := comma.shorter
      exact (failsOnly_readItems comma.next).bind fun _ => failsOnly_ok _
termination_by 16 * c.rest.length + 6

theorem failsOnly_readPairs (c : Cursor) : FailsOnly ParseError.IsGrammar (readPairs source c) := by
  rw [readPairs]
  split
  · exact failsOnly_ok _
  · split
    · exact failsOnly_fail _ _ _
    · refine (failsOnly_read .ignored c).bind fun key => ?_
      have := key.shorter
      dsimp only
      split
      · exact failsOnly_fail _ _ _
      · next separator _ =>
        have := separator.shorter
        refine (failsOnly_read .ignored separator.next).bind fun value => ?_
        have := value.shorter
        have := (value.next.skip .ignored .comma).notLonger
        exact (failsOnly_readPairs (value.next.skip .ignored .comma).next).bind fun _ =>
          failsOnly_ok _
termination_by 16 * c.rest.length + 6

theorem failsOnly_readFor (start : Nat) (closing : Token.Kind) (c : Cursor) :
    FailsOnly ParseError.IsGrammar (readFor source start closing c) := by
  rw [readFor]
  refine (failsOnly_expectWord _).bind fun keyword => ?_
  have := keyword.shorter
  refine (failsOnly_expect _).bind fun first => ?_
  have := first.shorter
  refine (failsOnly_secondName source _).bind fun second => ?_
  have := second.notLonger
  refine (failsOnly_expectWord _).bind fun within => ?_
  have := within.shorter
  refine (failsOnly_read .ignored within.next).bind fun collection => ?_
  have := collection.shorter
  refine (failsOnly_expect _).bind fun colon => ?_
  have := colon.shorter
  refine (failsOnly_read .ignored colon.next).bind fun item => ?_
  have := item.shorter
  refine (failsOnly_readForValue closing item.next).bind fun value => ?_
  have := value.notLonger
  exact (failsOnly_readForFilter value.next).bind fun _ =>
    (failsOnly_expect _).bind fun _ => failsOnly_ok _
termination_by 16 * c.rest.length + 6

theorem failsOnly_readForValue (closing : Token.Kind) (c : Cursor) :
    FailsOnly ParseError.IsGrammar (readForValue source closing c) := by
  rw [readForValue]
  split
  · refine (failsOnly_expect _).bind fun arrow => ?_
    have := arrow.shorter
    exact (failsOnly_read .ignored arrow.next).bind fun _ => failsOnly_ok _
  · exact failsOnly_ok _
termination_by 16 * c.rest.length + 6

theorem failsOnly_readForFilter (c : Cursor) :
    FailsOnly ParseError.IsGrammar (readForFilter source c) := by
  rw [readForFilter]
  split
  · exact failsOnly_ok _
  · next keyword _ =>
    have := keyword.shorter
    exact (failsOnly_read .ignored keyword.next).bind fun _ => failsOnly_ok _
termination_by 16 * c.rest.length + 6

end

end Expr

end HclTidy
