import HclTidy.Proofs.Expr.Inversion
import HclTidy.Proofs.Token.Brackets

/-!
# The brackets of an expression

The tokens that are read as an expression are bracketed. The proof follows the recursion of the
grammar: a function that reads an opening bracket reads on to the one that closes it.
-/

set_option autoImplicit false

namespace HclTidy

namespace Reading

/-- Whatever a reading gives has a property. -/
def Gives {α : Type} (P : α → Prop) (r : Reading α) : Prop := ∀ a, r = .ok a → P a

variable {α β : Type} {P : α → Prop} {Q : β → Prop} {r : Reading α} {next : α → Reading β}

theorem gives_ok {a : α} (h : P a) : Gives P (.ok a) := by
  intro b hb
  cases hb
  exact h

theorem gives_error (failure : ParseFailure) : Gives P (.error failure) := nofun

theorem Gives.bind (h : Gives P r) (hnext : ∀ a, P a → Gives Q (next a)) : Gives Q (r >>= next) := by
  intro b hb
  obtain ⟨a, hr, hb⟩ := bind_ok hb
  exact hnext a (h a hr) b hb

end Reading

namespace Cursor

open Token Reading

variable {source : Source} {mode : LineMode} {c : Cursor} {wanted : Token → Bool}

theorem paired_view (mode : LineMode) (c : Cursor) : Paired mode c.rest (c.view mode) := by
  cases mode with
  | significant => exact .refl _ _
  | ignored =>
    refine ⟨_, List.takeWhile_append_dropWhile.symm, bracketed_newlines fun t ht => ?_⟩
    have hkind := List.mem_takeWhile_imp ht
    exact of_decide_eq_true hkind

theorem paired_take? {s : Step Token c} (hs : c.take? mode = some s) :
    Paired mode c.rest (s.value :: s.next.rest) := view_of_take? hs ▸ c.paired_view mode

theorem paired_takeIf? {s : Step Token c} (hs : c.takeIf? mode wanted = some s)
    (hwanted : ∀ t, wanted t = true → Nesting.isInner t.kind = true) :
    Paired mode c.rest s.next.rest := by
  obtain ⟨hview, hs⟩ := view_of_takeIf? hs
  exact (hview ▸ c.paired_view mode).trans (paired_inner (hwanted _ hs) _)

theorem inner_of_isKind {kind : Token.Kind} (hk : Nesting.isInner kind = true) (t : Token)
    (ht : t.isKind kind = true) : Nesting.isInner t.kind = true := by
  rwa [of_decide_eq_true ht]

theorem inner_of_isWord {kind : Token.Kind} (hk : Nesting.isInner kind = true) (word : Text) (t : Token)
    (ht : t.isWord kind word = true) : Nesting.isInner t.kind = true := by
  rw [isWord, Bool.and_eq_true] at ht
  exact inner_of_isKind hk t ht.1

theorem paired_accept? {kind : Token.Kind} {s : Step Token c} (hs : c.accept? mode kind = some s)
    (hk : Nesting.isInner kind = true) : Paired mode c.rest s.next.rest :=
  paired_takeIf? hs (inner_of_isKind hk)

theorem gives_expect {kind : Token.Kind} (hk : Nesting.isInner kind = true) :
    Gives (fun s => Paired mode c.rest s.next.rest) (c.expect source mode kind) := fun _ hs =>
  paired_takeIf? (expect_ok hs) (inner_of_isKind hk)

theorem gives_expectWord {word : Text} :
    Gives (fun s => Paired mode c.rest s.next.rest) (c.expectWord source mode word) := fun _ hs =>
  paired_takeIf? (expectWord_ok hs) (inner_of_isWord (by decide) word)

theorem gives_closing {kind : Token.Kind} (hk : kind = .rparen ∨ kind = .rbrack ∨ kind = .rbrace) :
    Gives (fun s => Leaves c.rest s.next.rest) (c.expect source mode kind) := by
  intro s hs
  obtain ⟨hview, hkind⟩ := view_of_takeIf? (expect_ok hs)
  refine ⟨s.value, ?_, (hview ▸ c.paired_view mode).ignored⟩
  rw [Token.closes, of_decide_eq_true hkind]
  obtain rfl | rfl | rfl := hk <;> rfl

theorem paired_skip (mode : LineMode) (kind : Token.Kind) (hk : Nesting.isInner kind = true) (c : Cursor) :
    Paired mode c.rest (c.skip mode kind).next.rest := by
  unfold skip
  split
  · next s hs => exact paired_accept? hs hk
  · exact .refl _ _

end Cursor

namespace Expr

open Token Reading Cursor

variable (source : Source)

theorem gives_nameTail (mode : LineMode) (c : Cursor) :
    Gives (fun s => Paired mode c.rest s.next.rest) (nameTail source mode c) := by
  rw [nameTail]
  split
  · exact gives_ok (.refl _ _)
  · next colons hcolons =>
    refine (gives_expect rfl).bind fun part hpart => ?_
    have := colons.shorter
    have := part.shorter
    refine (gives_nameTail mode part.next).bind fun more hmore => gives_ok ?_
    exact (paired_accept? hcolons rfl).trans (hpart.trans hmore)
termination_by c.rest.length
decreasing_by omega

theorem gives_secondName (c : Cursor) :
    Gives (fun s => Paired .ignored c.rest s.next.rest) (secondName source c) := by
  unfold secondName
  split
  · exact gives_ok (.refl _ _)
  · next comma hcomma =>
    exact (gives_expect rfl).bind fun name hname =>
      gives_ok ((paired_accept? hcomma rfl).trans hname)

theorem paired_operator? {mode : LineMode} {least strength : Nat} {c : Cursor} {s : Step Token c}
    (hs : operator? mode least c = some (strength, s)) : Paired mode c.rest s.next.rest :=
  paired_accept? (operator?_accept hs).1 rfl

theorem paired_sign? {mode : LineMode} {c : Cursor} {s : Step Token c} (hs : sign? mode c = some s) :
    Paired mode c.rest s.next.rest := by
  refine paired_takeIf? hs fun t ht => ?_
  rw [Bool.or_eq_true] at ht
  exact ht.elim (inner_of_isWord rfl _ t) (inner_of_isWord rfl _ t)

mutual

theorem gives_read (mode : LineMode) (c : Cursor) :
    Gives (fun s => Paired mode c.rest s.next.rest) (read source mode c) := by
  rw [read]
  refine (gives_readBinary mode 1 c).bind fun condition hcondition => ?_
  have := condition.shorter
  dsimp only
  split
  · exact gives_ok hcondition
  · next question hquestion =>
    have := question.shorter
    refine (gives_read mode question.next).bind fun yes hyes => ?_
    have := yes.shorter
    refine (gives_expect rfl).bind fun colon hcolon => ?_
    have := colon.shorter
    refine (gives_read mode colon.next).bind fun no hno => gives_ok ?_
    exact hcondition.trans ((paired_accept? hquestion rfl).trans (hyes.trans (hcolon.trans hno)))
termination_by 16 * c.rest.length + 5

theorem gives_readBinary (mode : LineMode) (least : Nat) (c : Cursor) :
    Gives (fun s => Paired mode c.rest s.next.rest) (readBinary source mode least c) := by
  rw [readBinary]
  refine (gives_readUnary mode c).bind fun left hleft => ?_
  have := left.shorter
  exact (gives_readOperations mode least _ left.value left.next).bind fun all hall =>
    gives_ok (hleft.trans hall)
termination_by 16 * c.rest.length + 4

theorem gives_readOperations (mode : LineMode) (least start : Nat) (left : Expr) (c : Cursor) :
    Gives (fun s => Paired mode c.rest s.next.rest) (readOperations source mode least start left c) := by
  rw [readOperations]
  split
  · exact gives_ok (.refl _ _)
  · next strength operator hoperator =>
    have := operator.shorter
    refine (gives_readBinary mode (strength + 1) operator.next).bind fun right hright => ?_
    have := right.shorter
    refine (gives_readOperations mode least start _ right.next).bind fun all hall => gives_ok ?_
    exact (paired_operator? hoperator).trans (hright.trans hall)
termination_by 16 * c.rest.length

theorem gives_readUnary (mode : LineMode) (c : Cursor) :
    Gives (fun s => Paired mode c.rest s.next.rest) (readUnary source mode c) := by
  rw [readUnary]
  split
  · exact gives_readPostfix mode c
  · next sign hsign =>
    have := sign.shorter
    exact (gives_readUnary mode sign.next).bind fun operand hoperand =>
      gives_ok ((paired_sign? hsign).trans hoperand)
termination_by 16 * c.rest.length + 3

theorem gives_readPostfix (mode : LineMode) (c : Cursor) :
    Gives (fun s => Paired mode c.rest s.next.rest) (readPostfix source mode c) := by
  rw [readPostfix]
  refine (gives_readPrimary mode c).bind fun first hfirst => ?_
  have := first.shorter
  exact (gives_readSteps mode _ first.value first.next).bind fun all hall =>
    gives_ok (hfirst.trans hall)
termination_by 16 * c.rest.length + 2

theorem gives_readSteps (mode : LineMode) (start : Nat) (before : Expr) (c : Cursor) :
    Gives (fun s => Paired mode c.rest s.next.rest) (readSteps source mode start before c) := by
  rw [readSteps]
  split
  · exact gives_ok (.refl _ _)
  · next first hfirst =>
    have := first.shorter
    refine (gives_readStep mode first.value first.next).bind fun step hstep => ?_
    cases step with
    | none => exact gives_ok (.refl _ _)
    | some step =>
      have := step.shorter
      refine (gives_readSteps mode start _ step.next).bind fun all hall => gives_ok ?_
      exact (paired_take? hfirst).trans ((hstep step rfl).trans hall)
termination_by 16 * c.rest.length

theorem gives_readStep (mode : LineMode) (first : Token) (c : Cursor) :
    Gives (fun step? => ∀ s, step? = some s → Paired mode (first :: c.rest) s.next.rest)
      (readStep source mode first c) := by
  have hsome {s : Step Bool c} (h : Paired mode (first :: c.rest) s.next.rest) :
      ∀ s', some s = some s' → Paired mode (first :: c.rest) s'.next.rest := by
    intro s' hs'
    cases hs'
    exact h
  rw [readStep]
  split
  · next hdot =>
    have hfirst : Paired mode (first :: c.rest) c.rest := paired_inner (by rw [hdot]; rfl) _
    split
    · exact gives_error _
    · next name hname =>
      have hrest := hfirst.trans (paired_take? hname)
      split
      · next hkind =>
        refine gives_ok (hsome (hrest.trans (paired_inner ?_ _)))
        rw [Bool.or_eq_true, decide_eq_true_iff, decide_eq_true_iff] at hkind
        obtain hk | hk := hkind <;> rw [hk] <;> rfl
      · split
        · next hstar =>
          exact gives_ok (hsome (hrest.trans (paired_inner (inner_of_isWord rfl _ _ hstar) _)))
        · exact gives_error _
  · split
    · next hbrack =>
      have hopens : first.opens = true := by rw [Token.opens, hbrack]; rfl
      split
      · next splat hsplat =>
        refine (gives_closing (.inr (.inl rfl))).bind fun close hclose => gives_ok (hsome ?_)
        exact paired_opens hopens ((paired_takeIf? hsplat (inner_of_isWord rfl _)).leaves hclose)
      · exact (gives_read .ignored c).bind fun key hkey =>
          (gives_closing (.inr (.inl rfl))).bind fun close hclose =>
            gives_ok (hsome (paired_opens hopens (hkey.leaves hclose)))
    · exact gives_ok nofun
termination_by 16 * c.rest.length + 6

theorem gives_readPrimary (mode : LineMode) (c : Cursor) :
    Gives (fun s => Paired mode c.rest s.next.rest) (readPrimary source mode c) := by
  rw [readPrimary]
  split
  · exact gives_error _
  · next first htake =>
    have := first.shorter
    have hfirst := paired_take? htake
    have hinner (hk : Nesting.isInner first.value.kind = true) : Paired mode c.rest first.next.rest :=
      hfirst.trans (paired_inner hk _)
    have hopens (hk : first.value.opens = true) (ts : List Token) (h : Leaves first.next.rest ts) :
        Paired mode c.rest ts := hfirst.trans (paired_opens hk h)
    dsimp only
    split
    · next hk => exact gives_ok (hinner (by rw [hk]; rfl))
    · next hk => exact gives_ok (hinner (by rw [hk]; rfl))
    · next hk => exact gives_ok (hinner (by rw [hk]; rfl))
    · next hk =>
      have hname := hinner (by rw [hk]; rfl)
      split
      · exact gives_ok hname
      · split
        · refine (gives_nameTail source mode first.next).bind fun names hnames => ?_
          have := names.notLonger
          intro s hs
          obtain ⟨paren, hparen, hs⟩ := bind_ok hs
          have := paren.shorter
          obtain ⟨args, hargs, hs⟩ := bind_ok hs
          obtain ⟨close, hclose, hs⟩ := bind_ok hs
          cases hs
          obtain ⟨hview, hkind⟩ := view_of_takeIf? (expect_ok hparen)
          have hargs := gives_readArguments paren.next args hargs
          have hclose := gives_closing (.inl rfl) close hclose
          refine hname.trans (hnames.trans ((hview ▸ names.next.paired_view mode).trans ?_))
          exact paired_opens (by rw [Token.opens, of_decide_eq_true hkind]; rfl) (hargs.leaves hclose)
        · exact gives_ok hname
    · next hk =>
      have hopens := hopens (by rw [Token.opens, hk]; rfl)
      split
      · exact (gives_readFor _ _ (.inl rfl) first.next).bind fun all hall => gives_ok (hopens _ hall)
      · exact (gives_readItems first.next).bind fun items hitems =>
          (gives_closing (.inr (.inl rfl))).bind fun close hclose =>
            gives_ok (hopens _ (hitems.leaves hclose))
    · next hk =>
      have hopens := hopens (by rw [Token.opens, hk]; rfl)
      split
      · exact (gives_readFor _ _ (.inr rfl) first.next).bind fun all hall => gives_ok (hopens _ hall)
      · exact (gives_readPairs first.next).bind fun pairs hpairs =>
          (gives_closing (.inr (.inr rfl))).bind fun close hclose =>
            gives_ok (hopens _ (hpairs.leaves hclose))
    · next hk =>
      have hopens := hopens (by rw [Token.opens, hk]; rfl)
      exact (gives_read .ignored first.next).bind fun inner hinner =>
        (gives_closing (.inl rfl)).bind fun close hclose =>
          gives_ok (hopens _ (hinner.leaves hclose))
    · exact gives_error _
termination_by 16 * c.rest.length + 1

theorem gives_readArguments (c : Cursor) :
    Gives (fun s => Paired .ignored c.rest s.next.rest) (readArguments source c) := by
  rw [readArguments]
  split
  · exact gives_ok (.refl _ _)
  · refine (gives_read .ignored c).bind fun first hfirst => ?_
    have := first.shorter
    have := (first.next.skip .ignored .ellipsis).notLonger
    have hdots := hfirst.trans (paired_skip .ignored .ellipsis rfl _)
    dsimp only
    split
    · exact gives_ok hdots
    · next comma hcomma =>
      have := comma.shorter
      exact (gives_readArguments comma.next).bind fun more hmore =>
        gives_ok (hdots.trans ((paired_accept? hcomma rfl).trans hmore))
termination_by 16 * c.rest.length + 6

theorem gives_readItems (c : Cursor) :
    Gives (fun s => Paired .ignored c.rest s.next.rest) (readItems source c) := by
  rw [readItems]
  split
  · exact gives_ok (.refl _ _)
  · refine (gives_read .ignored c).bind fun first hfirst => ?_
    have := first.shorter
    dsimp only
    split
    · exact gives_ok hfirst
    · next comma hcomma =>
      have := comma.shorter
      exact (gives_readItems comma.next).bind fun more hmore =>
        gives_ok (hfirst.trans ((paired_accept? hcomma rfl).trans hmore))
termination_by 16 * c.rest.length + 6

theorem gives_readPairs (c : Cursor) :
    Gives (fun s => Paired .ignored c.rest s.next.rest) (readPairs source c) := by
  rw [readPairs]
  split
  · exact gives_ok (.refl _ _)
  · split
    · exact gives_error _
    · refine (gives_read .ignored c).bind fun key hkey => ?_
      have := key.shorter
      dsimp only
      split
      · exact gives_error _
      · next separator hseparator =>
        have := separator.shorter
        have hseparator := paired_takeIf? hseparator fun t ht => by
          rw [Bool.or_eq_true, decide_eq_true_iff, decide_eq_true_iff] at ht
          obtain hk | hk := ht <;> rw [hk] <;> rfl
        refine (gives_read .ignored separator.next).bind fun value hvalue => ?_
        have := value.shorter
        have := (value.next.skip .ignored .comma).notLonger
        have hcomma := hvalue.trans (paired_skip .ignored .comma rfl _)
        exact (gives_readPairs (value.next.skip .ignored .comma).next).bind fun more hmore =>
          gives_ok (hkey.trans (hseparator.trans (hcomma.trans hmore)))
termination_by 16 * c.rest.length + 6

theorem gives_readFor (start : Nat) (closing : Token.Kind)
    (hclosing : closing = .rbrack ∨ closing = .rbrace) (c : Cursor) :
    Gives (fun s => Leaves c.rest s.next.rest) (readFor source start closing c) := by
  rw [readFor]
  refine gives_expectWord.bind fun keyword hkeyword => ?_
  have := keyword.shorter
  refine (gives_expect rfl).bind fun first hfirst => ?_
  have := first.shorter
  refine (gives_secondName source _).bind fun second hsecond => ?_
  have := second.notLonger
  refine gives_expectWord.bind fun within hwithin => ?_
  have := within.shorter
  refine (gives_read .ignored within.next).bind fun collection hcollection => ?_
  have := collection.shorter
  refine (gives_expect rfl).bind fun colon hcolon => ?_
  have := colon.shorter
  refine (gives_read .ignored colon.next).bind fun item hitem => ?_
  have := item.shorter
  refine (gives_readForValue closing item.next).bind fun value hvalue => ?_
  have := value.notLonger
  refine (gives_readForFilter value.next).bind fun filter hfilter => ?_
  refine (gives_closing (.inr hclosing)).bind fun close hclose => gives_ok ?_
  have hhead := hkeyword.trans (hfirst.trans (hsecond.trans (hwithin.trans hcollection)))
  exact (hhead.trans (hcolon.trans (hitem.trans (hvalue.trans hfilter)))).leaves hclose
termination_by 16 * c.rest.length + 6

theorem gives_readForValue (closing : Token.Kind) (c : Cursor) :
    Gives (fun s => Paired .ignored c.rest s.next.rest) (readForValue source closing c) := by
  rw [readForValue]
  split
  · refine (gives_expect rfl).bind fun arrow harrow => ?_
    have := arrow.shorter
    exact (gives_read .ignored arrow.next).bind fun value hvalue =>
      gives_ok (harrow.trans (hvalue.trans (paired_skip .ignored .ellipsis rfl _)))
  · exact gives_ok (.refl _ _)
termination_by 16 * c.rest.length + 6

theorem gives_readForFilter (c : Cursor) :
    Gives (fun s => Paired .ignored c.rest s.next.rest) (readForFilter source c) := by
  rw [readForFilter]
  split
  · exact gives_ok (.refl _ _)
  · next keyword hkeyword =>
    have := keyword.shorter
    have hkeyword := paired_takeIf? hkeyword (inner_of_isWord rfl _)
    exact (gives_read .ignored keyword.next).bind fun test htest => gives_ok (hkeyword.trans htest)
termination_by 16 * c.rest.length + 6

end

end Expr

end HclTidy
