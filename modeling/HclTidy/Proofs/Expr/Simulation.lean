import HclTidy.Proofs.Expr.Results

/-!
# Expressions that read alike

An expression that is read off one of two token lists that read alike is read off the other too, and
the lists behind it read alike again; where the comparison is exact, it is the same expression. The
proof follows the grammar: one lemma for each of its functions, under the hypothesis that all of them
keep step on what is left behind a token.
-/

set_option autoImplicit false

namespace HclTidy.Expr

open Comparison

variable {f : Comparison} {source source' : Source} {mode mode' : LineMode} {c c' : Cursor}

/-! ## The functions of the grammar -/

section Functions

variable {bound : Nat} (hsources : f.Sources source source')
  (ih : KeepsStep f source source' bound)

include hsources ih

theorem read_alike (hm : mode.Loosens mode') (hb : 16 * c.rest.length + 5 < bound + 1)
    (h : f.Ahead mode mode' c c') :
    StepsAlike f mode mode' (read source mode c) (read source' mode' c') := by
  intro s hs hlen hsettled
  rw [read] at hs
  obtain ⟨condition, hcondition, hs⟩ := Reading.bind_ok hs
  have hshort := condition.shorter
  have hread := ih.readBinary hm (by omega) h condition hcondition
  split at hs
  · next hq =>
    cases hs
    obtain ⟨condition', hcondition', hstep⟩ := hread hlen hsettled
    rw [read]
    simp only [hcondition', bind, Except.bind]
    rw [accept?_none (by decide) hm hstep.rest hsettled hq]
    exact ⟨condition', rfl, hstep⟩
  · next question hq =>
    obtain ⟨yes, hyes, hs⟩ := Reading.bind_ok hs
    obtain ⟨colon, hcolon, hs⟩ := Reading.bind_ok hs
    obtain ⟨no, hno, hs⟩ := Reading.bind_ok hs
    cases hs
    change f.behind ≤ no.next.rest.length at hlen
    have h₁ := question.shorter
    have h₂ := yes.shorter
    have h₃ := colon.shorter
    have h₄ := no.shorter
    obtain ⟨condition', hcondition', hcond⟩ :=
      hread (by omega) (settled_of_accept? (by decide) hm hq)
    obtain ⟨question', hq', -, halike⟩ := accept?_some (by decide) hm hcond.rest hq (by omega)
    obtain ⟨yes', hyes', hyesAlike⟩ := ih.read hm (by omega) (ahead_of_alike hm halike) yes hyes
      (by omega) (settled_of_expect (by decide) hm hcolon)
    obtain ⟨colon', hcolon', -, halike⟩ := expect_alike source' (by decide) hm hyesAlike.rest hcolon
      (by omega)
    obtain ⟨no', hno', hnoAlike⟩ := ih.read hm (by omega) (ahead_of_alike hm halike) no hno hlen
      hsettled
    have hlast : Lasts f c c' no.next no'.next := hnoAlike.last.mono
      (colon.suffix.trans (yes.suffix.trans (question.suffix.trans condition.suffix)))
      (colon'.suffix.trans (yes'.suffix.trans (question'.suffix.trans condition'.suffix)))
    rw [read]
    simp only [hcondition', bind, Except.bind, hq', hyes', hcolon', hno']
    refine ⟨_, rfl, hnoAlike.rest, ?_, hlast, fun hx => ?_⟩
    · exact hcond.head.mono
        (no.suffix.trans (colon.suffix.trans (yes.suffix.trans question.suffix)))
    · exact congrArg Expr.unknown (sourceFrom_eq hsources hx (hcond.head.place source source' hx) hlast)

omit hsources in
theorem readBinary_alike {least : Nat} (hm : mode.Loosens mode')
    (hb : 16 * c.rest.length + 4 < bound + 1) (h : f.Ahead mode mode' c c') :
    StepsAlike f mode mode' (readBinary source mode least c) (readBinary source' mode' least c') := by
  intro s hs hlen hsettled
  rw [readBinary] at hs
  obtain ⟨left, hleft, hs⟩ := Reading.bind_ok hs
  obtain ⟨all, hall, hs⟩ := Reading.bind_ok hs
  cases hs
  change f.behind ≤ all.next.rest.length at hlen
  have h₁ := left.shorter
  have h₂ := all.notLonger
  obtain ⟨left', hleft', hstep⟩ := ih.readUnary hm (by omega) h left hleft (by omega)
    (settled_of_readOperations hm hall hsettled)
  obtain ⟨all', hall', halike, hvalue, hlast⟩ := ih.readOperations hm (by omega) hstep.rest
    (hstep.head.place source source') hstep.value all hall hlen hsettled
  rw [readBinary]
  simp only [hleft', bind, Except.bind, hall']
  exact ⟨_, rfl, halike, hstep.head.mono all.suffix, hstep.last.tail left.suffix left'.suffix hlast,
    hvalue⟩

theorem readOperations_alike {least start start' : Nat} {left left' : Expr}
    (hm : mode.Loosens mode') (hb : 16 * c.rest.length < bound + 1) (h : f.Alike c.rest c'.rest)
    (hstart : f.exact → f.place start start') (hleft : f.exact → left' = left) :
    TailsAlike f mode mode' (readOperations source mode least start left c)
      (readOperations source' mode' least start' left' c') := by
  intro s hs hlen hsettled
  have hbefore := settled_of_readOperations hm hs hsettled
  obtain ⟨hop, hvalue, hnext⟩ | ⟨strength, operator, right, all, hop, hright, hall, hvalue, hnext⟩ :=
    readOperations_cases hs
  · rw [readOperations, operator?_none hm h hbefore hop]
    refine ⟨_, rfl, ?_, ?_, .inl ⟨hnext, rfl⟩⟩
    · rw [hnext]
      exact h
    · rw [hvalue]
      exact hleft
  · rw [hnext] at hlen hsettled
    have h₁ := operator.shorter
    have h₂ := right.shorter
    have h₃ := all.notLonger
    obtain ⟨operator', hop', halike⟩ := operator?_some hm h hop (by omega)
    obtain ⟨right', hright', hstep⟩ := ih.readBinary hm (by omega) (ahead_of_alike hm halike) right
      hright (by omega) (settled_of_readOperations hm hall hsettled)
    have hlast := hstep.last.mono operator.suffix operator'.suffix
    have hoperation (hx : f.exact) : Expr.unknown (right'.next.sourceFrom source' start') =
        .unknown (right.next.sourceFrom source start) :=
      congrArg Expr.unknown (sourceFrom_eq hsources hx (hstart hx) hlast)
    obtain ⟨all', hall', halike, hvalue', htail⟩ := ih.readOperations hm (by omega) hstep.rest hstart
      hoperation all hall hlen hsettled
    rw [readOperations]
    simp only [hop', bind, Except.bind, hright', hall']
    refine ⟨_, rfl, ?_, ?_, .inr ?_⟩
    · rw [hnext]
      exact halike
    · rw [hvalue]
      exact hvalue'
    · rw [hnext]
      exact hlast.tail (right.suffix.trans operator.suffix) (right'.suffix.trans operator'.suffix)
        htail

theorem readUnary_alike (hm : mode.Loosens mode') (hb : 16 * c.rest.length + 3 < bound + 1)
    (h : f.Ahead mode mode' c c') :
    StepsAlike f mode mode' (readUnary source mode c) (readUnary source' mode' c') := by
  intro s hs hlen hsettled
  rw [readUnary] at hs
  split at hs
  · next hsign =>
    obtain ⟨s', hs', hstep⟩ := ih.readPostfix hm (by omega) h s hs hlen hsettled
    have hsign' : sign? mode' c' = none := hstep.head.takeIf?_none respects_sign hsign
    rw [readUnary, hsign']
    exact ⟨s', hs', hstep⟩
  · next sign hsign =>
    obtain ⟨operand, hoperand, hs⟩ := Reading.bind_ok hs
    cases hs
    change f.behind ≤ operand.next.rest.length at hlen
    have h₁ := sign.shorter
    have h₂ := operand.shorter
    obtain ⟨sign', hsign', hsame, halike⟩ := takeIf?_ahead h respects_sign
      (fun t ht => sign_end t (.inl ht)) hsign (by omega)
    obtain ⟨operand', hoperand', hstep⟩ := ih.readUnary hm (by omega) (ahead_of_alike hm halike)
      operand hoperand hlen hsettled
    have hlast := hstep.last.mono sign.suffix sign'.suffix
    rw [readUnary]
    simp only [show sign? mode' c' = some sign' from hsign', bind, Except.bind, hoperand']
    refine ⟨_, rfl, hstep.rest, ?_, hlast, fun hx => ?_⟩
    · exact (heads_of_take? (Cursor.take?_of_takeIf? hsign) (Cursor.take?_of_takeIf? hsign')
        hsame).mono operand.suffix
    · simp only [(hsame.exact hx).1, hstep.value hx,
        sourceFrom_eq hsources hx (hsame.exact hx).2.1 hlast]

omit hsources in
theorem readPostfix_alike (hm : mode.Loosens mode') (hb : 16 * c.rest.length + 2 < bound + 1)
    (h : f.Ahead mode mode' c c') :
    StepsAlike f mode mode' (readPostfix source mode c) (readPostfix source' mode' c') := by
  intro s hs hlen hsettled
  rw [readPostfix] at hs
  obtain ⟨first, hfirst, hs⟩ := Reading.bind_ok hs
  obtain ⟨all, hall, hs⟩ := Reading.bind_ok hs
  cases hs
  change f.behind ≤ all.next.rest.length at hlen
  have h₁ := first.shorter
  have h₂ := all.notLonger
  obtain ⟨first', hfirst', hstep⟩ := ih.readPrimary hm (by omega) h first hfirst (by omega)
    (settled_of_readSteps hm hall hsettled)
  obtain ⟨all', hall', halike, hvalue, hlast⟩ := ih.readSteps hm (by omega) hstep.rest
    (hstep.head.place source source') hstep.value all hall hlen hsettled
  rw [readPostfix]
  simp only [hfirst', bind, Except.bind, hall']
  exact ⟨_, rfl, halike, hstep.head.mono all.suffix, hstep.last.tail first.suffix first'.suffix hlast,
    hvalue⟩

omit hsources in
theorem readArguments_alike (hb : 16 * c.rest.length + 6 < bound + 1) (h : f.Alike c.rest c'.rest) :
    ListsAlike f (readArguments source c) (readArguments source' c') := by
  intro s hs hin
  have hm := LineMode.loosens_refl .ignored
  have hpeek := peek_inside source source' h (hin.of_suffix s.suffix)
  have hlen := hin.behind_lt
  rw [readArguments] at hs
  rw [readArguments, hpeek]
  split at hs
  · next hclose =>
    cases hs
    rw [if_pos hclose]
    exact ⟨_, rfl, h, fun _ => rfl⟩
  · next hclose =>
    rw [if_neg hclose]
    obtain ⟨first, hfirst, hs⟩ := Reading.bind_ok hs
    have h₁ := first.shorter
    have h₂ := (first.next.skip .ignored .ellipsis).notLonger
    have hread := ih.read hm (by omega) (ahead_of_alike hm h) first hfirst
    dsimp only at hs
    split at hs
    · next hcomma =>
      cases hs
      change f.behind < (first.next.skip .ignored .ellipsis).next.rest.length at hlen
      obtain ⟨first', hfirst', hstep⟩ := hread (by omega) (.inl rfl)
      have hskip := skip_alike .ignored (by decide) hstep.rest hlen.le
      simp only [hfirst', bind, Except.bind]
      rw [accept?_none (by decide) hm hskip (.inl rfl) hcomma]
      exact ⟨_, rfl, hskip, fun hx => congrArg (fun e => [e]) (hstep.value hx)⟩
    · next comma hcomma =>
      obtain ⟨more, hmore, hs⟩ := Reading.bind_ok hs
      cases hs
      change f.Inside more.next at hin
      change f.behind < more.next.rest.length at hlen
      have h₃ := comma.shorter
      have h₄ := more.notLonger
      obtain ⟨first', hfirst', hstep⟩ := hread (by omega) (.inl rfl)
      have hskip := skip_alike .ignored (show Token.Kind.ellipsis ≠ .newline ∧ _ by decide) hstep.rest
        (by omega)
      obtain ⟨comma', hcomma', -, halike⟩ := accept?_some (by decide) hm hskip hcomma (by omega)
      obtain ⟨more', hmore', halike, hvalue⟩ := ih.readArguments (by omega) halike more hmore hin
      simp only [hfirst', bind, Except.bind, hcomma', hmore']
      exact ⟨_, rfl, halike, fun hx => congrArg₂ List.cons (hstep.value hx) (hvalue hx)⟩

omit hsources in
theorem readItems_alike (hb : 16 * c.rest.length + 6 < bound + 1) (h : f.Alike c.rest c'.rest) :
    ListsAlike f (readItems source c) (readItems source' c') := by
  intro s hs hin
  have hm := LineMode.loosens_refl .ignored
  have hpeek := peek_inside source source' h (hin.of_suffix s.suffix)
  have hlen := hin.behind_lt
  rw [readItems] at hs
  rw [readItems, hpeek]
  split at hs
  · next hclose =>
    cases hs
    rw [if_pos hclose]
    exact ⟨_, rfl, h, fun _ => rfl⟩
  · next hclose =>
    rw [if_neg hclose]
    obtain ⟨first, hfirst, hs⟩ := Reading.bind_ok hs
    have h₁ := first.shorter
    have hread := ih.read hm (by omega) (ahead_of_alike hm h) first hfirst
    split at hs
    · next hcomma =>
      cases hs
      change f.behind < first.next.rest.length at hlen
      obtain ⟨first', hfirst', hstep⟩ := hread hlen.le (.inl rfl)
      simp only [hfirst', bind, Except.bind]
      rw [accept?_none (by decide) hm hstep.rest (.inl rfl) hcomma]
      exact ⟨_, rfl, hstep.rest, fun hx => congrArg (fun e => [e]) (hstep.value hx)⟩
    · next comma hcomma =>
      obtain ⟨more, hmore, hs⟩ := Reading.bind_ok hs
      cases hs
      change f.Inside more.next at hin
      change f.behind < more.next.rest.length at hlen
      have h₂ := comma.shorter
      have h₃ := more.notLonger
      obtain ⟨first', hfirst', hstep⟩ := hread (by omega) (.inl rfl)
      obtain ⟨comma', hcomma', -, halike⟩ := accept?_some (by decide) hm hstep.rest hcomma (by omega)
      obtain ⟨more', hmore', halike, hvalue⟩ := ih.readItems (by omega) halike more hmore hin
      simp only [hfirst', bind, Except.bind, hcomma', hmore']
      exact ⟨_, rfl, halike, fun hx => congrArg₂ List.cons (hstep.value hx) (hvalue hx)⟩

omit hsources in
theorem readPairs_alike (hb : 16 * c.rest.length + 6 < bound + 1) (h : f.Alike c.rest c'.rest) :
    ListsAlike f (readPairs source c) (readPairs source' c') := by
  intro s hs hin
  have hm := LineMode.loosens_refl .ignored
  have hpeek := peek_inside source source' h (hin.of_suffix s.suffix)
  have hlen := hin.behind_lt
  rw [readPairs] at hs
  rw [readPairs, hpeek]
  split at hs
  · next hclose =>
    cases hs
    rw [if_pos hclose]
    exact ⟨_, rfl, h, fun _ => rfl⟩
  · next hclose =>
    rw [if_neg hclose]
    split at hs
    · cases hs
    · next hend =>
      rw [if_neg hend]
      obtain ⟨key, hkey, hs⟩ := Reading.bind_ok hs
      have h₁ := key.shorter
      split at hs
      · cases hs
      · next separator hseparator =>
        obtain ⟨value, hvalue, hs⟩ := Reading.bind_ok hs
        obtain ⟨more, hmore, hs⟩ := Reading.bind_ok hs
        cases hs
        change f.Inside more.next at hin
        change f.behind < more.next.rest.length at hlen
        have h₂ := separator.shorter
        have h₃ := value.shorter
        have h₄ := (value.next.skip .ignored .comma).notLonger
        have h₅ := more.notLonger
        obtain ⟨key', hkey', hkeyAlike⟩ := ih.read hm (by omega) (ahead_of_alike hm h) key hkey
          (by omega) (.inl rfl)
        obtain ⟨separator', hseparator', -, halike⟩ := takeIf?_some hm hkeyAlike.rest
          (fun t t' ht => by simp only [ht.kind]) (fun t ht => by simp [ht]) hseparator (by omega)
        obtain ⟨value', hvalue', hvalueAlike⟩ := ih.read hm (by omega) (ahead_of_alike hm halike)
          value hvalue (by omega) (.inl rfl)
        have hskip := skip_alike .ignored (show Token.Kind.comma ≠ .newline ∧ _ by decide)
          hvalueAlike.rest (by omega)
        obtain ⟨more', hmore', halike, hmoreValue⟩ := ih.readPairs (by omega) hskip more hmore hin
        simp only [hkey', bind, Except.bind, hseparator', hvalue', hmore']
        refine ⟨_, rfl, halike, fun hx => congrArg₂ List.cons ?_ (hmoreValue hx)⟩
        exact congrArg₂ Prod.mk (hkeyAlike.value hx) (hvalueAlike.value hx)

omit hsources in
theorem readForValue_alike {closing : Token.Kind} (hb : 16 * c.rest.length + 6 < bound + 1)
    (h : f.Alike c.rest c'.rest) :
    RestsAlike f (readForValue source closing c) (readForValue source' closing c') := by
  intro s hs hlen
  have hm := LineMode.loosens_refl .ignored
  rw [readForValue] at hs
  rw [readForValue]
  split at hs
  · next hclosing =>
    rw [if_pos hclosing]
    obtain ⟨arrow, harrow, hs⟩ := Reading.bind_ok hs
    obtain ⟨value, hvalue, hs⟩ := Reading.bind_ok hs
    cases hs
    change f.behind ≤ (value.next.skip .ignored .ellipsis).next.rest.length at hlen
    have h₁ := arrow.shorter
    have h₂ := value.shorter
    have h₃ := (value.next.skip .ignored .ellipsis).notLonger
    obtain ⟨arrow', harrow', -, halike⟩ := expect_alike source' (by decide) hm h harrow (by omega)
    obtain ⟨value', hvalue', hstep⟩ := ih.read hm (by omega) (ahead_of_alike hm halike) value hvalue
      (by omega) (.inl rfl)
    simp only [harrow', bind, Except.bind, hvalue']
    exact ⟨_, rfl, skip_alike .ignored (by decide) hstep.rest hlen⟩
  · next hclosing =>
    rw [if_neg hclosing]
    cases hs
    exact ⟨_, rfl, h⟩

omit hsources in
theorem readForFilter_alike (hb : 16 * c.rest.length + 6 < bound + 1) (h : f.Alike c.rest c'.rest) :
    RestsAlike f (readForFilter source c) (readForFilter source' c') := by
  intro s hs hlen
  have hm := LineMode.loosens_refl .ignored
  have hend : ∀ t : Token, t.kind = .newline ∨ t.kind = .rbrace →
      t.isWord .ident "if".toList = false := isWord_end _ (by decide)
  have hword : f.Respects (Token.isWord .ident "if".toList) := respects_isWord _ (by decide)
  rw [readForFilter] at hs
  rw [readForFilter]
  unfold Cursor.acceptWord? at hs ⊢
  split at hs
  · next hif =>
    cases hs
    rw [takeIf?_none hm h (.inl rfl) hword hend hif]
    exact ⟨_, rfl, h⟩
  · next keyword hif =>
    obtain ⟨test, htest, hs⟩ := Reading.bind_ok hs
    cases hs
    change f.behind ≤ test.next.rest.length at hlen
    have h₁ := keyword.shorter
    have h₂ := test.shorter
    obtain ⟨keyword', hif', -, halike⟩ := takeIf?_some hm h hword (fun t ht => hend t (.inl ht)) hif
      (by omega)
    obtain ⟨test', htest', hstep⟩ := ih.read hm (by omega) (ahead_of_alike hm halike) test htest hlen
      (.inl rfl)
    simp only [hif', bind, Except.bind, htest']
    exact ⟨_, rfl, hstep.rest⟩

theorem readFor_alike {start start' : Nat} {closing : Token.Kind} (hc : closing ≠ .newline)
    (hb : 16 * c.rest.length + 6 < bound + 1) (h : f.Alike c.rest c'.rest)
    (hstart : f.exact → f.place start start') {s : Step Expr c}
    (hs : readFor source start closing c = .ok s) (hlen : f.behind ≤ s.next.rest.length) :
    ∃ s', readFor source' start' closing c' = .ok s' ∧ f.Alike s.next.rest s'.next.rest ∧
      (f.exact → s'.value = s.value) ∧ Lasts f c c' s.next s'.next := by
  have hm := LineMode.loosens_refl .ignored
  rw [readFor] at hs
  obtain ⟨keyword, hkeyword, hs⟩ := Reading.bind_ok hs
  obtain ⟨first, hfirst, hs⟩ := Reading.bind_ok hs
  obtain ⟨second, hsecond, hs⟩ := Reading.bind_ok hs
  obtain ⟨within, hwithin, hs⟩ := Reading.bind_ok hs
  obtain ⟨collection, hcollection, hs⟩ := Reading.bind_ok hs
  obtain ⟨colon, hcolon, hs⟩ := Reading.bind_ok hs
  obtain ⟨item, hitem, hs⟩ := Reading.bind_ok hs
  obtain ⟨value, hvalue, hs⟩ := Reading.bind_ok hs
  obtain ⟨filter, hfilter, hs⟩ := Reading.bind_ok hs
  obtain ⟨close, hclose, hs⟩ := Reading.bind_ok hs
  cases hs
  change f.behind ≤ close.next.rest.length at hlen
  have h₁ := keyword.shorter
  have h₂ := first.shorter
  have h₃ := second.notLonger
  have h₄ := within.shorter
  have h₅ := collection.shorter
  have h₆ := colon.shorter
  have h₇ := item.shorter
  have h₈ := value.notLonger
  have h₉ := filter.notLonger
  have h₁₀ := close.shorter
  obtain ⟨keyword', hkeyword', halike⟩ := expectWord_alike source' h hkeyword (by omega)
  obtain ⟨first', hfirst', -, halike⟩ := expect_alike source' (by decide) hm halike hfirst (by omega)
  obtain ⟨second', hsecond', halike⟩ := secondName_alike source' halike second hsecond
    (by omega)
  obtain ⟨within', hwithin', halike⟩ := expectWord_alike source' halike hwithin (by omega)
  obtain ⟨collection', hcollection', hstep⟩ := ih.read hm (by omega) (ahead_of_alike hm halike)
    collection hcollection (by omega) (.inl rfl)
  obtain ⟨colon', hcolon', -, halike⟩ := expect_alike source' (by decide) hm hstep.rest hcolon
    (by omega)
  obtain ⟨item', hitem', hstep⟩ := ih.read hm (by omega) (ahead_of_alike hm halike) item hitem
    (by omega) (.inl rfl)
  obtain ⟨value', hvalue', halike⟩ := ih.readForValue (by omega) hstep.rest value hvalue (by omega)
  obtain ⟨filter', hfilter', halike⟩ := ih.readForFilter (by omega) halike filter hfilter (by omega)
  obtain ⟨close', hclose', hsame, halike⟩ := expect_alike source' hc hm halike hclose hlen
  have hlast : Lasts f c c' close.next close'.next := (lasts_of_expect hclose hclose' hsame).mono
    (filter.suffix.trans (value.suffix.trans (item.suffix.trans (colon.suffix.trans
      (collection.suffix.trans (within.suffix.trans (second.suffix.trans (first.suffix.trans
        keyword.suffix))))))))
    (filter'.suffix.trans (value'.suffix.trans (item'.suffix.trans (colon'.suffix.trans
      (collection'.suffix.trans (within'.suffix.trans (second'.suffix.trans (first'.suffix.trans
        keyword'.suffix))))))))
  rw [readFor]
  simp only [hkeyword', bind, Except.bind, hfirst', hsecond', hwithin', hcollection', hcolon', hitem',
    hvalue', hfilter', hclose']
  exact ⟨_, rfl, halike,
    fun hx => congrArg Expr.unknown (sourceFrom_eq hsources hx (hstart hx) hlast), hlast⟩

omit hsources in
theorem readStep_alike {first first' : Token} (hm : mode.Loosens mode') (hfirst : f.Same first first')
    (hb : 16 * c.rest.length + 6 < bound + 1) (h : f.Alike c.rest c'.rest) :
    FoundAlike f (readStep source mode first c) (readStep source' mode' first' c') := by
  intro s hs hlen
  have hsplat : f.Respects (Token.isWord .operator ['*']) := respects_isWord _ (by decide)
  have hend : ∀ t : Token, t.kind = .newline ∨ t.kind = .rbrace →
      t.isWord .operator ['*'] = false := isWord_end _ (by decide)
  have hin := LineMode.loosens_refl .ignored
  rw [readStep] at hs
  rw [readStep, hfirst.kind]
  by_cases hdot : first.kind = .dot
  · rw [if_pos hdot] at hs ⊢
    cases htake : c.take? mode with
    | none =>
      rw [htake] at hs
      cases hs
    | some name =>
      rw [htake] at hs
      dsimp only at hs
      have hname : name.value.kind ≠ .newline ∧ s.next = name.next := by
        split at hs
        · next hk =>
          cases hs
          refine ⟨fun hn => ?_, rfl⟩
          simp [hn] at hk
        · split at hs
          · next hk =>
            cases hs
            refine ⟨fun hn => ?_, rfl⟩
            rw [hend _ (.inl hn)] at hk
            cases hk
          · cases hs
      rw [hname.2] at hlen
      obtain ⟨t', us', hview', hsame, halike⟩ :=
        ahead_of_alike hm h _ _ (Cursor.view_of_take? htake) hname.1 hlen
      obtain ⟨name', htake', rfl, rfl⟩ := Cursor.take?_of_view hview'
      have hlast := lasts_of_take? htake htake' hsame
      rw [htake']
      simp only [hsame.kind, hsplat _ _ hsame]
      split at hs
      · next hk =>
        cases hs
        rw [if_pos hk]
        exact ⟨_, rfl, halike, fun _ => rfl, hlast⟩
      · next hk =>
        rw [if_neg hk]
        split at hs
        · next hk =>
          cases hs
          rw [if_pos hk]
          exact ⟨_, rfl, halike, fun _ => rfl, hlast⟩
        · cases hs
  · rw [if_neg hdot] at hs ⊢
    by_cases hbrack : first.kind = .lbrack
    · rw [if_pos hbrack] at hs ⊢
      cases hsplats : c.takeIf? .ignored (Token.isWord .operator ['*']) with
      | some splat =>
        rw [hsplats] at hs
        obtain ⟨close, hclose, hs⟩ := Reading.bind_ok hs
        cases hs
        change f.behind ≤ close.next.rest.length at hlen
        have h₁ := close.shorter
        obtain ⟨splat', hsplat', -, halike⟩ := takeIf?_some hin h hsplat
          (fun t ht => hend t (.inl ht)) hsplats (by omega)
        obtain ⟨close', hclose', hsame, halike⟩ := expect_alike source' (by decide) hm halike hclose
          hlen
        simp only [hsplat', bind, Except.bind, hclose']
        exact ⟨_, rfl, halike, fun _ => rfl,
          (lasts_of_expect hclose hclose' hsame).mono splat.suffix splat'.suffix⟩
      | none =>
        rw [hsplats] at hs
        rw [takeIf?_none hin h (.inl rfl) hsplat hend hsplats]
        obtain ⟨key, hkey, hs⟩ := Reading.bind_ok hs
        obtain ⟨close, hclose, hs⟩ := Reading.bind_ok hs
        cases hs
        change f.behind ≤ close.next.rest.length at hlen
        have h₁ := key.shorter
        have h₂ := close.shorter
        obtain ⟨key', hkey', hstep⟩ := ih.read hin (by omega) (ahead_of_alike hin h) key hkey
          (by omega) (.inl rfl)
        obtain ⟨close', hclose', hsame, halike⟩ := expect_alike source' (by decide) hin hstep.rest
          hclose hlen
        simp only [bind, Except.bind, hkey', hclose']
        exact ⟨_, rfl, halike, fun hx => congrArg Expr.isStaticIndex (hstep.value hx),
          (lasts_of_expect hclose hclose' hsame).mono key.suffix key'.suffix⟩
    · rw [if_neg hbrack] at hs
      cases hs

theorem readSteps_alike {start start' : Nat} {before before' : Expr} (hm : mode.Loosens mode')
    (hb : 16 * c.rest.length < bound + 1) (h : f.Alike c.rest c'.rest)
    (hstart : f.exact → f.place start start') (hbefore : f.exact → before' = before) :
    TailsAlike f mode mode' (readSteps source mode start before c)
      (readSteps source' mode' start' before' c') := by
  intro s hs hlen hsettled
  have hnext := next_of_alike hm h (settled_of_readSteps hm hs hsettled)
  generalize hview : c.view mode = ts at hnext
  generalize hview' : c'.view mode' = ts' at hnext
  obtain ⟨hnone, hvalue, hsame⟩ | ⟨first, step, all, hfirst, hstep, hall, hvalue, hsame⟩ :=
    readSteps_cases hs
  · have hnone' : ∀ t us, c'.view mode' = t :: us → ¬ BeginsStep t := by
      intro t' us' heq
      rw [hview'] at heq
      cases hnext with
      | same ht _ =>
        cases heq
        rw [BeginsStep, ht.kind]
        exact hnone _ _ hview
      | ended _ hstop' =>
        obtain hk | hk := hstop' _ _ heq <;> simp [BeginsStep, hk]
    refine ⟨_, readSteps_none hnone', ?_, ?_, .inl ⟨hsame, rfl⟩⟩
    · rw [hsame]
      exact h
    · rw [hvalue]
      exact hbefore
  · rw [hsame] at hlen hsettled
    have h₁ := first.shorter
    have h₂ := step.shorter
    have h₃ := all.notLonger
    obtain ⟨t', us', heq, ht, halike⟩ := ahead_of_alike hm h _ _ (Cursor.view_of_take? hfirst)
      (beginsStep_of_some hstep).ne_newline (by omega)
    obtain ⟨first', hfirst', rfl, rfl⟩ := Cursor.take?_of_view heq
    obtain ⟨step', hstep', halike, hstatic, hlast⟩ := ih.readStep hm ht (by omega) halike step hstep
      (by omega)
    have hlast := hlast.mono first.suffix first'.suffix
    have hstepped (hx : f.exact) :
        before'.withStep step'.value (step'.next.sourceFrom source' start') =
          before.withStep step.value (step.next.sourceFrom source start) := by
      rw [hbefore hx, hstatic hx, sourceFrom_eq hsources hx (hstart hx) hlast]
    obtain ⟨all', hall', halike, hvalue', htail⟩ := ih.readSteps hm (by omega) halike hstart hstepped
      all hall hlen hsettled
    rw [readSteps, hfirst']
    simp only [hstep', bind, Except.bind, hall']
    refine ⟨_, rfl, ?_, ?_, .inr ?_⟩
    · rw [hsame]
      exact halike
    · rw [hvalue]
      exact hvalue'
    · rw [hsame]
      exact hlast.tail (step.suffix.trans first.suffix) (step'.suffix.trans first'.suffix) htail

omit hsources in
/-- A call between its name and its closing parenthesis. -/
theorem readCall_alike {first : Step Token c} {first' : Step Token c'} (hm : mode.Loosens mode')
    (hb : 16 * first.next.rest.length + 6 < bound + 1)
    (h : f.Alike first.next.rest first'.next.rest) {names : Tail (List Text) first.next}
    (hnames : nameTail source mode first.next = .ok names) {paren : Step Token names.next}
    (hparen : names.next.expect source mode .lparen = .ok paren)
    {args : Tail (List Expr) paren.next} (hargs : readArguments source paren.next = .ok args)
    {close : Step Token args.next} (hclose : args.next.expect source .ignored .rparen = .ok close)
    (hlen : f.behind ≤ close.next.rest.length) :
    ∃ (names' : Tail (List Text) first'.next) (paren' : Step Token names'.next)
      (args' : Tail (List Expr) paren'.next) (close' : Step Token args'.next),
      nameTail source' mode' first'.next = .ok names' ∧
      names'.next.expect source' mode' .lparen = .ok paren' ∧
      readArguments source' paren'.next = .ok args' ∧
      args'.next.expect source' .ignored .rparen = .ok close' ∧
      f.Alike close.next.rest close'.next.rest ∧ names'.value = names.value ∧
      (f.exact → args'.value = args.value) ∧
      Lasts f first.next first'.next close.next close'.next := by
  have h₁ := names.notLonger
  have h₂ := paren.shorter
  have h₃ := args.notLonger
  have h₄ := close.shorter
  obtain ⟨names', hnames', halike, hvalue⟩ := nameTail_alike source' hm h names hnames (by omega)
    (settled_of_expect (by decide) hm hparen)
  obtain ⟨paren', hparen', -, halike⟩ := expect_alike source' (by decide) hm halike hparen (by omega)
  obtain ⟨args', hargs', halike, hargsValue⟩ := ih.readArguments (by omega) halike args hargs
    (inside_of_expect hclose hlen)
  obtain ⟨close', hclose', hsame, halike⟩ := expect_alike source' (by decide)
    (LineMode.loosens_refl _) halike hclose hlen
  exact ⟨names', paren', args', close', hnames', hparen', hargs', hclose', halike, hvalue, hargsValue,
    (lasts_of_expect hclose hclose' hsame).mono
      (args.suffix.trans (paren.suffix.trans names.suffix))
      (args'.suffix.trans (paren'.suffix.trans names'.suffix))⟩

theorem readPrimary_alike (hm : mode.Loosens mode') (hb : 16 * c.rest.length + 1 < bound + 1)
    (h : f.Ahead mode mode' c c') :
    StepsAlike f mode mode' (readPrimary source mode c) (readPrimary source' mode' c') := by
  intro s hs hlen hsettled
  have hin := LineMode.loosens_refl .ignored
  obtain ⟨first, hfirst, hn, hsuffix⟩ := begins_readPrimary hs
  have h₀ := hsuffix.length_le
  obtain ⟨t', us', hview', hsame, hrest⟩ := h _ _ (Cursor.view_of_take? hfirst) hn (by omega)
  obtain ⟨first', hfirst', rfl, rfl⟩ := Cursor.take?_of_view hview'
  have hhead := (heads_of_take? hfirst hfirst' hsame).mono hsuffix
  have hone := lasts_of_take? hfirst hfirst' hsame
  have hstart : f.exact → f.place first.value.start.offset first'.value.start.offset :=
    fun hx => (hsame.exact hx).2.1
  have h₁ := first.shorter
  rw [readPrimary, hfirst] at hs
  rw [readPrimary, hfirst']
  dsimp only at hs ⊢
  rw [hsame.kind]
  cases hk : first.value.kind with
  | number =>
    rw [hk] at hs
    cases hs
    exact ⟨_, rfl, hrest, hhead, hone, fun hx => congrArg Expr.literal (hsame.exact hx).1⟩
  | string =>
    rw [hk] at hs
    cases hs
    exact ⟨_, rfl, hrest, hhead, hone, fun hx => by simp only [(hsame.exact hx).1]⟩
  | heredoc =>
    rw [hk] at hs
    cases hs
    exact ⟨_, rfl, hrest, hhead, hone, fun hx => by simp only [(hsame.exact hx).1]⟩
  | ident =>
    rw [hk] at hs
    dsimp only at hs ⊢
    have htext := hsame.text (by rw [hk]; decide) (by rw [hk]; decide)
    have hkeyword : isKeyword first'.value = isKeyword first.value := by
      unfold isKeyword
      rw [htext]
    rw [hkeyword]
    split at hs
    · next hword =>
      rw [if_pos hword]
      cases hs
      exact ⟨_, rfl, hrest, hhead, hone, fun _ => congrArg Expr.literal htext⟩
    · next hword =>
      rw [if_neg hword]
      split at hs
      · next hcall =>
        obtain ⟨names, hnames, hs⟩ := Reading.bind_ok hs
        obtain ⟨paren, hparen, hs⟩ := Reading.bind_ok hs
        obtain ⟨args, hargs, hs⟩ := Reading.bind_ok hs
        obtain ⟨close, hclose, hs⟩ := Reading.bind_ok hs
        cases hs
        change f.behind ≤ close.next.rest.length at hlen
        obtain ⟨names', paren', args', close', hnames', hparen', hargs', hclose', halike, hnamesValue,
          hargsValue, hlast⟩ :=
          readCall_alike ih hm (by omega) hrest hnames hparen hargs hclose hlen
        have h₂ := args.notLonger
        have h₃ := close.shorter
        have hcall' : callFollows source' mode' first'.value first'.next = true :=
          callFollows_true hsame hm hrest hnames hparen (by omega) hcall
        have hlast := hlast.mono first.suffix first'.suffix
        rw [if_pos hcall']
        simp only [hnames', bind, Except.bind, hparen', hargs', hclose']
        refine ⟨_, rfl, halike, hhead, hlast, fun hx => ?_⟩
        simp only [htext, hnamesValue, hargsValue hx, sourceFrom_eq hsources hx (hstart hx) hlast]
      · next hcall =>
        cases hs
        rw [if_neg (by
          rw [callFollows_false hsources.ending hsame hm hrest hsettled (Bool.eq_false_iff.mpr hcall)]
          decide)]
        exact ⟨_, rfl, hrest, hhead, hone, fun _ => by simp only [htext]⟩
  | lbrack =>
    rw [hk] at hs
    dsimp only at hs ⊢
    split at hs
    · next hfor =>
      obtain ⟨all, hall, hs⟩ := Reading.bind_ok hs
      cases hs
      obtain ⟨all', hall', halike, hvalue, hlast⟩ := ih.readFor (by decide) (by omega) hrest hstart all
        hall hlen
      rw [if_pos (atFor_of_readFor hall')]
      simp only [hall', bind, Except.bind]
      exact ⟨_, rfl, halike, hhead, hlast.mono first.suffix first'.suffix, hvalue⟩
    · next hfor =>
      obtain ⟨items, hitems, hs⟩ := Reading.bind_ok hs
      obtain ⟨close, hclose, hs⟩ := Reading.bind_ok hs
      cases hs
      change f.behind ≤ close.next.rest.length at hlen
      have hinside := inside_of_expect hclose hlen
      obtain ⟨items', hitems', halike, hvalue⟩ := ih.readItems (by omega) hrest items hitems hinside
      obtain ⟨close', hclose', hcloses, halike⟩ := expect_alike source' (by decide) hin halike hclose
        hlen
      have hlast : Lasts f c c' close.next close'.next := (lasts_of_expect hclose hclose' hcloses).mono
        (items.suffix.trans first.suffix) (items'.suffix.trans first'.suffix)
      rw [if_neg (by
        rw [atFor_false hsources.ending hrest (hinside.of_suffix items.suffix)
          (Bool.eq_false_iff.mpr hfor)]
        decide)]
      simp only [hitems', bind, Except.bind, hclose']
      refine ⟨_, rfl, halike, hhead, hlast, fun hx => ?_⟩
      simp only [hvalue hx, sourceFrom_eq hsources hx (hstart hx) hlast]
  | lbrace =>
    rw [hk] at hs
    dsimp only at hs ⊢
    split at hs
    · next hfor =>
      obtain ⟨all, hall, hs⟩ := Reading.bind_ok hs
      cases hs
      obtain ⟨all', hall', halike, hvalue, hlast⟩ := ih.readFor (by decide) (by omega) hrest hstart all
        hall hlen
      rw [if_pos (atFor_of_readFor hall')]
      simp only [hall', bind, Except.bind]
      exact ⟨_, rfl, halike, hhead, hlast.mono first.suffix first'.suffix, hvalue⟩
    · next hfor =>
      obtain ⟨pairs, hpairs, hs⟩ := Reading.bind_ok hs
      obtain ⟨close, hclose, hs⟩ := Reading.bind_ok hs
      cases hs
      change f.behind ≤ close.next.rest.length at hlen
      have hinside := inside_of_expect hclose hlen
      obtain ⟨pairs', hpairs', halike, hvalue⟩ := ih.readPairs (by omega) hrest pairs hpairs hinside
      obtain ⟨close', hclose', hcloses, halike⟩ := expect_alike source' (by decide) hin halike hclose
        hlen
      have hlast : Lasts f c c' close.next close'.next := (lasts_of_expect hclose hclose' hcloses).mono
        (pairs.suffix.trans first.suffix) (pairs'.suffix.trans first'.suffix)
      rw [if_neg (by
        rw [atFor_false hsources.ending hrest (hinside.of_suffix pairs.suffix)
          (Bool.eq_false_iff.mpr hfor)]
        decide)]
      simp only [hpairs', bind, Except.bind, hclose']
      refine ⟨_, rfl, halike, hhead, hlast, fun hx => ?_⟩
      simp only [hvalue hx, sourceFrom_eq hsources hx (hstart hx) hlast]
  | lparen =>
    rw [hk] at hs
    dsimp only at hs ⊢
    obtain ⟨inner, hinner, hs⟩ := Reading.bind_ok hs
    obtain ⟨close, hclose, hs⟩ := Reading.bind_ok hs
    cases hs
    change f.behind ≤ close.next.rest.length at hlen
    have h₂ := inner.shorter
    have h₃ := close.shorter
    obtain ⟨inner', hinner', hstep⟩ := ih.read hin (by omega) (ahead_of_alike hin hrest) inner hinner
      (by omega) (.inl rfl)
    obtain ⟨close', hclose', hcloses, halike⟩ := expect_alike source' (by decide) hin hstep.rest hclose
      hlen
    have hlast : Lasts f c c' close.next close'.next := (lasts_of_expect hclose hclose' hcloses).mono
      (inner.suffix.trans first.suffix) (inner'.suffix.trans first'.suffix)
    simp only [hinner', bind, Except.bind, hclose']
    refine ⟨_, rfl, halike, hhead, hlast, fun hx => ?_⟩
    simp only [hstep.value hx, sourceFrom_eq hsources hx (hstart hx) hlast]
  | _ =>
    rw [hk] at hs
    cases hs

theorem keepsStep_succ : KeepsStep f source source' (bound + 1) where
  read hm hb h := read_alike hsources ih hm hb h
  readBinary hm hb h := readBinary_alike ih hm hb h
  readOperations hm hb h hstart hleft := readOperations_alike hsources ih hm hb h hstart hleft
  readUnary hm hb h := readUnary_alike hsources ih hm hb h
  readPostfix hm hb h := readPostfix_alike ih hm hb h
  readSteps hm hb h hstart hbefore := readSteps_alike hsources ih hm hb h hstart hbefore
  readStep hm hfirst hb h := readStep_alike ih hm hfirst hb h
  readPrimary hm hb h := readPrimary_alike hsources ih hm hb h
  readArguments hb h := readArguments_alike ih hb h
  readItems hb h := readItems_alike ih hb h
  readPairs hb h := readPairs_alike ih hb h
  readFor hc hb h hstart _ hs hlen := readFor_alike hsources ih hc hb h hstart hs hlen
  readForValue hb h := readForValue_alike ih hb h
  readForFilter hb h := readForFilter_alike ih hb h

end Functions

theorem keepsStep (hsources : f.Sources source source') (bound : Nat) :
    KeepsStep f source source' bound := by
  induction bound with
  | zero => constructor <;> intros <;> omega
  | succ bound ih => exact keepsStep_succ hsources ih

/-- An expression is read alike from cursors that read alike. -/
theorem stepsAlike_read (hsources : f.Sources source source') (hm : mode.Loosens mode')
    (h : f.Ahead mode mode' c c') :
    StepsAlike f mode mode' (read source mode c) (read source' mode' c') :=
  (keepsStep hsources (16 * c.rest.length + 6)).read hm (by omega) h

end HclTidy.Expr
