import HclTidy.Proofs.Token.Fits

/-!
# Changing the text behind a token

A token does not read on behind a separator. So it still fits when the text behind it is exchanged
from some place on for a text that stops there; only a token that runs to the end of its line needs
that end to stay.
-/

set_option autoImplicit false

namespace HclTidy.Token

/-- Heredocs and line comments end with their line. -/
def endsLine (kind : Kind) (text : Text) : Bool :=
  kind = .heredoc || (kind = .comment && !(['/', '*'].isPrefixOf text))

theorem endsLine_lineComment {c : Char} {t : Text} (hc : c = '#' ∨ c = '/' ∧ ['/'] <+: t) :
    endsLine .comment (c :: t) = true := by
  obtain rfl | ⟨rfl, u, rfl⟩ := hc <;> rfl

/-- A token that ends with its line has a line feed or nothing behind it. -/
theorem fits_endsLine {kind : Kind} {text after : Text} (h : Fits kind text after)
    (he : endsLine kind text = true) : EndsLine after := by
  cases h with
  | lineComment _ _ ha => exact ha
  | heredoc _ _ _ _ _ hcl =>
    clear he
    induction hcl with
    | last _ _ ha => exact ha
    | more _ _ _ ih => exact ih
  | blockComment => cases he
  | newline => cases he
  | string => cases he
  | number => cases he
  | ident => cases he
  | symbol _ _ hs =>
    rename_i n
    have hk : ∀ k ∈ symbolKinds, k ≠ .heredoc ∧ k ≠ .comment := by decide
    obtain ⟨hheredoc, hcomment⟩ := hk _ (symbol?_kind hs)
    simp [endsLine, hheredoc, hcomment] at he

theorem fractionLength_of_ne {c : Char} (t : Text) (h : c ≠ '.') : fractionLength (c :: t) = 0 := by
  unfold fractionLength
  split
  · next heq =>
    cases heq
    exact absurd rfl h
  · rfl

theorem fractionLength_point (c : Char) (t : Text) : fractionLength ('.' :: c :: t) =
    if Text.isDigit c then 2 + (t.takeWhile Text.isDigit).length else 0 := rfl

theorem exponentLength_of_ne {c : Char} (t : Text) (h : (c = 'e' || c = 'E') = false) :
    exponentLength (c :: t) = 0 := by
  rw [exponentLength.eq_def]
  exact if_neg (by rw [h]; exact Bool.false_ne_true)

theorem exponentLength_cons {c : Char} (s : Char) (t : Text) (h : (c = 'e' || c = 'E') = true) :
    exponentLength (c :: s :: t) =
      if s = '+' || s = '-' then
        if (t.takeWhile Text.isDigit).length = 0 then 0 else 2 + (t.takeWhile Text.isDigit).length
      else if ((s :: t).takeWhile Text.isDigit).length = 0 then 0
      else 1 + ((s :: t).takeWhile Text.isDigit).length := by
  rw [exponentLength.eq_def]
  exact if_pos h

section Lengths

variable {x x' : Text} (hx : Stops x')
include hx

theorem stops_takeWhile {p : Char → Bool} (hp : ∀ c, isSeparator c = true → p c = false) (a : Text)
    (h : ((a ++ x).takeWhile p).length ≤ a.length) :
    ((a ++ x').takeWhile p).length = ((a ++ x).takeWhile p).length := by
  induction a with
  | nil =>
    cases x' with
    | nil => exact (Nat.le_zero.mp h).symm
    | cons c x' =>
      have hc := hp c (hx c rfl)
      rw [List.nil_append, List.takeWhile_cons_of_neg (by simp [hc])]
      exact (Nat.le_zero.mp h).symm
  | cons c a ih =>
    rw [List.cons_append, List.cons_append]
    cases hc : p c with
    | true =>
      rw [List.cons_append, List.takeWhile_cons_of_pos hc] at h
      rw [List.takeWhile_cons_of_pos hc, List.takeWhile_cons_of_pos hc, List.length_cons,
        List.length_cons, ih (Nat.le_of_succ_le_succ h)]
    | false =>
      rw [List.takeWhile_cons_of_neg (by simp [hc]), List.takeWhile_cons_of_neg (by simp [hc])]

theorem stops_fractionLength (a : Text) (h : fractionLength (a ++ x) ≤ a.length) :
    fractionLength (a ++ x') = fractionLength (a ++ x) := by
  match a with
  | [] =>
    rw [Nat.le_zero.mp h, List.nil_append]
    cases x' with
    | nil => rfl
    | cons c x' => exact fractionLength_of_ne x' (separator_ne (hx c rfl) (by decide))
  | [d] =>
    rw [List.singleton_append] at h ⊢
    by_cases hd : d = '.'
    · subst hd
      have hzero : fractionLength ('.' :: x) = 0 := by
        cases x with
        | nil => rfl
        | cons c x =>
          rw [fractionLength_point] at h ⊢
          split at h
          · simp at h
            omega
          · next hc => rw [if_neg hc]
      rw [List.singleton_append, hzero]
      cases x' with
      | nil => rfl
      | cons c x' =>
        rw [fractionLength_point, if_neg]
        rw [(separator_notWord (hx c rfl)).2.2]
        exact Bool.false_ne_true
    · exact (fractionLength_of_ne x' hd).trans (fractionLength_of_ne x hd).symm
  | d :: e :: a =>
    rw [List.cons_append, List.cons_append] at h ⊢
    rw [List.cons_append, List.cons_append]
    by_cases hd : d = '.'
    · subst hd
      rw [fractionLength_point] at h ⊢
      rw [fractionLength_point]
      split
      · next hc =>
        rw [if_pos hc] at h
        rw [stops_takeWhile hx (fun c hc => (separator_notWord hc).2.2) a]
        simp only [List.length_cons] at h
        omega
      · rfl
    · exact (fractionLength_of_ne _ hd).trans (fractionLength_of_ne _ hd).symm

theorem stops_exponentLength (a : Text) (h : exponentLength (a ++ x) ≤ a.length) :
    exponentLength (a ++ x') = exponentLength (a ++ x) := by
  have hdigit : ∀ c, isSeparator c = true → Text.isDigit c = false := fun c hc =>
    (separator_notWord hc).2.2
  match a with
  | [] =>
    rw [Nat.le_zero.mp h, List.nil_append]
    cases x' with
    | nil => rfl
    | cons c x' =>
      refine exponentLength_of_ne x' ?_
      simp [separator_ne (hx c rfl) (show isSeparator 'e' = false by decide),
        separator_ne (hx c rfl) (show isSeparator 'E' = false by decide)]
  | [e] =>
    rw [List.singleton_append] at h ⊢
    rw [List.singleton_append]
    cases he : (e = 'e' || e = 'E' : Bool) with
    | false => exact (exponentLength_of_ne x' he).trans (exponentLength_of_ne x he).symm
    | true =>
      have hzero : exponentLength (e :: x) = 0 := by
        cases x with
        | nil => rw [exponentLength, if_pos he]
        | cons s x =>
          rw [exponentLength_cons s x he] at h ⊢
          rw [List.length_singleton] at h
          split at h
          · next hs => rw [if_pos hs]; split at h <;> [rw [if_pos ‹_›]; omega]
          · next hs => rw [if_neg hs]; split at h <;> [rw [if_pos ‹_›]; omega]
      rw [hzero]
      cases x' with
      | nil => rw [exponentLength, if_pos he]
      | cons s x' =>
        have hs := hx s rfl
        have hsign : ¬ (s = '+' || s = '-' : Bool) = true := by
          simp [separator_ne hs (show isSeparator '+' = false by decide),
            separator_ne hs (show isSeparator '-' = false by decide)]
        rw [exponentLength_cons s x' he, if_neg hsign,
          List.takeWhile_cons_of_neg (by simp [hdigit s hs])]
        rfl
  | e :: s :: a =>
    rw [List.cons_append, List.cons_append] at h ⊢
    rw [List.cons_append, List.cons_append]
    cases he : (e = 'e' || e = 'E' : Bool) with
    | false => exact (exponentLength_of_ne _ he).trans (exponentLength_of_ne _ he).symm
    | true =>
      rw [exponentLength_cons s _ he] at h ⊢
      rw [exponentLength_cons s _ he]
      simp only [List.length_cons] at h
      split
      · next hs =>
        rw [if_pos hs] at h
        have hw : ((a ++ x).takeWhile Text.isDigit).length ≤ a.length := by split at h <;> omega
        rw [stops_takeWhile hx hdigit a hw]
      · next hs =>
        rw [if_neg hs] at h
        have hw : ((s :: a ++ x).takeWhile Text.isDigit).length ≤ (s :: a).length := by
          rw [List.cons_append, List.length_cons]
          split at h <;> omega
        have hsame := stops_takeWhile hx hdigit (s :: a) hw
        rw [List.cons_append, List.cons_append] at hsame
        rw [hsame]

theorem stops_numberLength (a : Text) (h : numberLength (a ++ x) ≤ a.length) :
    numberLength (a ++ x') = numberLength (a ++ x) := by
  have hw := stops_takeWhile (x := x) hx (p := Text.isDigit) (fun c hc => (separator_notWord hc).2.2) a
  unfold numberLength at h ⊢
  dsimp only at h ⊢
  have hwhole : ((a ++ x).takeWhile Text.isDigit).length ≤ a.length := by omega
  rw [hw hwhole]
  generalize ((a ++ x).takeWhile Text.isDigit).length = whole at h hwhole
  rw [List.drop_append_of_le_length hwhole] at h ⊢
  rw [List.drop_append_of_le_length hwhole]
  have hf := stops_fractionLength (x := x) hx (a.drop whole) (by rw [List.length_drop]; omega)
  rw [hf]
  generalize fractionLength (a.drop whole ++ x) = fraction at h
  have hsum : whole + fraction ≤ a.length := by omega
  rw [List.drop_append_of_le_length hsum] at h ⊢
  rw [List.drop_append_of_le_length hsum]
  rw [stops_exponentLength (x := x) hx (a.drop (whole + fraction)) (by rw [List.length_drop]; omega)]

end Lengths

theorem eq_nil_of_length {t : Text} (h : 0 = t.length) : t = [] := List.eq_nil_of_length_eq_zero h.symm

theorem eq_singleton_of_length {t after rest : Text} {c : Char} (h : 1 = t.length)
    (heq : t ++ after = c :: rest) : t = [c] := by
  obtain ⟨d, rfl⟩ := List.length_eq_one_iff.mp h.symm
  cases heq
  rfl

theorem symbol?_of_meets {kind : Kind} {c : Char} {t after after' : Text}
    (h : symbol? c (t ++ after) = some (kind, t.length)) (hm : Meets after after') :
    symbol? c (t ++ after') = some (kind, t.length) := by
  have hlong {d : Char} {u : Text} (hu : after' = d :: u) (hd : isSeparator d = false) :
      ∃ v, after = d :: v := by
    obtain ⟨v, hv⟩ := prefix_of_meets (p := [d]) (by simpa using hd) hm ⟨u, hu.symm⟩
    exact ⟨v, hv.symm⟩
  have hpoints {u : Text} (hu : after' = '.' :: '.' :: u) : ∃ v, after = '.' :: '.' :: v := by
    obtain ⟨v, hv⟩ := prefix_of_meets (p := ['.', '.'])
      (List.forall_mem_cons.mpr ⟨rfl, List.forall_mem_singleton.mpr rfl⟩) hm ⟨u, hu.symm⟩
    exact ⟨v, hv.symm⟩
  unfold symbol? at h
  split at h
  case h_1 rest heq =>
    simp only [Option.some.injEq, Prod.mk.injEq] at h
    obtain ⟨rfl, hlen⟩ := h
    obtain ⟨d, e, rfl⟩ := List.length_eq_two.mp hlen.symm
    cases heq
    rfl
  case h_10 h₁ h₂ h₃ h₄ h₅ h₆ h₇ h₈ h₉ =>
    have hlen : 0 = t.length := by
      split at h
      · simp only [Option.some.injEq, Prod.mk.injEq] at h
        exact h.2
      · split at h
        · simp only [Option.some.injEq, Prod.mk.injEq] at h
          exact h.2
        · cases h
    obtain rfl := eq_nil_of_length hlen
    rw [List.nil_append] at *
    unfold symbol?
    split
    case h_1 =>
      obtain ⟨v, hv⟩ := hpoints rfl
      exact (h₁ v rfl hv).elim
    case h_10 => exact h
    all_goals
      obtain ⟨v, hv⟩ := hlong rfl (by decide)
      first
        | exact (h₂ v rfl hv).elim
        | exact (h₃ v rfl hv).elim
        | exact (h₄ v rfl hv).elim
        | exact (h₅ v rfl hv).elim
        | exact (h₆ v rfl hv).elim
        | exact (h₇ v rfl hv).elim
        | exact (h₈ v rfl hv).elim
        | exact (h₉ v rfl hv).elim
  all_goals
    next heq =>
    simp only [Option.some.injEq, Prod.mk.injEq] at h
    obtain ⟨rfl, hlen⟩ := h
    obtain rfl := eq_singleton_of_length hlen heq
    rfl

theorem beginsComment_of_meets {c : Char} {t t' : Text} (hm : Meets t t')
    (h : beginsComment c t') : beginsComment c t := by
  obtain rfl | ⟨rfl, hpre | hpre⟩ := h
  · exact .inl rfl
  · exact .inr ⟨rfl, .inl (prefix_of_meets (List.forall_mem_singleton.mpr rfl) hm hpre)⟩
  · exact .inr ⟨rfl, .inr (prefix_of_meets (List.forall_mem_singleton.mpr rfl) hm hpre)⟩

theorem identStart_notSeparator {c : Char} (h : isIdentStart c = true) : isSeparator c = false := by
  rw [Bool.eq_false_iff]
  intro hs
  rw [(separator_notIdent hs).2] at h
  cases h

theorem heredocStart?_of_meets {t t' : Text} (hm : Meets t t') (h : heredocStart? t = none) :
    heredocStart? t' = none := by
  cases hs : heredocStart? t' with
  | none => rfl
  | some found =>
    obtain ⟨n, text⟩ := found
    obtain ⟨dash, m, ms, hd, hstart, -, rfl, -⟩ := heredocStart?_some hs
    have hsep : ∀ d ∈ '<' :: (dash ++ [m]), isSeparator d = false := by
      obtain rfl | rfl := hd
      all_goals
        intro d hd
        simp only [List.nil_append, List.singleton_append, List.mem_cons, List.not_mem_nil,
          or_false] at hd
        rcases hd with rfl | rfl | rfl <;> first | rfl | exact identStart_notSeparator hstart
    obtain ⟨v, rfl⟩ := prefix_of_meets hsep hm ⟨ms, by simp⟩
    rw [List.cons_append, List.append_assoc, List.singleton_append,
      heredocStart?_of_marker v hd hstart] at h
    cases h

theorem closes_of_endsLine {marker body after : Text} (h : Closes marker body after) {after' : Text}
    (he : EndsLine after') : Closes marker body after' := by
  induction h with
  | last hn hm _ => exact .last hn hm he
  | more hn hm _ ih => exact .more hn hm ih

/-- A token still fits when the text behind it changes from a place on where the new text stops. -/
theorem fits_of_meets {kind : Kind} {text after after' : Text} (h : Fits kind text after)
    (hm : Meets after after') (he : endsLine kind text = true → EndsLine after') :
    Fits kind text after' := by
  cases h with
  | newline => exact .newline
  | lineComment hc hn _ => exact .lineComment hc hn (he (endsLine_lineComment hc))
  | blockComment hno => exact .blockComment hno
  | string hs => exact .string hs
  | number hc hlen =>
    rename_i c t
    obtain ⟨u, x, x', rfl, rfl, hx⟩ := hm
    refine .number hc ?_
    rw [← List.append_assoc] at hlen ⊢
    rw [stops_numberLength (x := x) hx (t ++ u) (by rw [hlen, List.length_append]; omega), hlen]
  | ident hdigit hc ht ha =>
    refine .ident hdigit hc ht ?_
    intro d hd
    cases hs : isSeparator d with
    | true => exact (separator_notIdent hs).1
    | false =>
      obtain ⟨u, rfl⟩ := List.head?_eq_some_iff.mp hd
      obtain ⟨v, rfl⟩ := prefix_of_meets (p := [d]) (by simpa using hs) hm ⟨u, rfl⟩
      exact ha d rfl
  | heredoc hd hstart hms hh hn hcl =>
    exact .heredoc hd hstart hms hh hn (closes_of_endsLine hcl (he rfl))
  | symbol hcomment hheredoc hs =>
    rename_i c t
    have hmt := meets_append t hm
    refine .symbol (fun hb => hcomment (beginsComment_of_meets hmt hb)) ?_ (symbol?_of_meets hs hm)
    intro hc
    exact heredocStart?_of_meets hmt (hheredoc hc)

end HclTidy.Token
