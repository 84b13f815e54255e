import HclTidy.Proofs.Template.Scan
import HclTidy.Template.Escape

/-!
# Labels in quotes

Every text can be written between quotes: what `encode` writes holds no interpolation, ends at the
closing quote put behind it, and is decoded to the text it was made from.
-/

set_option autoImplicit false

namespace HclTidy.Escape

open Template

/-- The characters that are written as a backslash and a letter. -/
def isEscaped (c : Char) : Bool := c = '\\' || c = '"' || c = '\n' || c = '\r' || c = '\t'

/-- The character behind the backslash. -/
def escapeLetter (c : Char) : Char :=
  if c = '\n' then 'n' else if c = '\r' then 'r' else if c = '\t' then 't' else c

theorem encode_escaped {c : Char} (rest : Text) (h : isEscaped c = true) :
    encode (c :: rest) = '\\' :: escapeLetter c :: encode rest := by
  simp only [isEscaped, Bool.or_eq_true, decide_eq_true_eq] at h
  rcases h with (((rfl | rfl) | rfl) | rfl) | rfl <;> rfl

theorem encode_marker {c : Char} (rest : Text) (hc : isMarker c = true) :
    encode (c :: '{' :: rest) = c :: c :: '{' :: encode rest := by
  simp only [isMarker, Bool.or_eq_true, decide_eq_true_eq] at hc
  rcases hc with rfl | rfl <;> rfl

theorem encode_plain {c : Char} {rest : Text} (h : isEscaped c = false)
    (hc : isMarker c = true → rest.head? ≠ some '{') : encode (c :: rest) = c :: encode rest := by
  simp only [isEscaped, Bool.or_eq_false_iff, decide_eq_false_iff_not] at h
  obtain ⟨⟨⟨⟨hb, hq⟩, hn⟩, hr⟩, ht⟩ := h
  unfold isMarker at hc
  rw [encode]
  simp only [hb, hq, hn, hr, ht, decide_false, Bool.or_false, Bool.false_eq_true, if_false]
  cases hm : decide (c = '$') || decide (c = '%') with
  | false => rfl
  | true => rw [Bool.true_and, decide_eq_false (hc hm)]; rfl

/-- The three ways in which the first character of a text is written. -/
theorem encode_cases (c : Char) (rest : Text) :
    (isEscaped c = true ∧ encode (c :: rest) = '\\' :: escapeLetter c :: encode rest) ∨
    (∃ t, isMarker c = true ∧ rest = '{' :: t ∧ encode (c :: rest) = c :: c :: '{' :: encode t) ∨
    (isEscaped c = false ∧ (isMarker c = true → rest.head? ≠ some '{') ∧
      encode (c :: rest) = c :: encode rest) := by
  cases hc : isEscaped c with
  | true => exact .inl ⟨rfl, encode_escaped rest hc⟩
  | false =>
    by_cases hm : isMarker c = true ∧ rest.head? = some '{'
    · obtain ⟨hm, hr⟩ := hm
      obtain ⟨t, rfl⟩ := List.head?_eq_some_iff.mp hr
      exact .inr (.inl ⟨t, hm, rfl, encode_marker t hm⟩)
    · have hp : isMarker c = true → rest.head? ≠ some '{' := fun h hr => hm ⟨h, hr⟩
      exact .inr (.inr ⟨rfl, hp, encode_plain hc hp⟩)

theorem head?_encode_append {t after : Text} (ht : t.head? ≠ some '{')
    (ha : after.head? ≠ some '{') : (encode t ++ after).head? ≠ some '{' := by
  cases t with
  | nil => exact ha
  | cons c t =>
    obtain ⟨-, he⟩ | ⟨u, hm, -, he⟩ | ⟨-, -, he⟩ := encode_cases c t
    · rw [he]
      nofun
    · rw [he]
      intro h
      exact (ne_special_of_isMarker hm).2.2.2 (Option.some.inj h)
    · rw [he]
      exact ht

theorem standsAlone_encode {c : Char} {t after : Text} (ht : t.head? ≠ some '{')
    (ha : ∀ d, isMarker d = true ∨ d = '{' → after.head? ≠ some d) :
    StandsAlone c (encode t ++ after) := by
  intro hc
  obtain ⟨-, -, hb, hbrace⟩ := ne_special_of_isMarker hc
  refine ⟨fun u h => head?_encode_append ht (ha '{' (.inr rfl)) (by rw [h]; rfl), ?_⟩
  intro u h
  cases t with
  | nil => exact ha c (.inl hc) (by rw [show after = c :: '{' :: u from h]; rfl)
  | cons d t =>
    obtain ⟨-, he⟩ | ⟨v, hm, -, he⟩ | ⟨-, hp, he⟩ := encode_cases d t
    · rw [he] at h
      exact hb (List.cons.inj h).1.symm
    · rw [he] at h
      obtain ⟨rfl, htail⟩ := List.cons.inj h
      exact hbrace (List.cons.inj htail).1
    · rw [he] at h
      obtain ⟨rfl, htail⟩ := List.cons.inj h
      refine head?_encode_append (hp hc) (ha '{' (.inr rfl)) ?_
      rw [show encode t ++ after = '{' :: u from htail]
      rfl

theorem scans_encode (t : Text) : Scans [] (encode t ++ ['"']) true := by
  induction h : t.length using Nat.strong_induction_on generalizing t with
  | _ n ih =>
    cases t with
    | nil => exact .finish
    | cons c t =>
      obtain ⟨-, he⟩ | ⟨u, hm, rfl, he⟩ | ⟨hc, hp, he⟩ := encode_cases c t
      · rw [he]
        exact .escape inQuotes_nil (ih _ (by rw [← h]; simp) t rfl)
      · rw [he]
        exact .escapedMarker inQuotes_nil hm (ih _ (by rw [← h, List.length_cons, List.length_cons]; omega) u rfl)
      · rw [he]
        have hplain : c ≠ '\n' ∧ c ≠ '"' ∧ c ≠ '\\' := by
          simp only [isEscaped, Bool.or_eq_false_iff, decide_eq_false_iff_not] at hc
          obtain ⟨⟨⟨⟨hb, hq⟩, hn⟩, -⟩, -⟩ := hc
          exact ⟨hn, hq, hb⟩
        have ha : StandsAlone c (encode t ++ ['"']) := by
          intro hm
          refine standsAlone_encode (hp hm) ?_ hm
          rintro d (hd | rfl) hq
          · exact (ne_special_of_isMarker hd).2.1 (Option.some.inj hq).symm
          · cases hq
        exact .plain inQuotes_nil hplain ha (ih _ (by rw [← h]; simp) t rfl)

theorem ofText_escapeLetter {c : Char} (rest : Text) (h : isEscaped c = true) :
    Reading.ofText (escapeLetter c :: rest) = .character c 1 := by
  simp only [isEscaped, Bool.or_eq_true, decide_eq_true_eq] at h
  rcases h with (((rfl | rfl) | rfl) | rfl) | rfl <;> rfl

/-- Decoding a label gives back the text that was encoded. -/
theorem decode_encode (t : Text) : decode (encode t) = .ok t := by
  induction h : t.length using Nat.strong_induction_on generalizing t with
  | _ n ih =>
    cases t with
    | nil => rfl
    | cons c t =>
      obtain ⟨hc, he⟩ | ⟨u, hm, rfl, he⟩ | ⟨hc, hp, he⟩ := encode_cases c t
      · have hrest := ih _ (by rw [← h]; simp) t rfl
        rw [he, decode, decodeFrom, if_pos rfl, ofText_escapeLetter _ hc]
        change (decodeFrom 0 (encode t)).map _ = _
        rw [← decode, hrest]
        rfl
      · have hrest := ih _ (by rw [← h, List.length_cons, List.length_cons]; omega) u rfl
        obtain ⟨-, -, hb, -⟩ := ne_special_of_isMarker hm
        unfold isMarker at hm
        rw [he, decode, decodeFrom, if_neg hb, if_pos (by simp [hm])]
        change (decodeFrom 0 (encode u)).map _ = _
        rw [← decode, hrest]
        rfl
      · have hrest := ih _ (by rw [← h]; simp) t rfl
        have hb : c ≠ '\\' := by
          rintro rfl
          cases hc
        have hn : ¬ ((c = '$' || c = '%') && [c, '{'].isPrefixOf (encode t)) = true := by
          rw [Bool.and_eq_true, List.isPrefixOf_iff_prefix]
          rintro ⟨hm, u, hu⟩
          have ha : StandsAlone c (encode t ++ []) := by
            refine standsAlone_encode (hp hm) ?_
            rintro d - ⟨⟩
          rw [List.append_nil] at ha
          exact (ha hm).2 u hu.symm
        rw [he, decode, decodeFrom, if_neg hb, if_neg hn]
        rw [← decode, hrest]
        rfl

end HclTidy.Escape
