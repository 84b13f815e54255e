import HclTidy.Proofs.Template.Scan
import HclTidy.Template.Escape

/-!
# Escapes beyond the range of code numbers

A numeral of a base is less than the power of the base to its length, so that four hexadecimal digits
always give a code number and eight need not. Decoding fails only on a text with an escape of eight
digits that is too large; any other escape is decoded or kept as it stands.
-/

set_option autoImplicit false

namespace HclTidy

namespace Text

/-! ## The size of numerals -/

theorem digitBelow?_lt {base d : Nat} {c : Char} (h : digitBelow? base c = some d) : d < base :=
  of_decide_eq_true (Option.filter_eq_some_iff.mp h).2

theorem next_value_le {base value d : Nat} (h : d < base) :
    base * value + d + 1 ≤ (value + 1) * base := by
  rw [Nat.add_mul, Nat.one_mul, Nat.mul_comm value]
  omega

theorem digits?_lt {base value n : Nat} {t : Text} (h : digits? base value t = some n) :
    n < (value + 1) * base ^ t.length := by
  fun_induction digits? base value t with
  | case1 => cases h
  | case2 value c =>
    obtain ⟨d, hd, rfl⟩ := Option.map_eq_some_iff.mp h
    rw [List.length_singleton, pow_one]
    exact next_value_le (digitBelow?_lt hd)
  | case3 value c rest ih =>
    obtain ⟨d, hd, h⟩ := Option.bind_eq_some_iff.mp h
    have hd := digitBelow?_lt hd
    calc n < (base * value + d + 1) * base ^ rest.length := ih d h
      _ ≤ (value + 1) * base * base ^ rest.length := Nat.mul_le_mul_right _ (next_value_le hd)
      _ = (value + 1) * base ^ (rest.length + 1) := by rw [pow_succ']; ring
      _ ≤ (value + 1) * base ^ (rest.length + 2) :=
        Nat.mul_le_mul_left _ (Nat.pow_le_pow_right (by omega) (by omega))
  | case4 value c rest hrest hunderscore ih =>
    obtain ⟨d, hd, h⟩ := Option.bind_eq_some_iff.mp h
    calc n < (base * value + d + 1) * base ^ rest.length := ih d h
      _ ≤ (value + 1) * base * base ^ rest.length :=
        Nat.mul_le_mul_right _ (next_value_le (digitBelow?_lt hd))
      _ = (value + 1) * base ^ (rest.length + 1) := by rw [pow_succ']; ring

theorem digits?_zero_lt {base n : Nat} {t : Text} (h : digits? base 0 t = some n) :
    n < base ^ t.length := by
  have hlt := digits?_lt h
  rwa [Nat.zero_add, Nat.one_mul] at hlt

theorem magnitude?_lt {base n : Nat} {t : Text} (hbase : 0 < base) (h : magnitude? base t = some n) :
    n < base ^ t.length := by
  unfold magnitude? at h
  split at h
  · split at h
    · refine (digits?_zero_lt h).trans_le (Nat.pow_le_pow_right hbase ?_)
      split <;> simp only [List.length_cons] <;> omega
    · exact digits?_zero_lt h
  · exact digits?_zero_lt h

theorem length_unsigned_le (t : Text) : (unsigned t).length ≤ t.length := by
  unfold unsigned
  split
  · split
    · exact Nat.le_succ _
    · exact le_rfl
  · exact le_rfl

theorem length_trimNumeral_le (t : Text) : (trimNumeral t).length ≤ t.length := by
  unfold trimNumeral
  rw [List.length_reverse]
  refine (List.dropWhile_suffix _).length_le.trans ?_
  rw [List.length_reverse]
  exact (List.dropWhile_suffix _).length_le

/-- A numeral is less than the power of its base to its length. -/
theorem integer?_lt {base : Nat} {n : Int} {t : Text} (hbase : 0 < base)
    (h : integer? base t = some n) : n < base ^ t.length := by
  obtain ⟨_, hcast, rfl⟩ := Option.map_eq_some_iff.mp h
  obtain ⟨m, hm, hpure⟩ := Option.bind_eq_some_iff.mp hcast
  cases hpure
  have hlt : m < base ^ t.length := (magnitude?_lt hbase hm).trans_le
    (Nat.pow_le_pow_right hbase ((length_unsigned_le _).trans (length_trimNumeral_le t)))
  have hcast : (m : Int) < (base : Int) ^ t.length := by exact_mod_cast hlt
  split
  · omega
  · exact hcast

end Text

namespace Escape

/-! ## Decoding -/

/-- An escape of eight digits whose numeral is no code number. -/
def Oversized (text : Text) : Prop :=
  ∃ (before after : Text) (code : Int), text = before ++ '\\' :: 'U' :: after ∧ 8 ≤ after.length ∧
    Text.integer? 16 (after.take 8) = some code ∧ 0x7FFFFFFF < code

theorem Oversized.of_part {part text : Text} (h : Oversized part) (hpart : part <:+: text) :
    Oversized text := by
  obtain ⟨before, after, code, rfl, hlength, hcode, hlarge⟩ := h
  obtain ⟨front, back, rfl⟩ := hpart
  refine ⟨front ++ before, after ++ back, code, ?_, ?_, ?_, hlarge⟩
  · simp only [List.append_assoc, List.cons_append]
  · rw [List.length_append]
    omega
  · rw [List.take_append_of_le_length hlength, hcode]

theorem Oversized.cons {c : Char} {rest : Text} (h : Oversized rest) : Oversized (c :: rest) :=
  h.of_part (List.suffix_cons c rest).isInfix

theorem ofNumeral_tooLarge {width : Nat} {text : Text}
    (h : Reading.ofNumeral width text = .tooLarge) :
    width ≤ text.length ∧ ∃ code, Text.integer? 16 (text.take width) = some code ∧
      0x7FFFFFFF < code := by
  unfold Reading.ofNumeral at h
  split at h
  · cases h
  · next hwidth =>
    refine ⟨Nat.not_lt.mp hwidth, ?_⟩
    unfold Reading.ofCode at h
    split at h
    · cases h
    · next code hcode =>
      split at h
      · next hlarge => exact ⟨code, hcode, hlarge⟩
      · split at h <;> cases h

theorem ofText_tooLarge {rest : Text} (h : Reading.ofText rest = .tooLarge) :
    Oversized ('\\' :: rest) := by
  unfold Reading.ofText at h
  split at h
  · cases h
  · next c rest =>
    split at h
    · cases h
    · split at h
      · -- Four digits are always within the range.
        obtain ⟨hlength, code, hcode, hlarge⟩ := ofNumeral_tooLarge h
        have hlt := Text.integer?_lt (by decide) hcode
        rw [List.length_take_of_le hlength] at hlt
        norm_num at hlt
        omega
      · split at h
        · next hletter =>
          obtain ⟨hlength, code, hcode, hlarge⟩ := ofNumeral_tooLarge h
          exact ⟨[], rest, code, by rw [hletter]; rfl, hlength, hcode, hlarge⟩
        · cases h

/-- Decoding fails only where an escape is too large. -/
theorem oversized_of_decodeFrom {skip : Nat} {text : Text} {error : DecodeError}
    (h : decodeFrom skip text = .error error) : Oversized text := by
  have hmap {r : Except DecodeError Text} {f : Text → Text} (h : r.map f = .error error) :
      r = .error error := by
    cases r with
    | ok t => cases h
    | error e => exact h
  fun_induction decodeFrom skip text with
  | case1 => cases h
  | case2 skip c rest ih => exact (ih h).cons
  | case3 rest d length hread ih => exact (ih (hmap h)).cons
  | case4 rest hread => exact ofText_tooLarge hread
  | case5 rest hread ih => exact (ih (hmap h)).cons
  | case6 c rest _ _ ih => exact (ih (hmap h)).cons
  | case7 c rest _ _ ih => exact (ih (hmap h)).cons

end Escape

/-! ## Literal templates -/

/-- What a literal template decodes is part of it. -/
theorem Template.literalText_infix_of_all {text : Text}
    (h : (partsOf true text).all Part.isLiteral = true) :
    (partsOf true text).flatMap Part.literalText <:+: text := by
  unfold partsOf at h ⊢
  rw [if_pos rfl] at h ⊢
  split at h
  · next parts after hscan =>
    obtain ⟨used, literal, rfl, -, -, hwritten⟩ := scanQuoted_moved hscan
    rw [flatMap_literalText h, ← hwritten]
    exact ⟨['"'], '"' :: after, by simp⟩
  · rw [List.flatMap_singleton]
    exact List.infix_refl text

end HclTidy
