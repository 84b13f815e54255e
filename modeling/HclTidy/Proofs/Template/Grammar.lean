import HclTidy.Proofs.Template.Scan
import HclTidy.Template.Escape

/-!
# The grammar of escapes

`Denotes` says what a text stands for: the simple escapes, numerals of exactly four or eight
hexadecimal digits that name a character, doubled markers, and every other character for itself.
Decoding reads the digits of an escape as a lenient numeral. It follows the grammar on every text
whose escapes hold no other numerals than those of hexadecimal digits, and none beyond the range of
code numbers.
-/

set_option autoImplicit false

namespace HclTidy.Escape

open Template

/-! ## Hexadecimal digits -/

def hexDigits : Text :=
  ['0', '1', '2', '3', '4', '5', '6', '7', '8', '9', 'a', 'b', 'c', 'd', 'e', 'f',
   'A', 'B', 'C', 'D', 'E', 'F']

def hexValue? (c : Char) : Option Nat :=
  (hexDigits.idxOf? c).map fun i => if i < 16 then i else i - 6

/-- Digits read onto the value of the digits before. -/
def hexNumber? (value : Nat) : Text → Option Nat
  | [] => some value
  | c :: rest => do hexNumber? (16 * value + (← hexValue? c)) rest

theorem digitBelow?_hexDigit : ∀ c ∈ hexDigits, Text.digitBelow? 16 c = hexValue? c :=
  List.forall_iff_forall_mem.mp (by decide)

/-- Hexadecimal digits are not what else may stand in a numeral. -/
theorem hexDigit_plain :
    ∀ c ∈ hexDigits, Text.isNumeralSpace c = false ∧ c ≠ '_' ∧ c ≠ '+' ∧ c ≠ '-' ∧ c.toLower ≠ 'x' :=
  List.forall_iff_forall_mem.mp (by decide)

theorem mem_hexDigits_of_hexNumber? {value n : Nat} {digits : Text}
    (h : hexNumber? value digits = some n) : ∀ c ∈ digits, c ∈ hexDigits := by
  induction digits generalizing value with
  | nil => simp
  | cons c digits ih =>
    obtain ⟨d, hd, hrest⟩ := Option.bind_eq_some_iff.mp h
    obtain ⟨i, hi, -⟩ := Option.map_eq_some_iff.mp hd
    exact List.forall_mem_cons.mpr ⟨List.isSome_idxOf?.mp (by rw [hi]; rfl), ih hrest⟩

theorem digits?_eq_hexNumber? {value : Nat} {digits : Text} (hne : digits ≠ [])
    (h : ∀ c ∈ digits, c ∈ hexDigits) : Text.digits? 16 value digits = hexNumber? value digits := by
  fun_induction Text.digits? 16 value digits with
  | case1 => exact absurd rfl hne
  | case2 value c =>
    rw [digitBelow?_hexDigit c (h c List.mem_cons_self), hexNumber?]
    cases hexValue? c <;> rfl
  | case3 value c rest => exact absurd rfl (hexDigit_plain '_' (h '_' (by simp))).2.1
  | case4 value c rest hrest _ ih =>
    rw [List.forall_mem_cons] at h
    rw [hexNumber?, digitBelow?_hexDigit c h.1]
    exact congrArg _ (funext fun d => ih d hrest h.2)

/-- Hexadecimal digits are read as the numeral that they are. -/
theorem integer?_of_hexNumber? {digits : Text} {n : Nat} (hne : digits ≠ [])
    (h : hexNumber? 0 digits = some n) : Text.integer? 16 digits = some (n : Int) := by
  have hmem := mem_hexDigits_of_hexNumber? h
  have hspace : ∀ t : Text, (∀ c ∈ t, c ∈ hexDigits) → t.dropWhile Text.isNumeralSpace = t := by
    intro t ht
    cases t with
    | nil => rfl
    | cons c t => rw [List.dropWhile_cons, (hexDigit_plain c (ht c List.mem_cons_self)).1]; rfl
  have htrim : Text.trimNumeral digits = digits := by
    rw [Text.trimNumeral, hspace _ hmem, hspace _ (fun c hc => hmem c (List.mem_reverse.mp hc)),
      List.reverse_reverse]
  have hsign : Text.unsigned digits = digits ∧ Text.isNegative digits = false := by
    cases digits with
    | nil => exact absurd rfl hne
    | cons c rest =>
      obtain ⟨-, -, hplus, hminus, -⟩ := hexDigit_plain c (hmem c List.mem_cons_self)
      simp [Text.unsigned, Text.isNegative, hplus, hminus]
  have hmagnitude : Text.magnitude? 16 digits = some n := by
    rw [← h, ← digits?_eq_hexNumber? hne hmem]
    unfold Text.magnitude?
    split
    · next z x rest =>
      obtain ⟨-, -, -, -, hx⟩ := hexDigit_plain x (hmem x (by simp))
      exact if_neg (by simp [Text.baseMarker?, Ne.symm hx])
    · rfl
  rw [Text.integer?, htrim, hsign.1, hsign.2, hmagnitude]
  rfl

/-! ## The grammar -/

/-- How many digits follow the letter of a numeric escape. -/
def numeralWidth? (letter : Char) : Option Nat :=
  if letter = 'u' then some 4 else if letter = 'U' then some 8 else none

/-- What is written behind a backslash for a character. -/
inductive Escapes : Text → Char → Prop
  | simple {letter c} : simple? letter = some c → Escapes [letter] c
  | numeral {letter digits c} : numeralWidth? letter = some digits.length →
      hexNumber? 0 digits = some c.toNat → Escapes (letter :: digits) c

inductive Denotes : Text → Text → Prop
  | nil : Denotes [] []
  | escape {spelling c t u} : Escapes spelling c → Denotes t u →
      Denotes ('\\' :: (spelling ++ t)) (c :: u)
  | marker {c t u} : isMarker c = true → Denotes t u → Denotes (c :: c :: '{' :: t) (c :: '{' :: u)
  | plain {c t u} : (c = '\\' → ∀ spelling d, Escapes spelling d → ¬spelling <+: t) →
      (isMarker c = true → ¬[c, '{'] <+: t) → Denotes t u → Denotes (c :: t) (c :: u)

/-- Every text stands for one. -/
theorem exists_denotes (t : Text) : ∃ u, Denotes t u := by
  induction h : t.length using Nat.strong_induction_on generalizing t with
  | _ n ih =>
    cases t with
    | nil => exact ⟨[], .nil⟩
    | cons c t =>
      by_cases hescape : c = '\\' ∧ ∃ spelling d, Escapes spelling d ∧ spelling <+: t
      · obtain ⟨rfl, spelling, d, hspelling, t, rfl⟩ := hescape
        obtain ⟨u, hu⟩ := ih t.length (by rw [← h, List.length_cons, List.length_append]; omega) t rfl
        exact ⟨d :: u, .escape hspelling hu⟩
      · by_cases hmarker : isMarker c = true ∧ [c, '{'] <+: t
        · obtain ⟨hc, t, rfl⟩ := hmarker
          obtain ⟨u, hu⟩ := ih t.length (by rw [← h, List.length_cons, List.length_append]; omega) t rfl
          exact ⟨c :: '{' :: u, .marker hc hu⟩
        · obtain ⟨u, hu⟩ := ih t.length (by rw [← h, List.length_cons]; omega) t rfl
          refine ⟨c :: u, .plain ?_ (fun hc hprefix => hmarker ⟨hc, hprefix⟩) hu⟩
          exact fun hc spelling d hspelling hprefix => hescape ⟨hc, spelling, d, hspelling, hprefix⟩

/-! ## Decoding -/

/-- Every numeral behind a backslash is one of hexadecimal digits, within the range of code numbers. -/
def IsStrict (text : Text) : Prop :=
  ∀ letter digits code, '\\' :: letter :: digits <:+: text →
    numeralWidth? letter = some digits.length → Text.integer? 16 digits = some code →
    code ≤ 0x7FFFFFFF ∧ hexNumber? 0 digits = some code.toNat

theorem IsStrict.of_suffix {t text : Text} (h : IsStrict text) (ht : t <:+ text) : IsStrict t :=
  fun letter digits code hpart => h letter digits code (hpart.trans ht.isInfix)

theorem numeralWidth?_pos {letter : Char} {width : Nat} (h : numeralWidth? letter = some width) :
    0 < width ∧ width ≤ 8 ∧ simple? letter = none := by
  unfold numeralWidth? at h
  split at h
  · cases h
    next hletter => exact ⟨by decide, by decide, by rw [hletter]; rfl⟩
  · split at h
    · cases h
      next hletter => exact ⟨by decide, by decide, by rw [hletter]; rfl⟩
    · cases h

theorem ofText_eq (letter : Char) (rest : Text) :
    Reading.ofText (letter :: rest) =
      match simple? letter, numeralWidth? letter with
      | some c, _ => .character c 1
      | none, some width => .ofNumeral width rest
      | none, none => .unrecognised := by
  rw [Reading.ofText, numeralWidth?]
  cases simple? letter with
  | some c => rfl
  | none => split_ifs <;> rfl

theorem ofCode_toNat (length : Nat) (c : Char) :
    Reading.ofCode length (some (c.toNat : Int)) = .character c length := by
  have hvalid : c.toNat.isValidChar := c.valid
  have hsmall : ¬(0x7FFFFFFF < (c.toNat : Int)) := by
    rcases hvalid with h | h <;> omega
  rw [Reading.ofCode]
  simp only [hsmall, if_false]
  rw [dif_pos ⟨Int.natCast_nonneg _, hvalid⟩]
  congr 1

theorem ofText_of_escapes {spelling : Text} {c : Char} (h : Escapes spelling c) (t : Text) :
    Reading.ofText (spelling ++ t) = .character c spelling.length := by
  cases h with
  | simple h => rw [List.singleton_append, ofText_eq, h]; rfl
  | @numeral letter digits c hwidth hnumber =>
    obtain ⟨hpos, -, hsimple⟩ := numeralWidth?_pos hwidth
    have hne : digits ≠ [] := List.ne_nil_of_length_pos hpos
    rw [List.cons_append, ofText_eq, hsimple, hwidth]
    simp only
    rw [Reading.ofNumeral, if_neg (by simp), List.take_left, integer?_of_hexNumber? hne hnumber,
      ofCode_toNat, List.length_cons]

/-- In a strict text, what is recognised behind a backslash is an escape. -/
theorem ofText_of_not_escapes {t : Text} (hstrict : IsStrict ('\\' :: t))
    (h : ∀ spelling c, Escapes spelling c → ¬spelling <+: t) : Reading.ofText t = .unrecognised := by
  cases t with
  | nil => rfl
  | cons letter rest =>
    rw [ofText_eq]
    split
    · next _ c hsimple => exact absurd ⟨rest, rfl⟩ (h [letter] c (.simple hsimple))
    · next width hsimple hwidth =>
      unfold Reading.ofNumeral
      split
      · rfl
      · next hlength =>
        have htake : (rest.take width).length = width := List.length_take_of_le (Nat.not_lt.mp hlength)
        have hpart : '\\' :: letter :: rest.take width <:+: '\\' :: letter :: rest :=
          (List.prefix_cons_inj _ |>.mpr (List.prefix_cons_inj _ |>.mpr (List.take_prefix _ _))).isInfix
        cases hcode : Text.integer? 16 (rest.take width) with
        | none => rfl
        | some code =>
          obtain ⟨hsmall, hnumber⟩ := hstrict letter _ code hpart (by rw [htake, hwidth]) hcode
          rw [Reading.ofCode]
          simp only [Int.not_lt.mpr hsmall, if_false]
          split
          · next hvalid =>
            refine absurd ?_ (h (letter :: rest.take width) (Char.ofNatAux code.toNat hvalid.2)
              (.numeral (by rw [htake, hwidth]) hnumber))
            exact List.prefix_cons_inj _ |>.mpr (List.take_prefix _ _)
          · rfl
    · rfl

theorem decodeFrom_append (used t : Text) : decodeFrom used.length (used ++ t) = decodeFrom 0 t := by
  induction used with
  | nil => rfl
  | cons c used ih => rw [List.length_cons, List.cons_append, decodeFrom, ih]

theorem decode_of_denotes {t u : Text} (hstrict : IsStrict t) (h : Denotes t u) : decode t = .ok u := by
  unfold decode
  induction h with
  | nil => rfl
  | @escape spelling c t u hspelling _ ih =>
    rw [decodeFrom, if_pos rfl, ofText_of_escapes hspelling]
    simp only
    rw [decodeFrom_append, ih (hstrict.of_suffix ⟨'\\' :: spelling, rfl⟩)]
    rfl
  | @marker c t u hc _ ih =>
    have hskip : decodeFrom 2 (c :: '{' :: t) = decodeFrom 0 t := decodeFrom_append [c, '{'] t
    rw [decodeFrom, if_neg (ne_special_of_isMarker hc).2.2.1, if_pos, hskip,
      ih (hstrict.of_suffix ⟨[c, c, '{'], rfl⟩)]
    · rfl
    · exact Bool.and_eq_true_iff.mpr ⟨hc, by simp [List.isPrefixOf]⟩
  | @plain c t u hescape hmarker _ ih =>
    have hrest := ih (hstrict.of_suffix (List.suffix_cons c t))
    rw [decodeFrom]
    split
    · next hc =>
      subst hc
      rw [ofText_of_not_escapes hstrict (hescape rfl)]
      simp only
      rw [hrest]
      rfl
    · rw [if_neg, hrest]
      · rfl
      · rintro h
        obtain ⟨hc, hprefix⟩ := Bool.and_eq_true_iff.mp h
        exact hmarker hc (List.isPrefixOf_iff_prefix.mp hprefix)

/-- A strict text is decoded, and to what it stands for. -/
theorem decode_eq_ok_iff {t : Text} (hstrict : IsStrict t) (u : Text) :
    decode t = .ok u ↔ Denotes t u := by
  refine ⟨fun h => ?_, decode_of_denotes hstrict⟩
  obtain ⟨v, hv⟩ := exists_denotes t
  rw [decode_of_denotes hstrict hv] at h
  cases h
  exact hv

/-- A sign is read as part of a numeral. -/
example : decode "\\u+041".toList = .ok ['A'] ∧ hexNumber? 0 "+041".toList = none := by
  decide

end HclTidy.Escape
