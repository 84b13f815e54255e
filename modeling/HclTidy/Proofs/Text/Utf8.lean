import Mathlib
import HclTidy.Text.Utf8

/-!
# Reading back what is encoded

Decoding is inverse to encoding. A text without carriage returns is read back as it was written, and
no text that is read from a file has one.
-/

set_option autoImplicit false

namespace HclTidy.Utf8

/-! ## One character -/

/-- The continuation byte that carries six bits. -/
def continuation (n : Nat) : UInt8 := .ofNat (0x80 + n % 64)

theorem toNat_continuation (n : Nat) : (continuation n).toNat = 0x80 + n % 64 :=
  UInt8.toNat_ofNat_of_lt' (show 0x80 + n % 64 < 256 by omega)

theorem isContinuation_continuation (n : Nat) : isContinuation (continuation n) = true := by
  rw [isContinuation, toNat_continuation, Bool.and_eq_true, decide_eq_true_eq, decide_eq_true_eq]
  omega

/-- A first byte and continuation bytes are decoded to a number. -/
structure Decodes (first : UInt8) (more : Bytes) (n : Nat) : Prop where
  count : continuations? first = some more.length
  good : ∀ rest, goodContinuations first more.length (more ++ rest) = more.length
  value : ∀ rest, valueOf first more.length (more ++ rest) = n

theorem good_of_allows {first second : UInt8} {more : Bytes} (h : allowsSecond first second = true)
    (hmore : ∀ b ∈ more, isContinuation b = true) (rest : Bytes) :
    goodContinuations first (second :: more).length ((second :: more) ++ rest) =
      (second :: more).length := by
  rw [List.length_cons, List.cons_append, goodContinuations, if_pos h, Nat.succ_sub_one,
    List.take_left, List.takeWhile_eq_self_iff.mpr hmore, Nat.add_comm]

theorem value_eq (first : UInt8) (more rest : Bytes) :
    valueOf first more.length (more ++ rest) =
      more.foldl (fun n b => 64 * n + b.toNat % 64)
        (if more.length = 0 then first.toNat else first.toNat % 2 ^ (6 - more.length)) := by
  rw [valueOf, List.take_left]
  rfl

theorem decodes_one {n : Nat} (h : n < 0x80) : Decodes (.ofNat n) [] n := by
  have hfirst := UInt8.toNat_ofNat_of_lt' (show n < 256 by omega)
  refine ⟨?_, fun rest => ?_, fun rest => ?_⟩
  · rw [continuations?, hfirst]
    exact if_pos h
  · cases rest <;> rfl
  · rw [value_eq, List.foldl_nil, List.length_nil, if_pos rfl, hfirst]

theorem decodes_two {n : Nat} (hlow : 0x80 ≤ n) (h : n < 0x800) :
    Decodes (.ofNat (0xC0 + n / 64)) [continuation n] n := by
  have hfirst := UInt8.toNat_ofNat_of_lt' (show 0xC0 + n / 64 < 256 by omega)
  refine ⟨?_, good_of_allows ?_ (List.forall_mem_nil _), fun rest => ?_⟩
  · simp only [continuations?, hfirst, List.length_singleton]
    rw [if_neg (by omega), if_neg (by omega), if_pos (by omega)]
  · simp only [allowsSecond, hfirst, isContinuation_continuation, Bool.true_and]
    rw [if_neg (by omega), if_neg (by omega), if_neg (by omega), if_neg (by omega)]
  · rw [value_eq]
    simp only [List.foldl_cons, List.foldl_nil, List.length_singleton, hfirst, toNat_continuation]
    norm_num
    omega

theorem decodes_three {n : Nat} (hlow : 0x800 ≤ n) (h : n < 0x10000)
    (hvalid : n < 0xD800 ∨ 0xDFFF < n) :
    Decodes (.ofNat (0xE0 + n / 4096)) [continuation (n / 64), continuation n] n := by
  have hfirst := UInt8.toNat_ofNat_of_lt' (show 0xE0 + n / 4096 < 256 by omega)
  refine ⟨?_, good_of_allows ?_ ?_, fun rest => ?_⟩
  · simp only [continuations?, hfirst, List.length_cons, List.length_nil]
    rw [if_neg (by omega), if_neg (by omega), if_neg (by omega), if_pos (by omega)]
  · simp only [allowsSecond, hfirst, isContinuation_continuation, Bool.true_and, toNat_continuation]
    split_ifs <;> simp only [decide_eq_true_eq] <;> omega
  · exact List.forall_mem_singleton.mpr (isContinuation_continuation n)
  · rw [value_eq]
    simp only [List.foldl_cons, List.foldl_nil, List.length_cons, List.length_nil, hfirst,
      toNat_continuation]
    norm_num
    omega

theorem decodes_four {n : Nat} (hlow : 0x10000 ≤ n) (h : n < 0x110000) :
    Decodes (.ofNat (0xF0 + n / 262144))
      [continuation (n / 4096), continuation (n / 64), continuation n] n := by
  have hfirst := UInt8.toNat_ofNat_of_lt' (show 0xF0 + n / 262144 < 256 by omega)
  refine ⟨?_, good_of_allows ?_ ?_, fun rest => ?_⟩
  · simp only [continuations?, hfirst, List.length_cons, List.length_nil]
    rw [if_neg (by omega), if_neg (by omega), if_neg (by omega), if_neg (by omega),
      if_pos (by omega)]
  · simp only [allowsSecond, hfirst, isContinuation_continuation, Bool.true_and, toNat_continuation]
    split_ifs <;> simp only [decide_eq_true_eq] <;> omega
  · rintro b hb
    obtain rfl | rfl : b = continuation (n / 64) ∨ b = continuation n := by simpa using hb
    · exact isContinuation_continuation _
    · exact isContinuation_continuation _
  · rw [value_eq]
    simp only [List.foldl_cons, List.foldl_nil, List.length_cons, List.length_nil, hfirst,
      toNat_continuation]
    norm_num
    omega

/-- What a character is encoded to is decoded to its code. -/
theorem decodes_encodeChar (c : Char) :
    ∃ first more, encodeChar c = first :: more ∧ Decodes first more c.toNat := by
  have hvalid : c.toNat < 0xD800 ∨ 0xDFFF < c.toNat ∧ c.toNat < 0x110000 := c.valid
  unfold encodeChar
  dsimp only
  split_ifs with hone htwo hthree
  · exact ⟨_, _, rfl, decodes_one hone⟩
  · exact ⟨_, _, rfl, decodes_two (by omega) htwo⟩
  · exact ⟨_, _, rfl, decodes_three (by omega) hthree (by omega)⟩
  · exact ⟨_, _, rfl, decodes_four (by omega) (by omega)⟩

/-! ## Texts -/

theorem decodeFrom_skip (offset : Nat) (done : Text) (more rest : Bytes) :
    decodeFrom offset more.length done (more ++ rest) =
      decodeFrom (offset + more.length) 0 done rest := by
  induction more generalizing offset with
  | nil => rfl
  | cons b more ih =>
    rw [List.length_cons, List.cons_append, decodeFrom, ih, Nat.add_assoc, Nat.add_comm 1]

theorem decodeFrom_encode (offset : Nat) (done t : Text) :
    decodeFrom offset 0 done (encode t) = (done.reverse ++ t, none) := by
  induction t generalizing offset done with
  | nil =>
    rw [List.append_nil]
    rfl
  | cons c t ih =>
    obtain ⟨first, more, hencode, hdecodes⟩ := decodes_encodeChar c
    have hsplit : encode (c :: t) = first :: (more ++ encode t) := by
      rw [encode, List.flatMap_cons, hencode]
      rfl
    rw [hsplit, decodeFrom, hdecodes.count]
    dsimp only
    rw [if_pos (hdecodes.good _), hdecodes.value, Char.ofNat_toNat, decodeFrom_skip, ih,
      List.reverse_cons, List.append_assoc]
    rfl

theorem decode_encode (t : Text) : decode (encode t) = .ok t := by
  rw [decode, decodeFront, decodeFrom_encode]
  rfl

/-! ## Line ends -/

theorem normaliseLinesFrom_eq {t : Text} (h : '\r' ∉ t) (done : Text) :
    normaliseLinesFrom done t = done.reverse ++ t := by
  induction t generalizing done with
  | nil => rw [normaliseLinesFrom, List.append_nil]
  | cons c t ih =>
    rw [List.mem_cons, not_or] at h
    have hc : c ≠ '\r' := fun hc => h.1 hc.symm
    rw [normaliseLinesFrom, if_neg hc, ih h.2, List.reverse_cons, List.append_assoc]
    · rfl
    · rintro rest rfl
      exact absurd rfl hc

theorem not_mem_normaliseLinesFrom (t : Text) {done : Text} (h : '\r' ∉ done) :
    '\r' ∉ normaliseLinesFrom done t := by
  fun_induction normaliseLinesFrom done t with
  | case1 => simpa using h
  | case2 done rest ih => exact ih (by simpa using h)
  | case3 done c rest hne ih =>
    refine ih ?_
    rw [List.mem_cons, not_or]
    refine ⟨?_, h⟩
    split
    · decide
    · next hc => exact fun heq => hc heq.symm

/-- A text that is read from a file has no carriage return. -/
theorem not_mem_of_readText {bytes : Bytes} {t : Text} (h : readText bytes = .ok t) : '\r' ∉ t := by
  unfold readText at h
  cases hdecode : decode bytes with
  | error fault =>
    rw [hdecode] at h
    cases h
  | ok text =>
    rw [hdecode] at h
    cases h
    exact not_mem_normaliseLinesFrom text List.not_mem_nil

/-- A text without carriage returns is read back from its bytes. -/
theorem readText_encode {t : Text} (h : '\r' ∉ t) : readText (encode t) = .ok t := by
  rw [readText, decode_encode]
  exact congrArg Except.ok (normaliseLinesFrom_eq h [])

end HclTidy.Utf8
