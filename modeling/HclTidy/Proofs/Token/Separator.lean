import HclTidy.Proofs.Text.Lines
import HclTidy.Token.Lexer

/-!
# Characters between tokens

White space and the layout characters are no letters, digits or marks, so no word goes on across
them. A text that begins with one of them, or ends, stops every token before it; `Meets` compares
two texts that agree up to such a place.
-/

set_option autoImplicit false

namespace HclTidy

namespace Text

/-- The blank characters by code number. -/
def blankCodes : List Nat :=
  [0x9, 0xA, 0xB, 0xC, 0xD, 0x1C, 0x1D, 0x1E, 0x1F, 0x20, 0x85, 0xA0, 0x1680, 0x2000, 0x2001, 0x2002,
   0x2003, 0x2004, 0x2005, 0x2006, 0x2007, 0x2008, 0x2009, 0x200A, 0x2028, 0x2029, 0x202F, 0x205F,
   0x3000]

theorem toNat_mem_blankCodes {c : Char} (h : isBlank c = true) : c.toNat ∈ blankCodes := by
  simp only [isBlank, inRanges, blankRanges, List.any_cons, List.any_nil, Bool.or_eq_true,
    Bool.and_eq_true, decide_eq_true_eq, Bool.or_false] at h
  simp only [blankCodes, List.mem_cons, List.not_mem_nil, or_false]
  omega

theorem separators_notWord :
    ∀ n ∈ 0xFEFF :: blankCodes, isAlphanumeric (Char.ofNat n) = false ∧
      isLetter (Char.ofNat n) = false ∧ isDigit (Char.ofNat n) = false := by
  decide +kernel

end Text

namespace Token

/-- The characters that separate tokens, line feeds included. -/
def isSeparator (c : Char) : Bool := Text.isBlank c || c = '\uFEFF'

theorem isSeparator_of_isLayout {c : Char} (h : isLayout c = true) : isSeparator c = true := by
  simp only [isLayout, Bool.or_eq_true, decide_eq_true_eq] at h
  rcases h with ((rfl | rfl) | rfl) | rfl <;> decide

theorem isSeparator_of_isBlank {c : Char} (h : Text.isBlank c = true) : isSeparator c = true := by
  rw [isSeparator, h]
  rfl

theorem separator_notWord {c : Char} (h : isSeparator c = true) :
    Text.isAlphanumeric c = false ∧ Text.isLetter c = false ∧ Text.isDigit c = false := by
  have hc : c.toNat ∈ 0xFEFF :: Text.blankCodes := by
    simp only [isSeparator, Bool.or_eq_true, decide_eq_true_eq] at h
    rcases h with h | rfl
    · exact List.mem_cons_of_mem _ (Text.toNat_mem_blankCodes h)
    · exact List.mem_cons_self ..
  rw [← Char.ofNat_toNat c]
  exact Text.separators_notWord _ hc

theorem separator_ne {c d : Char} (h : isSeparator c = true) (hd : isSeparator d = false) :
    c ≠ d := by
  rintro rfl
  rw [h] at hd
  cases hd

theorem separator_notIdent {c : Char} (h : isSeparator c = true) :
    isIdentChar c = false ∧ isIdentStart c = false := by
  obtain ⟨ha, hl, -⟩ := separator_notWord h
  have hu : c ≠ '_' := separator_ne h (by decide)
  have hm : c ≠ '-' := separator_ne h (by decide)
  simp [isIdentChar, isIdentStart, ha, hl, hu, hm]

/-! ## Where texts stop -/

/-- The text is at its end or begins with a separator. -/
def Stops (t : Text) : Prop := ∀ c, t.head? = some c → isSeparator c = true

/-- The text is at its end or at a line feed. -/
def EndsLine (t : Text) : Prop := ∀ c, t.head? = some c → c = '\n'

/-- Two texts that agree up to a place where the second one stops. -/
def Meets (t t' : Text) : Prop := ∃ u x x', t = u ++ x ∧ t' = u ++ x' ∧ Stops x'

theorem stops_nil : Stops [] := nofun

theorem stops_cons {c : Char} (h : isSeparator c = true) (t : Text) : Stops (c :: t) := by
  rintro d ⟨⟩
  exact h

theorem endsLine_nil : EndsLine [] := nofun

theorem endsLine_newline (t : Text) : EndsLine ('\n' :: t) := by
  rintro d ⟨⟩
  rfl

theorem eq_nil_of_endsLine {line after : Text} (h : EndsLine (line ++ after)) (hn : '\n' ∉ line) :
    line = [] := by
  cases line with
  | nil => rfl
  | cons c line =>
    obtain rfl := h c rfl
    exact absurd (List.mem_cons_self ..) hn

theorem stops_of_endsLine {t : Text} (h : EndsLine t) : Stops t := by
  intro c hc
  rw [h c hc]
  rfl

theorem meets_of_stops (t : Text) {t' : Text} (h : Stops t') : Meets t t' := ⟨[], t, t', rfl, rfl, h⟩

theorem meets_refl (t : Text) : Meets t t :=
  ⟨t, [], [], (List.append_nil t).symm, (List.append_nil t).symm, stops_nil⟩

theorem meets_append (a : Text) {t t' : Text} (h : Meets t t') : Meets (a ++ t) (a ++ t') := by
  obtain ⟨u, x, x', rfl, rfl, hs⟩ := h
  exact ⟨a ++ u, x, x', (List.append_assoc ..).symm, (List.append_assoc ..).symm, hs⟩

/-- What stands in front of a text without separators stands there in every text that meets it. -/
theorem prefix_of_meets {p t t' : Text} (hp : ∀ c ∈ p, isSeparator c = false) (h : Meets t t')
    (hpre : p <+: t') : p <+: t := by
  obtain ⟨u, x, x', rfl, rfl, hs⟩ := h
  obtain hpu | ⟨q, rfl⟩ := List.prefix_or_prefix_of_prefix hpre (List.prefix_append u x')
  · exact hpu.trans (List.prefix_append u x)
  · rw [List.prefix_append_right_inj] at hpre
    cases q with
    | nil =>
      rw [List.append_nil]
      exact List.prefix_append u x
    | cons c q =>
      obtain ⟨y, hy⟩ := hpre
      have hc := hs c (by rw [← hy]; rfl)
      rw [hp c (by simp)] at hc
      cases hc

end Token

end HclTidy
