import HclTidy.Proofs.Token.Trim

/-!
# Where tokens begin and end

A token begins with a character that is not blank, its last line is not blank, and it ends in a
character that is not blank unless it ends with its line.
-/

set_option autoImplicit false

namespace HclTidy.Token

theorem fits_head_notBlank {kind : Kind} {text after : Text} (h : Fits kind text after)
    (hk : kind ≠ .newline) : ∃ c t, text = c :: t ∧ Text.isBlank c = false := by
  obtain ⟨c, t, rfl, hc | ⟨-, hn, -⟩⟩ := fits_head h
  · exact ⟨c, t, rfl, notBlank_of_notSeparator hc⟩
  · exact absurd hn hk

theorem fits_trimRight_self {kind : Kind} {text after : Text} (h : Fits kind text after)
    (he : endsLine kind text = false) (hk : kind ≠ .newline) : Text.trimRight text = text := by
  obtain ⟨s, c, hs, hc⟩ := fits_getLast h he hk
  exact trimRight_of_getLast s hs hc

theorem fits_comment_slash {text after : Text} (h : Fits .comment text after)
    (he : endsLine .comment text = false) : ∃ s, text = s ++ ['/'] := by
  cases h with
  | lineComment hc =>
    rw [endsLine_lineComment hc] at he
    cases he
  | blockComment =>
    rename_i inside _
    exact ⟨'/' :: '*' :: (inside ++ ['*']), by simp⟩
  | symbol _ _ hs =>
    have hkinds : Kind.comment ∉ symbolKinds := by decide
    exact absurd (symbol?_kind hs) hkinds

/-- The kinds of tokens that are a single character. -/
def markKinds : List Kind :=
  [.lbrace, .rbrace, .lbrack, .rbrack, .lparen, .rparen, .comma, .question, .dot, .colon, .equal]

theorem markKind?_mem {c : Char} {kind : Kind} (h : markKind? c = some kind) : kind ∈ markKinds := by
  unfold markKind? at h
  split at h <;> cases h <;> decide

theorem markKind?_injective {c d : Char} {kind : Kind} (hc : markKind? c = some kind)
    (hd : markKind? d = some kind) : c = d := by
  unfold markKind? at hc hd
  split at hc <;> cases hc <;> split at hd <;> first | rfl | cases hd

theorem symbol?_mark {c : Char} {rest : Text} {kind : Kind} {n : Nat}
    (h : symbol? c rest = some (kind, n)) (hk : kind ∈ markKinds) :
    markKind? c = some kind ∧ n = 0 := by
  unfold symbol? at h
  split at h
  all_goals try (cases h; exact absurd hk (by decide))
  split at h
  · next mark hmark =>
    cases h
    exact ⟨hmark, rfl⟩
  · split at h <;> cases h
    exact absurd hk (by decide)

/-- The text of a token that is a single character. -/
theorem fits_mark {kind : Kind} {text after : Text} {d : Char} (hd : markKind? d = some kind)
    (h : Fits kind text after) : text = [d] := by
  have hk := markKind?_mem hd
  cases h with
  | symbol _ _ hs =>
    obtain ⟨hc, hn⟩ := symbol?_mark hs hk
    rw [List.eq_nil_of_length_eq_zero hn, markKind?_injective hc hd]
  | _ => exact absurd hk (by decide)

theorem closes_lastLine {marker body after : Text} (hm : marker ≠ []) (h : Closes marker body after) :
    ∃ a b c, body = a ++ b ∧ '\n' ∉ b ∧ c ∈ b ∧ Text.isBlank c = false := by
  induction h with
  | last hn htrim hafter =>
    rename_i line after
    have hblank : ¬ ∀ c ∈ line, Text.isBlank c = true := by
      intro hall
      rw [Text.trim_eq_nil_iff.mpr hall] at htrim
      exact hm htrim.symm
    obtain ⟨c, hc⟩ := not_forall.mp hblank
    obtain ⟨hmem, hc⟩ := Classical.not_imp.mp hc
    exact ⟨[], line, c, rfl, hn, hmem, Bool.eq_false_iff.mpr hc⟩
  | more hn htrim hcl ih =>
    rename_i line body after
    obtain ⟨a, b, c, rfl, hb, hc, hblank⟩ := ih
    exact ⟨line ++ '\n' :: a, b, c, by simp, hb, hc, hblank⟩

/-- Some character on the last line of a token is not blank. -/
theorem fits_lastLine {kind : Kind} {text after : Text} (h : Fits kind text after)
    (hk : kind ≠ .newline) :
    ∃ a b c, text = a ++ b ∧ '\n' ∉ b ∧ c ∈ b ∧ Text.isBlank c = false := by
  have hword (he : endsLine kind text = false) :
      ∃ a b c, text = a ++ b ∧ '\n' ∉ b ∧ c ∈ b ∧ Text.isBlank c = false := by
    obtain ⟨s, c, hs, hc⟩ := fits_getLast h he hk
    refine ⟨s, [c], c, hs, ?_, List.mem_singleton.mpr rfl, hc⟩
    rw [List.mem_singleton]
    rintro rfl
    cases hc
  obtain ⟨d, u, hu, hd⟩ := fits_head_notBlank h hk
  cases h with
  | newline => exact absurd rfl hk
  | lineComment hc hn =>
    rename_i c t
    cases hu
    refine ⟨[], d :: u, d, rfl, ?_, List.mem_cons_self .., hd⟩
    rw [List.mem_cons, not_or]
    refine ⟨?_, hn⟩
    rintro rfl
    cases hd
  | heredoc _ _ _ _ _ hcl =>
    rename_i dash m ms header body _ _ _ _ _
    obtain ⟨a, b, c, rfl, hb, hc, hblank⟩ := closes_lastLine (by simp) hcl
    exact ⟨'<' :: '<' :: (dash ++ m :: ms ++ header ++ '\n' :: a), b, c, by simp, hb, hc, hblank⟩
  | blockComment => exact hword rfl
  | string => exact hword rfl
  | number => exact hword rfl
  | ident => exact hword rfl
  | symbol _ _ hs =>
    have hkinds : ∀ k ∈ symbolKinds, k ≠ .heredoc ∧ k ≠ .comment := by decide
    obtain ⟨hh, hc⟩ := hkinds _ (symbol?_kind hs)
    exact hword (by simp [endsLine, hh, hc])

end HclTidy.Token
