import HclTidy.Proofs.Token.Behind

/-!
# White space at the line ends of a token

White space at the end of the first line of a token, and at the end of its last, may go: what is
left is still one token of the same kind. Only heredocs, comments and strings with an interpolation
over several lines have any there.
-/

set_option autoImplicit false

namespace HclTidy.Token

theorem trimRight_of_getLast {t : Text} {c : Char} (a : Text) (ht : t = a ++ [c])
    (hc : Text.isBlank c = false) : Text.trimRight t = t := by
  rw [ht, Text.trimRight_concat a hc]

theorem notBlank_of_notSeparator {c : Char} (h : isSeparator c = false) : Text.isBlank c = false := by
  rw [Bool.eq_false_iff]
  intro hb
  rw [isSeparator_of_isBlank hb] at h
  cases h

/-- A word is a text without separators. -/
theorem word_trimRight {t : Text} (h : ∀ c ∈ t, isSeparator c = false) : Text.trimRight t = t := by
  obtain rfl | ⟨a, c, rfl⟩ := List.eq_nil_or_concat' t
  · rfl
  · exact Text.trimRight_concat a (notBlank_of_notSeparator (h c (by simp)))

theorem word_newline {t : Text} (h : ∀ c ∈ t, isSeparator c = false) : '\n' ∉ t := by
  intro hm
  cases h _ hm

theorem digit_notSeparator {c : Char} (h : Text.isDigit c = true) : isSeparator c = false := by
  rw [Bool.eq_false_iff]
  intro hs
  rw [(separator_notWord hs).2.2] at h
  cases h

theorem identChar_notSeparator {c : Char} (h : isIdentChar c = true) : isSeparator c = false := by
  rw [Bool.eq_false_iff]
  intro hs
  rw [(separator_notIdent hs).1] at h
  cases h

/-- The characters of numbers. -/
def isNumberChar (c : Char) : Bool := Text.isDigit c || ".eE+-".toList.contains c

theorem numberChar_of_digit {c : Char} (h : Text.isDigit c = true) : isNumberChar c = true := by
  rw [isNumberChar, h, Bool.true_or]

theorem numberChar_notSeparator {c : Char} (h : isNumberChar c = true) : isSeparator c = false := by
  obtain h | h := Bool.or_eq_true_iff.mp h
  · exact digit_notSeparator h
  · have hmarks : ".eE+-".toList.all (fun d => !isSeparator d) = true := by decide
    simpa using List.all_eq_true.mp hmarks c (List.contains_iff_mem.mp h)

theorem takeWhile_digit_chars {t : Text} :
    ∀ c ∈ t.take (t.takeWhile Text.isDigit).length, isNumberChar c = true := by
  rw [take_length_takeWhile]
  intro c hc
  exact numberChar_of_digit (List.mem_takeWhile_imp hc)

theorem fractionLength_chars (t : Text) : ∀ c ∈ t.take (fractionLength t), isNumberChar c = true := by
  unfold fractionLength
  split
  · next d rest =>
    split
    · next hd =>
      rw [Nat.add_comm, List.take_succ_cons, List.take_succ_cons]
      intro c hc
      obtain rfl | hc := List.mem_cons.mp hc
      · decide
      · obtain rfl | hc := List.mem_cons.mp hc
        · exact numberChar_of_digit hd
        · exact takeWhile_digit_chars c hc
    · simp
  · simp

theorem exponentLength_chars (t : Text) : ∀ c ∈ t.take (exponentLength t), isNumberChar c = true := by
  have hmark (e : Char) (he : (e = 'e' || e = 'E') = true) : isNumberChar e = true := by
    simp only [Bool.or_eq_true, decide_eq_true_eq] at he
    rcases he with rfl | rfl <;> decide
  have hsign (s : Char) (hs : (s = '+' || s = '-') = true) : isNumberChar s = true := by
    simp only [Bool.or_eq_true, decide_eq_true_eq] at hs
    rcases hs with rfl | rfl <;> decide
  unfold exponentLength
  split
  · next e rest =>
    split
    · next he =>
      split
      · next s digits =>
        split
        · next hs =>
          dsimp only
          split
          · simp
          · rw [Nat.add_comm, List.take_succ_cons, List.take_succ_cons]
            intro c hc
            obtain rfl | hc := List.mem_cons.mp hc
            · exact hmark _ he
            · obtain rfl | hc := List.mem_cons.mp hc
              · exact hsign _ hs
              · exact takeWhile_digit_chars c hc
        · dsimp only
          split
          · simp
          · rw [Nat.add_comm, List.take_succ_cons]
            intro c hc
            obtain rfl | hc := List.mem_cons.mp hc
            · exact hmark _ he
            · exact takeWhile_digit_chars c hc
      · simp
    · simp
  · simp

theorem numberLength_chars (t : Text) : ∀ c ∈ t.take (numberLength t), isNumberChar c = true := by
  unfold numberLength
  dsimp only
  rw [List.take_add, List.take_add]
  intro c hc
  obtain hc | hc := List.mem_append.mp hc
  · obtain hc | hc := List.mem_append.mp hc
    · exact takeWhile_digit_chars c hc
    · exact fractionLength_chars _ c hc
  · exact exponentLength_chars _ c hc

theorem symbol?_word {c : Char} {rest : Text} {kind : Kind} {n : Nat}
    (h : symbol? c rest = some (kind, n)) : ∀ d ∈ rest.take n, isSeparator d = false := by
  unfold symbol? at h
  split at h
  case h_10 =>
    have hlen : 0 = n := by
      split at h
      · simp only [Option.some.injEq, Prod.mk.injEq] at h
        exact h.2
      · split at h
        · simp only [Option.some.injEq, Prod.mk.injEq] at h
          exact h.2
        · cases h
    rw [← hlen, List.take_zero]
    exact List.forall_mem_nil _
  all_goals
    simp only [Option.some.injEq, Prod.mk.injEq] at h
    obtain ⟨-, rfl⟩ := h
    simp
    decide

/-- The kinds of tokens that are words: no separator stands in them. -/
def isWordKind (kind : Kind) : Bool :=
  !(kind = .string || kind = .heredoc || kind = .comment || kind = .newline || kind = .endOfText)

theorem fits_word {kind : Kind} {text after : Text} (h : Fits kind text after)
    (hk : isWordKind kind = true) : ∀ c ∈ text, isSeparator c = false := by
  have hhead := fits_head h
  cases h with
  | newline => cases hk
  | lineComment => cases hk
  | blockComment => cases hk
  | string => cases hk
  | heredoc => cases hk
  | number hc hlen =>
    rename_i c t
    have ht := numberLength_chars (t ++ after)
    rw [hlen, List.take_left] at ht
    intro d hd
    obtain rfl | hd := List.mem_cons.mp hd
    · exact digit_notSeparator hc
    · exact numberChar_notSeparator (ht d hd)
  | ident _ hc ht _ =>
    intro d hd
    obtain rfl | hd := List.mem_cons.mp hd
    · exact identStart_notSeparator hc
    · exact identChar_notSeparator (ht d hd)
  | symbol _ _ hs =>
    rename_i c t
    have ht := symbol?_word hs
    rw [List.take_left] at ht
    intro d hd
    obtain rfl | hd := List.mem_cons.mp hd
    · exact (symbolChars_plain _ (mem_symbolChars hs)).1
    · exact ht d hd

theorem scans_getLast {used : Text} {literal : Bool} (h : Template.Scans [] used literal) :
    ∃ s, used = s ++ ['"'] := ⟨_, (Template.partsOf_of_scans h).2.symm⟩

/-- A token that neither ends with its line nor is a line feed ends in a character that is not
blank. -/
theorem fits_getLast {kind : Kind} {text after : Text} (h : Fits kind text after)
    (he : endsLine kind text = false) (hk : kind ≠ .newline) :
    ∃ s c, text = s ++ [c] ∧ Text.isBlank c = false := by
  have hword (hw : isWordKind kind = true) : ∃ s c, text = s ++ [c] ∧ Text.isBlank c = false := by
    have hall := fits_word h hw
    obtain ⟨c, t, rfl, -⟩ := fits_head h
    obtain hnil | ⟨s, d, hs⟩ := List.eq_nil_or_concat' (c :: t)
    · cases hnil
    · exact ⟨s, d, hs, notBlank_of_notSeparator (hall d (by rw [hs]; simp))⟩
  cases h with
  | newline => exact absurd rfl hk
  | lineComment hc =>
    rw [endsLine_lineComment hc] at he
    cases he
  | blockComment =>
    rename_i inside _
    exact ⟨'/' :: '*' :: (inside ++ ['*']), '/', by simp, by decide⟩
  | string hs =>
    obtain ⟨s, rfl⟩ := scans_getLast hs
    exact ⟨'"' :: s, '"', rfl, by decide⟩
  | heredoc => cases he
  | number => exact hword rfl
  | ident => exact hword rfl
  | symbol _ _ hs =>
    have hkinds : ∀ k ∈ symbolKinds, isWordKind k = true := by decide
    exact hword (hkinds _ (symbol?_kind hs))

theorem infix_of_infix_newline {p a b : Text} (hp : '\n' ∉ p) (h : p <:+: a ++ '\n' :: b) :
    p <:+: a ∨ p <:+: b := by
  induction a with
  | nil =>
    obtain hpre | hin := List.infix_cons_iff.mp h
    · cases p with
      | nil => exact .inr (List.nil_infix)
      | cons c p =>
        rw [List.cons_prefix_cons] at hpre
        exact absurd (hpre.1 ▸ List.mem_cons_self ..) hp
    · exact .inr hin
  | cons c a ih =>
    rw [List.cons_append, List.infix_cons_iff] at h
    obtain hpre | hin := h
    · refine .inl (List.IsPrefix.isInfix ?_)
      obtain hca | ⟨q, rfl⟩ := List.prefix_or_prefix_of_prefix hpre
        (List.prefix_append (c :: a) ('\n' :: b))
      · exact hca
      · cases q with
        | nil =>
          simp
        | cons d q =>
          rw [← List.cons_append, List.prefix_append_right_inj, List.cons_prefix_cons] at hpre
          exact absurd (by simp [hpre.1]) hp
    · obtain h | h := ih hin
      · exact .inl (h.trans (List.infix_cons (List.infix_refl a)))
      · exact .inr h

theorem lineComment_trimRight {c : Char} {t after : Text} (hc : c = '#' ∨ c = '/' ∧ ['/'] <+: t)
    (hn : '\n' ∉ t) (ha : EndsLine after) : Fits .comment (Text.trimRight (c :: t)) after := by
  have hb : Text.isBlank c = false := by rcases hc with rfl | ⟨rfl, -⟩ <;> decide
  rw [Text.trimRight_cons_of_not_blank t hb]
  refine .lineComment ?_ (Text.newline_not_mem_trimRight hn) ha
  obtain rfl | ⟨rfl, u, rfl⟩ := hc
  · exact .inl rfl
  · refine .inr ⟨rfl, ?_⟩
    rw [List.singleton_append, Text.trimRight_cons_of_not_blank u (by decide)]
    exact ⟨Text.trimRight u, rfl⟩

theorem blockComment_trimFirst {inside : Text} (after : Text) (h : ¬ ['*', '/'] <:+: inside) :
    Fits .comment (Text.trimFirst ('/' :: '*' :: (inside ++ ['*', '/']))) after := by
  obtain hn | ⟨a, b, ha, rfl⟩ := Text.eq_or_append_newline inside
  · have hno : '\n' ∉ '/' :: '*' :: (inside ++ ['*', '/']) := by simpa using hn
    rw [Text.trimFirst_of_not_mem hno,
      trimRight_of_getLast ('/' :: '*' :: (inside ++ ['*'])) (c := '/') (by simp) (by decide)]
    exact .blockComment h
  · have ha' : '\n' ∉ '/' :: '*' :: a := by simpa using ha
    have hsplit : '/' :: '*' :: (a ++ '\n' :: b ++ ['*', '/']) =
        ('/' :: '*' :: a) ++ '\n' :: (b ++ ['*', '/']) := by simp
    have hjoin : '/' :: '*' :: Text.trimRight a ++ '\n' :: (b ++ ['*', '/']) =
        '/' :: '*' :: (Text.trimRight a ++ '\n' :: b ++ ['*', '/']) := by simp
    rw [hsplit, Text.trimFirst_append_newline _ ha', Text.trimRight_cons_of_not_blank _ (by decide),
      Text.trimRight_cons_of_not_blank _ (by decide), hjoin]
    refine .blockComment fun hin => h ?_
    obtain hin | hin := infix_of_infix_newline (by decide) hin
    · exact (hin.trans (Text.trimRight_isPrefix a).isInfix).trans (List.prefix_append a _).isInfix
    · exact hin.trans ⟨a ++ ['\n'], [], by simp⟩

/-- The first line of a heredoc is a word. -/
theorem intro_word {dash ms : Text} {m : Char} (hd : dash = [] ∨ dash = ['-'])
    (hm : isIdentStart m = true) (hms : ∀ c ∈ ms, isIdentChar c = true) :
    ∀ c ∈ '<' :: '<' :: (dash ++ m :: ms), isSeparator c = false := by
  intro c hc
  simp only [List.mem_cons, List.mem_append] at hc
  obtain rfl | rfl | hc | rfl | hc := hc
  · rfl
  · rfl
  · obtain rfl | rfl := hd
    · cases hc
    · rw [List.mem_singleton.mp hc]
      rfl
  · exact identStart_notSeparator hm
  · exact identChar_notSeparator (hms c hc)

/-- White space at the end of the first line is not needed by a token. -/
theorem fits_trimFirst {kind : Kind} {text after : Text} (h : Fits kind text after) :
    Fits kind (Text.trimFirst text) after := by
  have hword (hw : isWordKind kind = true) : Text.trimFirst text = text := by
    have hall := fits_word h hw
    rw [Text.trimFirst_of_not_mem (word_newline hall), word_trimRight hall]
  cases h with
  | newline => exact .newline
  | lineComment hc hn ha =>
    rename_i c t
    have hnc : '\n' ∉ c :: t := by
      rw [List.mem_cons, not_or]
      refine ⟨?_, hn⟩
      rcases hc with rfl | ⟨rfl, -⟩ <;> decide
    rw [Text.trimFirst_of_not_mem hnc]
    exact lineComment_trimRight hc hn ha
  | blockComment hno => exact blockComment_trimFirst after hno
  | string hs =>
    rename_i used literal
    obtain hn | ⟨a, b, ha, rfl⟩ := Text.eq_or_append_newline used
    · obtain ⟨s, rfl⟩ := scans_getLast hs
      rw [Text.trimFirst_of_not_mem (by simpa using hn), ← List.cons_append,
        Text.trimRight_concat _ (by decide)]
      exact .string hs
    · have ha' : '\n' ∉ '"' :: a := by simpa using ha
      rw [← List.cons_append, Text.trimFirst_append_newline b ha',
        Text.trimRight_cons_of_not_blank _ (by decide)]
      exact .string (Template.scans_trimRight hs a b rfl ha)
  | number hc hlen =>
    rw [hword rfl]
    exact .number hc hlen
  | ident hdigit hc ht ha =>
    rw [hword rfl]
    exact .ident hdigit hc ht ha
  | heredoc hd hm hms hh hn hcl =>
    rename_i dash m ms header body
    have hw := intro_word hd hm hms
    have hsplit : '<' :: '<' :: (dash ++ m :: ms ++ header ++ '\n' :: body) =
        ('<' :: '<' :: (dash ++ m :: ms)) ++ header ++ '\n' :: body := by simp
    have hno : '\n' ∉ ('<' :: '<' :: (dash ++ m :: ms)) ++ header := by
      rw [List.mem_append, not_or]
      exact ⟨word_newline hw, hn⟩
    rw [hsplit, Text.trimFirst_append_newline body hno, Text.trimRight_append_blank _ hh,
      word_trimRight hw]
    have hjoin : ('<' :: '<' :: (dash ++ m :: ms)) ++ '\n' :: body =
        '<' :: '<' :: (dash ++ m :: ms ++ [] ++ '\n' :: body) := by simp
    rw [hjoin]
    exact .heredoc hd hm hms nofun List.not_mem_nil hcl
  | symbol hcomment hheredoc hs =>
    have hkinds : ∀ k ∈ symbolKinds, isWordKind k = true := by decide
    rw [hword (hkinds _ (symbol?_kind hs))]
    exact .symbol hcomment hheredoc hs

theorem trim_ne_nil {t : Text} (h : Text.trim t ≠ []) : Text.trimRight t ≠ [] := by
  intro hnil
  have hblank := Text.trimRight_eq_nil_iff.mp hnil
  rw [Text.trim, Text.trimLeft_eq_nil_iff.mpr hblank] at h
  exact h rfl

theorem trim_trimRight (t : Text) : Text.trim (Text.trimRight t) = Text.trim t := by
  obtain ⟨g, hg, ht⟩ := Text.exists_trimRight t
  unfold Text.trim
  by_cases h : Text.trimLeft (Text.trimRight t) = []
  · have hblank := Text.trimLeft_eq_nil_iff.mp h
    have hnil : Text.trimRight t = [] := by
      rw [← Text.trimRight_idem]
      exact Text.trimRight_eq_nil_iff.mpr hblank
    rw [hnil, Text.trimLeft_eq_nil_iff.mpr (Text.trimRight_eq_nil_iff.mp hnil), Text.trimLeft_nil]
  · conv_rhs => rw [ht, Text.trimLeft_append g h, Text.trimRight_append_blank _ hg]

theorem trim_trimLeft (t : Text) : Text.trim (Text.trimLeft t) = Text.trim t := by
  have hleft : Text.trimLeft (Text.trimLeft t) = Text.trimLeft t := List.dropWhile_idempotent _ _
  rw [Text.trim, hleft, Text.trim]

theorem trim_trim (t : Text) : Text.trim (Text.trim t) = Text.trim t :=
  (trim_trimRight _).trans (trim_trimLeft t)

theorem closes_trimRight {marker body after : Text} (hne : marker ≠ [])
    (h : Closes marker body after) :
    Text.trimRight body ≠ [] ∧ Closes marker (Text.trimRight body) after := by
  induction h with
  | last hn hm ha =>
    refine ⟨trim_ne_nil (by rw [hm]; exact hne), ?_⟩
    exact .last (Text.newline_not_mem_trimRight hn) (by rw [trim_trimRight, hm]) ha
  | more hn hm hcl ih =>
    rename_i line body after
    obtain ⟨hbody, hcl'⟩ := ih
    have hcons : Text.trimRight (line ++ '\n' :: body) = line ++ '\n' :: Text.trimRight body := by
      rw [Text.trimRight_append, Text.trimRight_cons_of_ne_nil _ hbody]
      rw [Text.trimRight_cons_of_ne_nil _ hbody]
      simp
    rw [hcons]
    exact ⟨by simp, .more hn hm hcl'⟩

/-- White space at the end of its last line is not needed by a token, unless it is a line feed. -/
theorem fits_trimRight {kind : Kind} {text after : Text} (h : Fits kind text after)
    (hk : kind ≠ .newline) : Fits kind (Text.trimRight text) after := by
  cases he : endsLine kind text with
  | false =>
    obtain ⟨s, c, hs, hc⟩ := fits_getLast h he hk
    rw [trimRight_of_getLast s hs hc]
    exact h
  | true =>
    cases h with
    | newline => exact absurd rfl hk
    | lineComment hc hn ha => exact lineComment_trimRight hc hn ha
    | heredoc hd hm hms hh hn hcl =>
      rename_i dash m ms header body
      obtain ⟨hbody, hcl'⟩ := closes_trimRight (List.cons_ne_nil m ms) hcl
      have hcons := Text.trimRight_cons_of_ne_nil '\n' hbody
      have hsplit : '<' :: '<' :: (dash ++ m :: ms ++ header ++ '\n' :: body) =
          ('<' :: '<' :: (dash ++ m :: ms ++ header)) ++ '\n' :: body := by simp
      rw [hsplit, Text.trimRight_append (by simp [hcons]), hcons]
      exact .heredoc hd hm hms hh hn hcl'
    | blockComment => cases he
    | string => cases he
    | number => cases he
    | ident => cases he
    | symbol _ _ hs =>
      have hkinds : ∀ k ∈ symbolKinds, k ≠ .heredoc ∧ k ≠ .comment := by decide
      obtain ⟨hheredoc, hcomment⟩ := hkinds _ (symbol?_kind hs)
      simp [endsLine, hheredoc, hcomment] at he

end HclTidy.Token
