import HclTidy.Proofs.Template.Scan
import HclTidy.Proofs.Token.Separator

/-!
# Tokens and the text behind them

`Fits kind text after` tells that the lexer takes exactly `text` as a token when `after` stands
behind it. There is one constructor for each form of token; what a form asks of `after` is the least
that keeps the token from going on.
-/

set_option autoImplicit false

namespace HclTidy.Token

/-- The lines of a heredoc below its header, the first that holds just the marker the last. -/
inductive Closes (marker : Text) : Text → Text → Prop
  | last {line after} : '\n' ∉ line → Text.trim line = marker → EndsLine after →
      Closes marker line after
  | more {line body after} : '\n' ∉ line → Text.trim line ≠ marker → Closes marker body after →
      Closes marker (line ++ '\n' :: body) after

/-- A line comment, a block comment or a slash begins here. -/
def beginsComment (c : Char) (rest : Text) : Prop :=
  c = '#' ∨ c = '/' ∧ (['/'] <+: rest ∨ ['*'] <+: rest)

inductive Fits : Kind → Text → Text → Prop
  | newline {after} : Fits .newline ['\n'] after
  | lineComment {c t after} : c = '#' ∨ c = '/' ∧ ['/'] <+: t → '\n' ∉ t → EndsLine after →
      Fits .comment (c :: t) after
  | blockComment {inside after} : ¬ ['*', '/'] <:+: inside →
      Fits .comment ('/' :: '*' :: (inside ++ ['*', '/'])) after
  | string {used literal after} : Template.Scans [] used literal → Fits .string ('"' :: used) after
  | number {c t after} : Text.isDigit c = true → numberLength (t ++ after) = t.length →
      Fits .number (c :: t) after
  | ident {c t after} : Text.isDigit c = false → isIdentStart c = true →
      (∀ d ∈ t, isIdentChar d = true) → (∀ d, after.head? = some d → isIdentChar d = false) →
      Fits .ident (c :: t) after
  | heredoc {dash m ms header body after} : dash = [] ∨ dash = ['-'] → isIdentStart m = true →
      (∀ d ∈ ms, isIdentChar d = true) → (∀ d ∈ header, Text.isBlank d = true) → '\n' ∉ header →
      Closes (m :: ms) body after →
      Fits .heredoc ('<' :: '<' :: (dash ++ m :: ms ++ header ++ '\n' :: body)) after
  | symbol {kind c t after} : ¬ beginsComment c (t ++ after) →
      (c = '<' → heredocStart? (t ++ after) = none) →
      symbol? c (t ++ after) = some (kind, t.length) → Fits kind (c :: t) after

theorem isIdentChar_of_isIdentStart {c : Char} (h : isIdentStart c = true) :
    isIdentChar c = true := by
  simp only [isIdentStart, Bool.or_eq_true, decide_eq_true_eq] at h
  simp only [isIdentChar, Bool.or_eq_true, decide_eq_true_eq]
  obtain h | h := h
  · refine .inl (.inl ?_)
    unfold Text.isLetter at h
    unfold Text.isAlphanumeric
    split at h
    · next hlt => rw [if_pos hlt, Char.isAlphanum, h]; rfl
    · next hlt => rw [if_neg hlt, h]; rfl
  · exact .inl (.inr h)

/-! ## Comments -/

theorem cut?_comment {t inside after : Text} (h : Text.cut? ['*', '/'] t = some (inside, after)) :
    t = inside ++ '*' :: '/' :: after ∧ ¬ ['*', '/'] <:+: inside := by
  induction t generalizing inside after with
  | nil => cases h
  | cons c t ih =>
    rw [Text.cut?] at h
    split at h
    · next hp =>
      rw [List.isPrefixOf_iff_prefix] at hp
      obtain ⟨u, hu⟩ := hp
      rw [← hu] at h
      cases h
      exact ⟨hu.symm, by simp⟩
    · next hp =>
      obtain ⟨⟨inside', after'⟩, hrest, heq⟩ := Option.map_eq_some_iff.mp h
      cases heq
      obtain ⟨rfl, hno⟩ := ih hrest
      refine ⟨rfl, ?_⟩
      rw [List.infix_cons_iff]
      rintro (hpre | hin)
      · refine hp (List.isPrefixOf_iff_prefix.mpr ?_)
        exact hpre.trans (List.prefix_append (c :: _) _)
      · exact hno hin

theorem cut?_of_comment {inside : Text} (after : Text) (h : ¬ ['*', '/'] <:+: inside) :
    Text.cut? ['*', '/'] (inside ++ '*' :: '/' :: after) = some (inside, after) := by
  induction inside with
  | nil => rfl
  | cons c inside ih =>
    rw [List.infix_cons_iff, not_or] at h
    have hp : ['*', '/'].isPrefixOf (c :: (inside ++ '*' :: '/' :: after)) = false := by
      rw [Bool.eq_false_iff, ne_eq, List.isPrefixOf_iff_prefix]
      intro hpre
      cases inside with
      | nil => simp [List.cons_prefix_cons] at hpre
      | cons d inside =>
        refine h.1 ?_
        simpa [List.cons_prefix_cons] using hpre
    rw [List.cons_append, Text.cut?, hp, ih h.2]
    rfl

/-! ## Heredocs -/

theorem closes_of_heredocLength? {marker : Text} {n : Nat} (t : Text)
    (h : heredocLength? marker (Text.lines t) = some n) :
    n ≤ t.length ∧ Closes marker (t.take n) (t.drop n) := by
  induction hlen : t.length using Nat.strong_induction_on generalizing t n with
  | _ len ih =>
    subst hlen
    obtain hn | ⟨a, b, ha, rfl⟩ := Text.eq_or_append_newline t
    · rw [Text.lines_of_not_mem hn, heredocLength?] at h
      split at h
      · next hm =>
        cases h
        rw [List.take_length, List.drop_length]
        exact ⟨Nat.le_refl _, .last hn hm endsLine_nil⟩
      · cases h
    · rw [Text.lines_append_newline b ha, heredocLength?] at h
      split at h
      · next hm =>
        cases h
        rw [List.take_left, List.drop_left]
        exact ⟨by simp, .last ha hm (endsLine_newline b)⟩
      · next hm =>
        obtain ⟨k, hk, rfl⟩ := Option.map_eq_some_iff.mp h
        obtain ⟨hle, hc⟩ := ih b.length (by simp; omega) b hk rfl
        have hsplit : a.length + 1 + k = a.length + (k + 1) := by omega
        rw [hsplit, List.take_length_add_append, List.drop_length_add_append]
        exact ⟨by simp; omega, .more ha hm hc⟩

theorem heredocLength?_of_closes {marker body after : Text} (h : Closes marker body after) :
    heredocLength? marker (Text.lines (body ++ after)) = some body.length := by
  induction h with
  | last hn hm he =>
    rename_i line after
    cases after with
    | nil => rw [List.append_nil, Text.lines_of_not_mem hn, heredocLength?, if_pos hm]
    | cons c after =>
      obtain rfl := he c rfl
      rw [Text.lines_append_newline _ hn, heredocLength?, if_pos hm]
  | more hn hm hc ih =>
    rw [List.append_assoc, List.cons_append, Text.lines_append_newline _ hn, heredocLength?,
      if_neg hm, ih]
    simp
    omega

theorem takeWhile_append_of_all {α : Type} {p : α → Bool} {a b : List α} (ha : ∀ c ∈ a, p c = true)
    (hb : ∀ c, b.head? = some c → p c = false) : (a ++ b).takeWhile p = a := by
  rw [List.takeWhile_append_of_pos ha]
  cases b with
  | nil => exact List.append_nil a
  | cons c b => rw [List.takeWhile_cons_of_neg (by simp [hb c rfl]), List.append_nil]

theorem header_notIdent {header : Text} (rest : Text)
    (h : ∀ c ∈ header, Text.isBlank c = true) :
    ∀ c, (header ++ '\n' :: rest).head? = some c → isIdentChar c = false := by
  intro c hc
  have hb : Text.isBlank c = true := by
    cases header with
    | nil =>
      cases hc
      rfl
    | cons d header =>
      cases hc
      exact h _ (List.mem_cons_self ..)
  exact (separator_notIdent (isSeparator_of_isBlank hb)).1

theorem heredocBodyLength_eq {marker header : Text} (t : Text)
    (hm : ∀ c ∈ marker, isIdentChar c = true) (hh : ∀ c ∈ header, Text.isBlank c = true)
    (hn : '\n' ∉ header) :
    heredocBodyLength (marker ++ header ++ '\n' :: t) =
      match heredocLength? marker (Text.lines t) with
      | some n => .ok (marker.length + header.length + 1 + n)
      | none => .error (.unterminatedHeredoc marker) := by
  have hmarker : (marker ++ header ++ '\n' :: t).takeWhile isIdentChar = marker := by
    rw [List.append_assoc]
    exact takeWhile_append_of_all hm (header_notIdent t hh)
  have hheader : (header ++ '\n' :: t).takeWhile (· ≠ '\n') = header := by
    refine takeWhile_append_of_all ?_ ?_
    · intro c hc
      exact decide_eq_true (fun h => hn (h ▸ hc))
    · rintro c ⟨⟩
      rfl
  have hblank : Text.allBlank header = true := List.all_eq_true.mpr hh
  unfold heredocBodyLength
  simp only [hmarker]
  rw [List.append_assoc, List.drop_left, hheader, List.drop_left]
  exact if_pos hblank

theorem drop_length_takeWhile {α : Type} (p : α → Bool) (xs : List α) :
    xs.drop (xs.takeWhile p).length = xs.dropWhile p := by
  induction xs with
  | nil => rfl
  | cons x xs ih =>
    cases h : p x with
    | true => rw [List.takeWhile_cons_of_pos h, List.dropWhile_cons_of_pos h]; exact ih
    | false => rw [List.takeWhile_cons_of_neg (by simp [h]), List.dropWhile_cons_of_neg (by simp [h])]; rfl

theorem heredocBodyLength_ok {m : Char} {ms : Text} {n : Nat}
    (hstart : isIdentStart m = true) (h : heredocBodyLength (m :: ms) = .ok n) :
    ∃ marker header body after, (∀ c ∈ marker, isIdentChar c = true) ∧
      (∀ c ∈ header, Text.isBlank c = true) ∧ '\n' ∉ header ∧
      ms = marker ++ header ++ '\n' :: (body ++ after) ∧ Closes (m :: marker) body after ∧
      n = marker.length + 1 + header.length + 1 + body.length := by
  have hid := isIdentChar_of_isIdentStart hstart
  unfold heredocBodyLength at h
  rw [List.takeWhile_cons_of_pos hid] at h
  simp only [List.length_cons, List.drop_succ_cons, drop_length_takeWhile] at h
  split at h
  · cases h
  · next c t heq =>
    split at h
    · next hblank =>
      split at h
      · next k hk =>
        cases h
        obtain ⟨hle, hc⟩ := closes_of_heredocLength? t hk
        have hnewline : c = '\n' := by
          have hnot := List.head?_dropWhile_not (fun c => decide (c ≠ '\n')) (ms.dropWhile isIdentChar)
          rw [heq] at hnot
          simpa using hnot
        refine ⟨_, _, _, _, fun c => List.mem_takeWhile_imp, List.all_eq_true.mp hblank, ?_, ?_, hc, ?_⟩
        · intro hmem
          simpa using List.mem_takeWhile_imp hmem
        · subst hnewline
          rw [List.take_append_drop, ← heq, List.append_assoc, List.takeWhile_append_dropWhile,
            List.takeWhile_append_dropWhile]
        · rw [List.length_take, Nat.min_eq_left hle]
      · cases h
    · cases h

/-! ## From the lexer to the relation -/

theorem heredocStart?_some {rest text : Text} {n : Nat} (h : heredocStart? rest = some (n, text)) :
    ∃ dash m ms, (dash = [] ∨ dash = ['-']) ∧ isIdentStart m = true ∧ text = m :: ms ∧
      rest = '<' :: (dash ++ m :: ms) ∧ n = dash.length + 1 := by
  unfold heredocStart? at h
  split at h
  · next c after =>
    split at h
    · next hc =>
      cases h
      exact ⟨['-'], c, after, .inr rfl, hc, rfl, rfl, rfl⟩
    · cases h
  · next c after _ =>
    split at h
    · next hc =>
      cases h
      exact ⟨[], c, after, .inl rfl, hc, rfl, rfl, rfl⟩
    · cases h
  · cases h

theorem heredocStart?_of_marker {dash : Text} {m : Char} (ms : Text)
    (hd : dash = [] ∨ dash = ['-']) (hm : isIdentStart m = true) :
    heredocStart? ('<' :: (dash ++ m :: ms)) = some (dash.length + 1, m :: ms) := by
  obtain rfl | rfl := hd
  · have hne : m ≠ '-' := by
      rintro rfl
      cases hm
    unfold heredocStart?
    split
    · next heq =>
      cases heq
      exact absurd rfl hne
    · next heq =>
      cases heq
      rw [if_pos hm]
      rfl
    · next hno => exact absurd rfl (hno _ _)
  · unfold heredocStart?
    rw [List.singleton_append]
    simp only [hm, if_true]
    rfl

/-- The kinds of marks and operators. -/
def symbolKinds : List Kind :=
  [.lbrace, .rbrace, .lbrack, .rbrack, .lparen, .rparen, .equal, .comma, .dot, .colon, .doubleColon,
   .question, .ellipsis, .fatArrow, .operator]

theorem symbol?_kind {c : Char} {rest : Text} {kind : Kind} {n : Nat}
    (h : symbol? c rest = some (kind, n)) : kind ∈ symbolKinds := by
  unfold symbol? at h
  split at h
  all_goals try (cases h; decide)
  split at h
  · next k hk =>
    cases h
    unfold markKind? at hk
    split at hk <;> cases hk <;> decide
  · split at h
    · cases h
      decide
    · cases h

theorem symbol?_length_le {c : Char} {rest : Text} {kind : Kind} {n : Nat}
    (h : symbol? c rest = some (kind, n)) : n ≤ rest.length := by
  unfold symbol? at h
  split at h
  all_goals try (cases h; simp)
  split at h
  · cases h
    exact Nat.zero_le _
  · split at h
    · cases h
      exact Nat.zero_le _
    · cases h

theorem length_takeWhile_le {α : Type} (p : α → Bool) (xs : List α) :
    (xs.takeWhile p).length ≤ xs.length := (List.takeWhile_prefix p).length_le

theorem take_length_takeWhile {α : Type} (p : α → Bool) (xs : List α) :
    xs.take (xs.takeWhile p).length = xs.takeWhile p :=
  (List.prefix_iff_eq_take.mp (List.takeWhile_prefix p)).symm

theorem head?_dropWhile {α : Type} {p : α → Bool} {xs : List α} {x : α}
    (h : (xs.dropWhile p).head? = some x) : p x = false := by
  have hnot := List.head?_dropWhile_not p xs
  rw [h] at hnot
  exact hnot

theorem fractionLength_le (t : Text) : fractionLength t ≤ t.length := by
  unfold fractionLength
  split
  · next c rest =>
    have := length_takeWhile_le Text.isDigit rest
    split
    · simp
      omega
    · exact Nat.zero_le _
  · exact Nat.zero_le _

theorem exponentLength_le (t : Text) : exponentLength t ≤ t.length := by
  unfold exponentLength
  split
  · next e rest =>
    split
    · split
      · next s digits =>
        have h₁ := length_takeWhile_le Text.isDigit digits
        have h₂ := length_takeWhile_le Text.isDigit (s :: digits)
        simp only [List.length_cons] at h₂ ⊢
        split
        · split <;> omega
        · split <;> omega
      · exact Nat.zero_le _
    · exact Nat.zero_le _
  · exact Nat.zero_le _

theorem numberLength_le (t : Text) : numberLength t ≤ t.length := by
  unfold numberLength
  have hw := length_takeWhile_le Text.isDigit t
  generalize (t.takeWhile Text.isDigit).length = whole at hw
  have hf := fractionLength_le (t.drop whole)
  have he := exponentLength_le (t.drop (whole + fractionLength (t.drop whole)))
  rw [List.length_drop] at hf he
  dsimp only
  omega

theorem scanQuoted_length {offset : Nat} {rest after : Text} {parts : List Template.Part}
    (h : Template.scanQuoted offset ('"' :: rest) = .ok (parts, after)) :
    ∃ used literal, rest = used ++ after ∧ Template.Scans [] used literal ∧
      (parts.flatMap Template.Part.written).length + 1 = used.length := by
  obtain ⟨used, literal, heq, hs, -, hw⟩ := Template.scanQuoted_moved h
  exact ⟨used, literal, (List.cons.inj heq).2, hs, by rw [← hw]; simp⟩

/-- Every token that the lexer takes fits where it stands. -/
theorem fits_of_lexeme {offset n : Nat} {c : Char} {rest : Text} {kind : Kind}
    (h : lexeme offset c rest = .ok (kind, n)) :
    n ≤ rest.length ∧ Fits kind (c :: rest.take n) (rest.drop n) := by
  unfold lexeme at h
  split at h
  · next hc =>
    cases h
    subst hc
    exact ⟨Nat.zero_le _, .newline⟩
  next hnewline =>
  split at h
  · next hc =>
    cases h
    unfold lineCommentLength
    rw [take_length_takeWhile, drop_length_takeWhile]
    refine ⟨length_takeWhile_le _ _, .lineComment ?_ ?_ ?_⟩
    · simp only [Bool.or_eq_true, Bool.and_eq_true, decide_eq_true_eq] at hc
      obtain rfl | ⟨rfl, hslash⟩ := hc
      · exact .inl rfl
      · obtain ⟨rest, rfl⟩ := List.head?_eq_some_iff.mp hslash
        exact .inr ⟨rfl, by simp [List.takeWhile_cons_of_pos]⟩
    · intro hmem
      simpa using List.mem_takeWhile_imp hmem
    · intro d hd
      simpa using head?_dropWhile hd
  next hline =>
  split at h
  · next hc =>
    simp only [Bool.and_eq_true, decide_eq_true_eq] at hc
    obtain ⟨rfl, hstar⟩ := hc
    obtain ⟨rest, rfl⟩ := List.head?_eq_some_iff.mp hstar
    split at h
    · next inside after hcut =>
      cases h
      obtain ⟨hrest, hno⟩ := cut?_comment hcut
      rw [List.tail_cons] at hrest
      subst hrest
      refine ⟨by simp, ?_⟩
      have hsplit : '*' :: (inside ++ '*' :: '/' :: after) =
          ('*' :: (inside ++ ['*', '/'])) ++ after := by simp
      have hlen : inside.length + 3 = ('*' :: (inside ++ ['*', '/'])).length := by simp
      rw [hsplit, hlen, List.take_left, List.drop_left]
      exact .blockComment hno
    · cases h
  next hblock =>
  split at h
  · next hc =>
    subst hc
    split at h
    · next parts after hscan =>
      cases h
      obtain ⟨used, literal, rfl, hs, hlen⟩ := scanQuoted_length hscan
      rw [hlen, List.take_left, List.drop_left]
      exact ⟨by simp, .string hs⟩
    · cases h
  next hquote =>
  split at h
  · next hc =>
    cases h
    have hle := numberLength_le rest
    refine ⟨hle, .number hc ?_⟩
    rw [List.take_append_drop, List.length_take, Nat.min_eq_left hle]
  next hdigit =>
  split at h
  · next hc =>
    cases h
    rw [take_length_takeWhile, drop_length_takeWhile]
    exact ⟨length_takeWhile_le _ _, .ident (by simpa using hdigit) hc
      (fun d => List.mem_takeWhile_imp) (fun d => head?_dropWhile)⟩
  next hident =>
  split at h
  · next introLength text hstart =>
    obtain ⟨hc, hstart⟩ : c = '<' ∧ heredocStart? rest = some (introLength, text) := by
      split at hstart
      · next hc => exact ⟨hc, hstart⟩
      · cases hstart
    obtain ⟨dash, m, ms, hd, hm, rfl, rfl, rfl⟩ := heredocStart?_some hstart
    subst hc
    cases hbody : heredocBodyLength (m :: ms) with
    | error e =>
      rw [hbody] at h
      cases h
    | ok k =>
      rw [hbody] at h
      cases h
      obtain ⟨marker, header, body, after, hmarker, hheader, hn, rfl, hcl, rfl⟩ :=
        heredocBodyLength_ok hm hbody
      have hsplit : '<' :: (dash ++ m :: (marker ++ header ++ '\n' :: (body ++ after))) =
          ('<' :: (dash ++ m :: marker ++ header ++ '\n' :: body)) ++ after := by simp
      have hlen : dash.length + 1 + (marker.length + 1 + header.length + 1 + body.length) =
          ('<' :: (dash ++ m :: marker ++ header ++ '\n' :: body)).length := by
        simp
        omega
      rw [hsplit, hlen, List.take_left, List.drop_left]
      exact ⟨by simp, .heredoc hd hm hmarker hheader hn hcl⟩
  · next hstart =>
    split at h
    · next found hfound =>
      obtain ⟨k, n'⟩ := found
      cases h
      have hle := symbol?_length_le hfound
      refine ⟨hle, .symbol ?_ ?_ ?_⟩
      · rw [List.take_append_drop]
        simp only [Bool.or_eq_true, Bool.and_eq_true, decide_eq_true_eq, not_or, not_and] at hline hblock
        rintro (rfl | ⟨rfl, hpre | hpre⟩)
        · exact hline.1 rfl
        · obtain ⟨t, rfl⟩ := hpre
          exact hline.2 rfl rfl
        · obtain ⟨t, rfl⟩ := hpre
          exact hblock rfl rfl
      · intro hc
        rw [List.take_append_drop]
        rw [if_pos hc] at hstart
        exact hstart
      · rw [List.take_append_drop, List.length_take, Nat.min_eq_left hle]
        exact hfound
    · cases h

/-! ## From the relation to the lexer -/

def symbolChars : List Char := ".=:!<>&|{}[](),?+-*/%".toList

theorem symbolChars_plain : ∀ c ∈ symbolChars, isSeparator c = false ∧ Text.isDigit c = false ∧
    isIdentStart c = false ∧ c ≠ '"' ∧ c ≠ '#' ∧ isIdentChar c = (c == '-') := by
  have hall : symbolChars.all (fun c => !isSeparator c && !Text.isDigit c && !isIdentStart c &&
      c != '"' && c != '#' && isIdentChar c == (c == '-')) = true := by decide
  intro c hc
  simpa [and_assoc] using List.all_eq_true.mp hall c hc

theorem mem_symbolChars {c : Char} {rest : Text} {found : Kind × Nat}
    (h : symbol? c rest = some found) : c ∈ symbolChars := by
  unfold symbol? at h
  split at h
  all_goals try decide
  split at h
  · next kind hk =>
    unfold markKind? at hk
    split at hk <;> first | decide | cases hk
  · split at h
    · next hc =>
      simp only [List.contains_iff_mem, List.mem_cons, List.not_mem_nil, or_false] at hc
      rcases hc with rfl | rfl | rfl | rfl | rfl | rfl | rfl | rfl <;> decide
    · cases h

/-- The first character of a token is no separator, unless the token is a line feed. -/
theorem fits_head {kind : Kind} {text after : Text} (h : Fits kind text after) :
    ∃ c t, text = c :: t ∧ (isSeparator c = false ∨ c = '\n' ∧ kind = .newline ∧ t = []) := by
  cases h with
  | newline => exact ⟨_, _, rfl, .inr ⟨rfl, rfl, rfl⟩⟩
  | lineComment hc =>
    refine ⟨_, _, rfl, .inl ?_⟩
    rcases hc with rfl | ⟨rfl, -⟩ <;> decide
  | blockComment => exact ⟨_, _, rfl, .inl (by decide)⟩
  | string => exact ⟨_, _, rfl, .inl (by decide)⟩
  | number hc =>
    refine ⟨_, _, rfl, .inl (Bool.eq_false_iff.mpr fun hs => ?_)⟩
    rw [(separator_notWord hs).2.2] at hc
    cases hc
  | ident _ hc =>
    refine ⟨_, _, rfl, .inl (Bool.eq_false_iff.mpr fun hs => ?_)⟩
    rw [(separator_notIdent hs).2] at hc
    cases hc
  | heredoc => exact ⟨_, _, rfl, .inl (by decide)⟩
  | symbol _ _ hs => exact ⟨_, _, rfl, .inl (symbolChars_plain _ (mem_symbolChars hs)).1⟩

theorem lexeme_of_fits {kind : Kind} {c : Char} {t after : Text} (h : Fits kind (c :: t) after)
    (offset : Nat) : lexeme offset c (t ++ after) = .ok (kind, t.length) := by
  generalize htext : c :: t = text at h
  cases h with
  | newline =>
    cases htext
    rfl
  | lineComment hc hn he =>
    cases htext
    have hne : c ≠ '\n' := by rcases hc with rfl | ⟨rfl, -⟩ <;> decide
    have hslash : (c = '#' || (c = '/' && (t ++ after).head? = some '/')) = true := by
      rcases hc with rfl | ⟨rfl, u, rfl⟩ <;> simp
    have hlen : lineCommentLength (t ++ after) = t.length := by
      unfold lineCommentLength
      rw [takeWhile_append_of_all]
      · intro d hd
        exact decide_eq_true fun h => hn (h ▸ hd)
      · intro d hd
        simpa using he d hd
    rw [lexeme, if_neg hne, if_pos hslash, hlen]
  | blockComment hno =>
    cases htext
    have hcut := cut?_of_comment after hno
    rw [lexeme, if_neg (by decide), if_neg (by simp), if_pos (by simp)]
    simp only [List.cons_append, List.tail_cons, List.append_assoc, List.nil_append, hcut]
    simp
  | string hs =>
    cases htext
    obtain ⟨parts, hrun, hw, -⟩ := Template.scanQuoted_of_scans hs
    rw [lexeme, if_neg (by decide), if_neg (by simp), if_neg (by simp), if_pos rfl,
      ← List.cons_append, hrun, ← hw]
    simp
  | number hc hlen =>
    cases htext
    have hne (d : Char) (hd : Text.isDigit d = false) : c ≠ d := by
      rintro rfl
      rw [hc] at hd
      cases hd
    rw [lexeme, if_neg (hne _ (by decide)), if_neg (by simp [hne '#' (by decide), hne '/' (by decide)]),
      if_neg (by simp [hne '/' (by decide)]), if_neg (hne _ (by decide)), if_pos hc, hlen]
  | ident hdigit hc ht ha =>
    cases htext
    have hne (d : Char) (hd : isIdentStart d = false) : c ≠ d := by
      rintro rfl
      rw [hc] at hd
      cases hd
    rw [lexeme, if_neg (hne _ (by decide)), if_neg (by simp [hne '#' (by decide), hne '/' (by decide)]),
      if_neg (by simp [hne '/' (by decide)]), if_neg (hne _ (by decide)), if_neg (by simp [hdigit]),
      if_pos hc, takeWhile_append_of_all ht ha]
  | heredoc hd hm hms hh hn hcl =>
    cases htext
    rename_i dash m ms header body
    have hsplit : '<' :: (dash ++ m :: ms ++ header ++ '\n' :: body) ++ after =
        '<' :: (dash ++ m :: (ms ++ header ++ '\n' :: (body ++ after))) := by simp
    have hmarker : ∀ d ∈ m :: ms, isIdentChar d = true := by
      intro d hd
      obtain rfl | hd := List.mem_cons.mp hd
      · exact isIdentChar_of_isIdentStart hm
      · exact hms d hd
    have hbody := heredocBodyLength_eq (body ++ after) hmarker hh hn
    rw [heredocLength?_of_closes hcl] at hbody
    rw [hsplit, lexeme, if_neg (by decide), if_neg (by simp), if_neg (by simp), if_neg (by decide),
      if_neg (by decide), if_neg (by decide), if_pos rfl, heredocStart?_of_marker _ hd hm]
    change (heredocBodyLength (m :: ms ++ header ++ '\n' :: (body ++ after))).map _ = _
    rw [hbody]
    simp only [Except.map, List.length_cons, List.length_append]
    congr 2
    omega
  | symbol hcomment hheredoc hs =>
    cases htext
    obtain ⟨hsep, hdigit, hident, hquote, hhash, -⟩ := symbolChars_plain _ (mem_symbolChars hs)
    have hnewline : c ≠ '\n' := by
      rintro rfl
      cases hsep
    have hline : ¬ (c = '#' || (c = '/' && (t ++ after).head? = some '/')) = true := by
      simp only [Bool.or_eq_true, Bool.and_eq_true, decide_eq_true_eq]
      rintro (hc | ⟨hc, hslash⟩)
      · exact hhash hc
      · obtain ⟨u, hu⟩ := List.head?_eq_some_iff.mp hslash
        exact hcomment (.inr ⟨hc, .inl ⟨u, hu.symm⟩⟩)
    have hblock : ¬ (c = '/' && (t ++ after).head? = some '*') = true := by
      simp only [Bool.and_eq_true, decide_eq_true_eq]
      rintro ⟨hc, hstar⟩
      obtain ⟨u, hu⟩ := List.head?_eq_some_iff.mp hstar
      exact hcomment (.inr ⟨hc, .inr ⟨u, hu.symm⟩⟩)
    have hno : (if c = '<' then heredocStart? (t ++ after) else none) = none := by
      split
      · next hc => exact hheredoc hc
      · rfl
    rw [lexeme, if_neg hnewline, if_neg hline, if_neg hblock, if_neg hquote, if_neg (by simp [hdigit]),
      if_neg (by simp [hident]), hno, hs]

end HclTidy.Token
