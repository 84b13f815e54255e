import HclTidy.Layout.Basic
import HclTidy.Proofs.Token.Respace

/-!
# The rows of a sequence of lexemes

A row is what stands on one line: the end of a token that began further up, the lexemes that begin
on the line, and the layout characters behind them. The last lexeme of a row may go on below. The
rows of a text that has tokens are those of its lexemes.
-/

set_option autoImplicit false

namespace HclTidy

namespace Layout

open Token

/-- What stands on one line; `start` is the position behind `lead`. -/
structure LexRow where
  start : Position
  lead : Option Text
  lexemes : List Lexeme
  tail : Text

/-- A line that is wholly inside a token. -/
def LexRow.inner (start : Position) (line : Text) : LexRow := ⟨start, some line, [], []⟩

def firstLine (t : Text) : Text := t.takeWhile (· ≠ '\n')

def LexRow.text (r : LexRow) : Text := r.lead.getD [] ++ firstLine (textOf r.lexemes r.tail)

def LexRow.row (r : LexRow) : Row := ⟨r.text, tokensAt r.start r.lexemes, r.lead.isSome⟩

/-- The rows of `ws`, where `lead` and `front` have been found on the line before them. -/
def lexRows (start : Position) (lead : Option Text) (front : List Lexeme) :
    List Lexeme → Text → List LexRow
  | [], tail => [⟨start, lead, front, tail⟩]
  | w :: ws, tail =>
    let behind := start.after (textOf (front ++ [w]) [])
    if w.kind = .newline then ⟨start, lead, front, w.gap⟩ :: lexRows behind none [] ws tail
    else
      match Text.lines w.text with
      | _ :: second :: more =>
        ⟨start, lead, front ++ [w], []⟩ ::
          ((second :: more).dropLast.map (LexRow.inner start) ++
            lexRows behind (some ((second :: more).getLast (by simp))) [] ws tail)
      | _ => lexRows start lead (front ++ [w]) ws tail

theorem lines_eq_cons_cons {t : Text} (h : '\n' ∈ t) :
    ∃ first second more, Text.lines t = first :: second :: more := by
  obtain hn | ⟨a, b, ha, rfl⟩ := Text.eq_or_append_newline t
  · exact absurd h hn
  · rw [Text.lines_append_newline b ha]
    obtain ⟨second, more, hl⟩ := List.exists_cons_of_ne_nil (Text.lines_ne_nil b)
    exact ⟨a, second, more, by rw [hl]⟩

theorem firstLine_of_not_mem {t : Text} (h : '\n' ∉ t) : firstLine t = t := by
  refine List.takeWhile_eq_self_iff.mpr ?_
  intro c hc
  exact decide_eq_true fun he => h (he ▸ hc)

theorem firstLine_append_newline {a : Text} (b : Text) (h : '\n' ∉ a) :
    firstLine (a ++ '\n' :: b) = a := by
  refine takeWhile_append_of_all ?_ ?_
  · intro c hc
    exact decide_eq_true fun he => h (he ▸ hc)
  · rintro c ⟨⟩
    rfl

/-! ## Tokens on a line -/

/-- No line feed in the texts and gaps of lexemes. -/
def OneLine (ws : List Lexeme) : Prop := ∀ w ∈ ws, '\n' ∉ w.gap ∧ '\n' ∉ w.text

theorem newline_not_mem_textOf {ws : List Lexeme} {after : Text} (h : OneLine ws)
    (ha : '\n' ∉ after) : '\n' ∉ textOf ws after := by
  induction ws with
  | nil => exact ha
  | cons w ws ih =>
    obtain ⟨hg, ht⟩ := h w (List.mem_cons_self ..)
    have hrest := ih fun v hv => h v (List.mem_cons_of_mem _ hv)
    rw [textOf_cons]
    simp only [List.mem_append, not_or]
    exact ⟨hg, ht, hrest⟩

theorem count_textOf {ws : List Lexeme} (h : OneLine ws) (after : Text) :
    (textOf ws after).count '\n' = after.count '\n' := by
  have hnil := List.count_eq_zero.mpr (newline_not_mem_textOf h List.not_mem_nil)
  rw [textOf_eq_append, List.count_append, hnil, Nat.zero_add]

theorem tokensAt_line {p : Position} {ws : List Lexeme} (h : OneLine ws) :
    ∀ t ∈ tokensAt p ws, t.start.line = p.line ∧ t.lineFeeds = 0 := by
  induction ws generalizing p with
  | nil => nofun
  | cons w ws ih =>
    obtain ⟨hg, ht⟩ := h w (List.mem_cons_self ..)
    intro t hm
    have hline : (p.after w.gap).line = p.line := by
      rw [Position.after_line, List.count_eq_zero.mpr hg, Nat.add_zero]
    obtain rfl | hm := List.mem_cons.mp hm
    · exact ⟨hline, List.count_eq_zero.mpr ht⟩
    · have hrest := ih (fun v hv => h v (List.mem_cons_of_mem _ hv)) t hm
      rw [Position.after_line, hline, List.count_eq_zero.mpr ht, Nat.add_zero] at hrest
      exact hrest

theorem le_line_of_mem_tokensAt {p : Position} {ws : List Lexeme} :
    ∀ t ∈ tokensAt p ws, p.line ≤ t.start.line := by
  induction ws generalizing p with
  | nil => nofun
  | cons w ws ih =>
    intro t hm
    obtain rfl | hm := List.mem_cons.mp hm
    · change p.line ≤ (p.after w.gap).line
      rw [Position.after_line]
      omega
    · have hrest := ih t hm
      rw [Position.after_line, Position.after_line] at hrest
      omega

/-- Tokens stand in the order of their lines, and a line break ends its line. -/
theorem lines_tokensAt {tail : Text} {ws : List Lexeme} (hfit : AllFit ws tail) (p : Position) :
    (tokensAt p ws).Pairwise fun t u =>
      t.start.line ≤ u.start.line ∧ (t.kind = .newline → t.start.line < u.start.line) := by
  induction ws generalizing p with
  | nil => exact .nil
  | cons w ws ih =>
    obtain ⟨-, hw, hws⟩ := hfit
    refine .cons (fun u hu => ?_) (ih hws _)
    have hline := le_line_of_mem_tokensAt u hu
    rw [Position.after_line] at hline
    refine ⟨by dsimp only; omega, fun hn => ?_⟩
    change w.kind = .newline at hn
    rw [hn] at hw
    rw [fits_newline_text hw] at hline
    exact Nat.lt_of_succ_le hline

/-! ## The rows of the layout -/

def notNewline (t : Token) : Bool := t.kind ≠ .newline

theorem rowsFrom_cons {number : Nat} (reach : Nat) (here later : List Token) (line : Text) (rest : List Text)
    (hhere : ∀ t ∈ here, t.start.line = number) (hlater : ∀ t ∈ later, number < t.start.line) :
    rowsFrom number reach (here ++ later) (line :: rest) =
      ⟨line, here, number ≤ reach⟩ ::
        rowsFrom (number + 1) (reachOf reach here) later rest := by
  have htake : (here ++ later).takeWhile (fun t => t.start.line = number) = here := by
    refine takeWhile_append_of_all (fun t ht => decide_eq_true (hhere t ht)) ?_
    intro t ht
    have hm := hlater t (List.mem_of_head? ht)
    exact decide_eq_false (by omega)
  rw [rowsFrom, htake, List.drop_left]

theorem reachOf_le {reach number : Nat} {tokens : List Token} (hr : reach ≤ number)
    (h : ∀ t ∈ tokens, t.start.line + t.lineFeeds ≤ number) : reachOf reach tokens ≤ number := by
  induction tokens generalizing reach with
  | nil => exact hr
  | cons t tokens ih =>
    refine ih ?_ fun u hu => h u (List.mem_cons_of_mem _ hu)
    have := h t (List.mem_cons_self ..)
    change max reach (t.start.line + t.lineFeeds) ≤ number
    omega

theorem reachOf_append (reach : Nat) (us ts : List Token) :
    reachOf reach (us ++ ts) = reachOf (reachOf reach us) ts := List.foldl_append ..

/-- The rows inside a token hold no tokens of their own. -/
theorem rowsFrom_inner (number : Nat) {reach : Nat} {later : List Token} (start : Position)
    (lines rest : List Text) (hreach : number + lines.length ≤ reach)
    (hlater : ∀ t ∈ later, number + lines.length ≤ t.start.line) :
    rowsFrom number reach later (lines ++ rest) =
      (lines.map (LexRow.inner start)).map LexRow.row ++
        rowsFrom (number + lines.length) reach later rest := by
  induction lines generalizing number with
  | nil => rfl
  | cons line lines ih =>
    rw [List.length_cons] at hreach hlater ⊢
    have hrow := rowsFrom_cons reach [] later line (lines ++ rest) nofun
      (fun t ht => show number < t.start.line by have := hlater t ht; omega)
    have hinner : (LexRow.inner start line).row = ⟨line, [], number ≤ reach⟩ := by
      rw [decide_eq_true (show number ≤ reach by omega)]
      simp [LexRow.inner, LexRow.row, LexRow.text, firstLine, tokensAt]
    rw [List.nil_append] at hrow
    rw [List.cons_append, hrow, List.map_cons, List.map_cons, List.cons_append, hinner]
    change _ :: rowsFrom (number + 1) reach later (lines ++ rest) = _
    rw [ih _ (by omega) (fun t ht => by have := hlater t ht; omega), Nat.add_assoc, Nat.add_comm 1]

/-- What the rows need of lexemes: line feeds stand in tokens only. -/
def Breaks (ws : List Lexeme) : Prop :=
  ∀ w ∈ ws, '\n' ∉ w.gap ∧ (w.kind = .newline → w.text = ['\n'])

theorem filter_oneLine {p : Position} {ws : List Lexeme} (h : ∀ w ∈ ws, w.kind ≠ .newline) :
    (tokensAt p ws).filter notNewline = tokensAt p ws := by
  refine List.filter_eq_self.mpr ?_
  induction ws generalizing p with
  | nil => nofun
  | cons w ws ih =>
    intro t ht
    obtain rfl | ht := List.mem_cons.mp ht
    · exact decide_eq_true (h w (List.mem_cons_self ..))
    · exact ih (fun v hv => h v (List.mem_cons_of_mem _ hv)) t ht

theorem rowsFrom_lexRows {ws : List Lexeme} (hws : Breaks ws) :
    ∀ (start : Position) (lead : Option Text) (front : List Lexeme) (tail : Text) (reach : Nat),
      OneLine front → (∀ w ∈ front, w.kind ≠ .newline) → '\n' ∉ lead.getD [] → '\n' ∉ tail →
      reach ≤ start.line → (lead.isSome = decide (start.line ≤ reach)) →
      rowsFrom start.line reach ((tokensAt start (front ++ ws)).filter notNewline)
          (Text.lines (lead.getD [] ++ textOf (front ++ ws) tail)) =
        (lexRows start lead front ws tail).map LexRow.row := by
  induction ws with
  | nil =>
    intro start lead front tail reach hone hkind hlead htail hreach hcont
    have hn : '\n' ∉ lead.getD [] ++ textOf front tail := by
      rw [List.mem_append, not_or]
      exact ⟨hlead, newline_not_mem_textOf hone htail⟩
    have hrow := rowsFrom_cons reach (tokensAt start front) []
      (lead.getD [] ++ textOf front tail) [] (fun t ht => (tokensAt_line hone t ht).1) (List.forall_mem_nil _)
    rw [List.append_nil] at hrow
    rw [List.append_nil, filter_oneLine hkind, Text.lines_of_not_mem hn, hrow, ← hcont]
    simp only [rowsFrom, lexRows, List.map_cons, List.map_nil, LexRow.row, LexRow.text,
      firstLine_of_not_mem (newline_not_mem_textOf hone htail)]
  | cons w ws ih =>
    intro start lead front tail reach hone hkind hlead htail hreach hcont
    obtain ⟨hgap, hbreak⟩ := hws w (List.mem_cons_self ..)
    have hws' : Breaks ws := fun v hv => hws v (List.mem_cons_of_mem _ hv)
    have hsplit : front ++ w :: ws = (front ++ [w]) ++ ws := by simp
    have hfrontGap : '\n' ∉ textOf front w.gap := newline_not_mem_textOf hone hgap
    have hfrontLine := fun t ht => (tokensAt_line (p := start) hone t ht).1
    have hreachFront : reachOf reach (tokensAt start front) ≤ start.line := by
      refine reachOf_le hreach fun t ht => ?_
      obtain ⟨hl, hf⟩ := tokensAt_line hone t ht
      omega
    have hbehind : (start.after (textOf (front ++ [w]) [])).line =
        start.line + w.text.count '\n' := by
      rw [Position.after_line, textOf_concat, count_textOf hone, List.count_append,
        List.count_eq_zero.mpr hgap, List.append_nil, Nat.zero_add]
    have hlater : ∀ t ∈ (tokensAt (start.after (textOf (front ++ [w]) [])) ws).filter notNewline,
        start.line + w.text.count '\n' ≤ t.start.line := by
      intro t ht
      rw [← hbehind]
      exact le_line_of_mem_tokensAt t (List.mem_of_mem_filter ht)
    rw [hsplit]
    by_cases hk : w.kind = .newline
    · rw [hbreak hk] at hbehind hlater
      have hkeep : (tokensAt start (front ++ [w])).filter notNewline = tokensAt start front := by
        rw [tokensAt_append, List.filter_append, filter_oneLine hkind]
        simp [tokensAt, notNewline, hk]
      have htext : lead.getD [] ++ textOf ((front ++ [w]) ++ ws) tail =
          (lead.getD [] ++ textOf front w.gap) ++ '\n' :: textOf ws tail := by
        rw [textOf_append, textOf_concat, hbreak hk, textOf_eq_append front w.gap,
          textOf_eq_append front]
        simp
      have hno : '\n' ∉ lead.getD [] ++ textOf front w.gap := by
        rw [List.mem_append, not_or]
        exact ⟨hlead, hfrontGap⟩
      rw [tokensAt_append, List.filter_append, hkeep, htext, Text.lines_append_newline _ hno,
        rowsFrom_cons _ _ _ _ _ hfrontLine (fun t ht => Nat.lt_of_succ_le (hlater t ht)), ← hcont,
        lexRows, if_pos hk]
      have hrest := ih hws' (start.after (textOf (front ++ [w]) [])) none [] tail
        (reachOf reach (tokensAt start front)) (List.forall_mem_nil _) (List.forall_mem_nil _) List.not_mem_nil htail
        (by rw [hbehind]; simp; omega) (by rw [hbehind]; simp; omega)
      rw [hbehind] at hrest
      simp only [List.map_cons, LexRow.row, LexRow.text, firstLine_of_not_mem hfrontGap]
      exact congrArg _ hrest
    · by_cases hn : '\n' ∈ w.text
      · obtain ⟨first, second, more, hlines⟩ := lines_eq_cons_cons hn
        have hsep := Text.newline_not_mem_lines w.text
        have hcount := Text.lines_length w.text
        have hwtext := Text.unlines_lines w.text
        rw [hlines] at hsep hcount hwtext
        rw [Text.unlines_cons (by simp)] at hwtext
        have hfirst : '\n' ∉ textOf front (w.gap ++ first) := by
          refine newline_not_mem_textOf hone ?_
          rw [List.mem_append, not_or]
          exact ⟨hgap, hsep first (List.mem_cons_self ..)⟩
        have hno : '\n' ∉ lead.getD [] ++ textOf front (w.gap ++ first) := by
          rw [List.mem_append, not_or]
          exact ⟨hlead, hfirst⟩
        have hwhole (after : Text) : textOf (front ++ [w]) after =
            textOf front (w.gap ++ first) ++
              '\n' :: (Text.unlines (second :: more) ++ after) := by
          rw [textOf_concat, ← hwtext, textOf_eq_append front, textOf_eq_append front (w.gap ++ first)]
          simp
        have hline : firstLine (textOf (front ++ [w]) []) = textOf front (w.gap ++ first) := by
          rw [hwhole [], firstLine_append_newline _ hfirst]
        have hlinesOf : Text.lines (lead.getD [] ++ textOf ((front ++ [w]) ++ ws) tail) =
            (lead.getD [] ++ textOf front (w.gap ++ first)) ::
              ((second :: more).dropLast ++
                Text.lines ((second :: more).getLast (by simp) ++ textOf ws tail)) := by
          rw [textOf_append, hwhole, ← List.append_assoc, Text.lines_append_newline _ hno,
            Text.lines_unlines_append (by simp) (fun l hl => hsep l (List.mem_cons_of_mem _ hl))]
        have hkind' : ∀ v ∈ front ++ [w], v.kind ≠ .newline := by
          intro v hv
          obtain hv | hv := List.mem_append.mp hv
          · exact hkind v hv
          · rw [List.mem_singleton.mp hv]
            exact hk
        have hmid : (second :: more).dropLast.length + 1 = w.text.count '\n' := by
          rw [List.length_dropLast]
          simp only [List.length_cons] at hcount ⊢
          omega
        have hwline : ((start.after (textOf front [])).after w.gap).line = start.line := by
          rw [Position.after_line, Position.after_line, count_textOf hone,
            List.count_eq_zero.mpr hgap]
          rfl
        have hhere : ∀ t ∈ tokensAt start (front ++ [w]), t.start.line = start.line := by
          intro t ht
          rw [tokensAt_append] at ht
          obtain ht | ht := List.mem_append.mp ht
          · exact hfrontLine t ht
          · rw [List.mem_singleton.mp ht]
            exact hwline
        have hreachHere : reachOf reach (tokensAt start (front ++ [w])) =
            start.line + w.text.count '\n' := by
          rw [tokensAt_append, reachOf_append]
          change max (reachOf reach (tokensAt start front)) (_ + _) = _
          rw [hwline]
          exact Nat.max_eq_right (by omega)
        have hrest := ih hws' (start.after (textOf (front ++ [w]) []))
          (some ((second :: more).getLast (by simp))) [] tail (start.line + w.text.count '\n')
          (List.forall_mem_nil _) (List.forall_mem_nil _) (hsep _ (List.mem_cons_of_mem _ (List.getLast_mem _))) htail
          (by rw [hbehind]) (by rw [hbehind]; simp)
        rw [hbehind] at hrest
        have hinner := rowsFrom_inner (start.line + 1) start (second :: more).dropLast
          (Text.lines ((second :: more).getLast (by simp) ++ textOf ws tail))
          (show _ ≤ start.line + w.text.count '\n' by omega)
          (fun t ht => by have := hlater t ht; omega)
        have hnumber : start.line + 1 + (second :: more).dropLast.length =
            start.line + w.text.count '\n' := by omega
        rw [hnumber] at hinner
        rw [tokensAt_append, List.filter_append, filter_oneLine hkind', hlinesOf,
          rowsFrom_cons _ _ _ _ _ hhere (fun t ht => by have := hlater t ht; omega), hreachHere, hinner,
          ← hcont, lexRows, if_neg hk, hlines]
        simp only [List.map_cons, List.map_append, LexRow.row, LexRow.text]
        rw [hline]
        exact congrArg _ (congrArg _ hrest)
      · have hone' : OneLine (front ++ [w]) := by
          intro v hv
          obtain hv | hv := List.mem_append.mp hv
          · exact hone v hv
          · rw [List.mem_singleton.mp hv]
            exact ⟨hgap, hn⟩
        have hkind' : ∀ v ∈ front ++ [w], v.kind ≠ .newline := by
          intro v hv
          obtain hv | hv := List.mem_append.mp hv
          · exact hkind v hv
          · rw [List.mem_singleton.mp hv]
            exact hk
        rw [lexRows, if_neg hk, Text.lines_of_not_mem hn]
        exact ih hws' start lead (front ++ [w]) tail reach hone' hkind' hlead htail hreach hcont

theorem breaks_of_allFit {ws : List Lexeme} {after : Text} (h : AllFit ws after) : Breaks ws := by
  induction ws with
  | nil => nofun
  | cons w ws ih =>
    obtain ⟨hgap, hfit, hrest⟩ := h
    intro v hv
    obtain rfl | hv := List.mem_cons.mp hv
    · refine ⟨isGap_newline hgap, fun hk => ?_⟩
      rw [hk] at hfit
      exact fits_newline_text hfit
    · exact ih hrest v hv

/-- The rows of a text are those of its lexemes. -/
theorem rowsOf_textOf {ws : List Lexeme} {tail : Text} (h : AllFit ws tail) (ht : isGap tail) :
    rowsOf (textOf ws tail) (tokensAt Position.start ws) =
      (lexRows Position.start none [] ws tail).map LexRow.row :=
  rowsFrom_lexRows (breaks_of_allFit h) Position.start none [] tail 0 nofun nofun List.not_mem_nil
    (isGap_newline ht) (Nat.zero_le _) rfl

end Layout

end HclTidy
