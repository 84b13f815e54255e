import HclTidy.Proofs.Layout.Relay

/-!
# The canonical layout of a text

The canonical layout of a text that has tokens is the text in another layout, without the empty
lines at both ends. It is written as a sequence of lexemes that ends in a line feed.
-/

set_option autoImplicit false

namespace HclTidy.Layout

open Token

/-- A line feed with layout characters in front of it. -/
def lineFeed (gap : Text) : Lexeme := ⟨gap, .newline, ['\n']⟩

/-! ## Cells and lines of a text -/

/-- The cells of rows, from the openings above them. -/
def cellsFrom (openings : Openings) : List LexRow → List Cell
  | [] => []
  | r :: rest => r.cell openings :: cellsFrom (lineOf openings r.row).2 rest

/-- The cells of lexemes with layout characters behind them. -/
def cellsOf (ws : List Lexeme) (tail : Text) : List Cell :=
  cellsFrom [] (lexRows Position.start none [] ws tail)

theorem shaped_linesFrom {rows : List LexRow} (h : ∀ r ∈ rows, r.Ok) (openings : Openings) :
    List.Forall₂ Shaped (linesFrom openings (rows.map LexRow.row)) (cellsFrom openings rows) := by
  induction rows generalizing openings with
  | nil => exact .nil
  | cons r rows ih =>
    exact .cons (shaped_lineOf (h r (List.mem_cons_self ..)) openings)
      (ih (fun q hq => h q (List.mem_cons_of_mem _ hq)) _)

theorem ok_rows {ws : List Lexeme} {tail : Text} (h : AllFit ws tail) (ht : isGap tail) :
    ∀ r ∈ lexRows Position.start none [] ws tail, r.Ok :=
  ok_lexRows Position.start none [] tail h ht nofun fun _ => rfl

theorem format_textOf {ws : List Lexeme} {tail : Text} (h : AllFit ws tail) (ht : isGap tail) :
    format (textOf ws tail) = finish (Cell.lines (cellsOf ws tail)) := by
  unfold format TokenStream.ofText linesOf
  rw [readAll_textOf h ht]
  simp only [rowsOf_textOf h ht]
  rw [written_lines (shaped_linesFrom (ok_rows h ht) [])]
  rfl

theorem relaidAs_cellsFrom {rows : List LexRow} (h : ∀ r ∈ rows, r.Ok) (openings : Openings)
    {outs : List Text} (houts : List.Forall₂ Cell.WrittenAs (cellsFrom openings rows) outs) :
    List.Forall₂ RelaidAs rows outs := by
  induction rows generalizing openings outs with
  | nil =>
    cases houts
    exact .nil
  | cons r rows ih =>
    cases houts with
    | cons hout hrest =>
      exact .cons (relaidAs_of_writtenAs (h r (List.mem_cons_self ..)) hout)
        (ih (fun q hq => h q (List.mem_cons_of_mem _ hq)) _ hrest)

/-! ## The lines as lexemes -/

/-- A line without tokens is empty; `first` tells that a line begins in front of the lexemes. -/
def Tidy : Bool → List Lexeme → Prop
  | _, [] => True
  | first, w :: ws => (first = true → w.kind = .newline → w.gap = []) ∧ Tidy (w.kind = .newline) ws

theorem tidy_append {first : Bool} {us ws : List Lexeme} (hk : ∀ w ∈ us, w.kind ≠ .newline)
    (h : Tidy (first && us.isEmpty) ws) : Tidy first (us ++ ws) := by
  induction us generalizing first with
  | nil => simpa using h
  | cons u us ih =>
    have hu := hk u (List.mem_cons_self ..)
    refine ⟨fun _ hn => absurd hn hu, ih (fun v hv => hk v (List.mem_cons_of_mem _ hv)) ?_⟩
    rw [decide_eq_false hu, Bool.false_and]
    simpa using h

theorem relaid_kind {first : Bool} {ws ws' : List Lexeme} (h : Relaid first ws ws')
    (hk : ∀ w ∈ ws, w.kind ≠ .newline) : ∀ w ∈ ws', w.kind ≠ .newline := by
  induction h with
  | nil => nofun
  | cons hkind htext hgap hrest ih =>
    rename_i first w w' ws ws'
    intro v hv
    obtain rfl | hv := List.mem_cons.mp hv
    · rw [hkind]
      exact hk w (List.mem_cons_self ..)
    · exact ih (fun u hu => hk u (List.mem_cons_of_mem _ hu)) v hv

theorem relaid_isEmpty {first : Bool} {ws ws' : List Lexeme} (h : Relaid first ws ws') :
    ws'.isEmpty = ws.isEmpty := by
  cases h <;> rfl

theorem relaid_concat {first : Bool} {us vs : List Lexeme} {w : Lexeme}
    (h : Relaid first (us ++ [w]) vs) :
    ∃ us' w', vs = us' ++ [w'] ∧ Relaid first us us' ∧ isGap w'.gap ∧
      (w'.text = w.text ∨ w'.text = Text.trimFirst w.text) := by
  induction us generalizing first vs with
  | nil =>
    cases h with
    | cons hkind htext hgap hrest =>
      cases hrest
      exact ⟨[], _, rfl, .nil, hgap.isGap, htext⟩
  | cons u us ih =>
    cases h with
    | cons hkind htext hgap hrest =>
      obtain ⟨us', w', rfl, hus, hw⟩ := ih hrest
      exact ⟨_ :: us', w', rfl, .cons hkind htext hgap hus, hw⟩

theorem lines_trimFirst {text first second : Text} {more : List Text}
    (h : Text.lines text = first :: second :: more) :
    Text.lines (Text.trimFirst text) = Text.trimRight first :: second :: more := by
  obtain hn | ⟨a, b, ha, rfl⟩ := Text.eq_or_append_newline text
  · rw [Text.lines_of_not_mem hn] at h
    cases h
  · rw [Text.lines_append_newline b ha, List.cons.injEq] at h
    obtain ⟨rfl, hb⟩ := h
    rw [Text.trimFirst_append_newline b ha,
      Text.lines_append_newline b (Text.newline_not_mem_trimRight ha), hb]

theorem lines_kept {text text' first second : Text} {more : List Text}
    (h : text' = text ∨ text' = Text.trimFirst text) (hlines : Text.lines text = first :: second :: more) :
    ∃ first', Text.lines text' = first' :: second :: more := by
  obtain rfl | rfl := h
  · exact ⟨first, hlines⟩
  · exact ⟨_, lines_trimFirst hlines⟩

theorem relaidAs_inner {start : Position} {line out : Text} (h : RelaidAs (.inner start line) out) :
    out = line := by
  obtain ⟨us, tail, htext, hrelaid, -, hnil⟩ := h
  cases hrelaid
  rw [htext, hnil (.inl rfl)]
  exact List.append_nil line

theorem forall₂_inner {start : Position} {lines outs : List Text}
    (h : List.Forall₂ RelaidAs (lines.map (LexRow.inner start)) outs) : outs = lines := by
  rw [List.forall₂_map_left_iff] at h
  induction h with
  | nil => rfl
  | cons hout _ ih => rw [relaidAs_inner hout, ih]

/-- What is written for a line that ends in a line feed. -/
theorem relaidAs_line {start : Position} {lead : Option Text} {us : List Lexeme} {tail out : Text}
    (h : RelaidAs ⟨start, lead, us, tail⟩ out) (hone : OneLine us)
    (hk : ∀ w ∈ us, w.kind ≠ .newline) :
    ∃ us' tail', out ++ ['\n'] = lead.getD [] ++ textOf (us' ++ [lineFeed tail']) [] ∧
      List.Forall₂ Kept us us' ∧ ∀ vs vs', Respaced true vs vs' → Tidy true vs' →
        Respaced lead.isNone (us ++ lineFeed tail :: vs) (us' ++ lineFeed tail' :: vs') ∧
        Tidy lead.isNone (us' ++ lineFeed tail' :: vs') := by
  obtain ⟨us', tail', htext, hrelaid, hgap, hnil⟩ := h
  have hn : '\n' ∉ textOf us' tail' :=
    newline_not_mem_textOf (oneLine_relaid hrelaid hone) (isGap_newline hgap.isGap)
  refine ⟨us', tail', ?_, kept_of_relaid hrelaid, fun vs vs' hvs htidy => ⟨?_, ?_⟩⟩
  · rw [htext, firstLine_of_not_mem hn, textOf_concat, textOf_eq_append us',
      textOf_eq_append us' (_ ++ _)]
    simp [lineFeed]
  · refine respaced_append (respaced_of_relaid hrelaid hk) ?_
    rw [atLineStart_of_ne_newline hk]
    refine .cons rfl (.inl rfl) ?_ (fun _ h => hnil (.inl h)) hvs
    simpa [lineFeed] using hgap
  · refine tidy_append (relaid_kind hrelaid hk) ⟨?_, htidy⟩
    intro hfirst _
    rw [relaid_isEmpty hrelaid, Bool.and_eq_true, List.isEmpty_iff, Option.isNone_iff_eq_none] at hfirst
    exact hnil (.inr hfirst)

/-- What is written for a line that ends inside a token, with the lines that the token goes on over
and what is written behind it. -/
theorem relaidAs_break {start : Position} {lead : Option Text} {front : List Lexeme} {w : Lexeme}
    {out first second : Text} {more : List Text}
    (h : RelaidAs ⟨start, lead, front ++ [w], []⟩ out) (hone : OneLine front)
    (hk : ∀ v ∈ front ++ [w], v.kind ≠ .newline)
    (hlines : Text.lines w.text = first :: second :: more) :
    ∃ us', (∀ rest, out ++ '\n' :: (Text.unlines (second :: more) ++ rest) =
        lead.getD [] ++ textOf us' rest) ∧
      List.Forall₂ Kept (front ++ [w]) us' ∧ ∀ vs vs', Respaced false vs vs' → Tidy false vs' →
        Respaced lead.isNone ((front ++ [w]) ++ vs) (us' ++ vs') ∧ Tidy lead.isNone (us' ++ vs') := by
  obtain ⟨us', tail', htext, hrelaid, hgap, hnil⟩ := h
  obtain rfl : tail' = [] := hnil (.inl rfl)
  have hkept := kept_of_relaid hrelaid
  obtain ⟨front', w', rfl, hfront, hgap', hw⟩ := relaid_concat hrelaid
  obtain ⟨first', hlines'⟩ := lines_kept hw hlines
  have hwtext := Text.unlines_lines w'.text
  have hsep := Text.newline_not_mem_lines w'.text
  rw [hlines'] at hwtext hsep
  rw [Text.unlines_cons (by simp)] at hwtext
  have hfalse (us : List Lexeme) (v : Lexeme) : (lead.isNone && (us ++ [v]).isEmpty) = false := by
    cases us <;> simp
  have hn : '\n' ∉ textOf front' (w'.gap ++ first') := by
    refine newline_not_mem_textOf (oneLine_relaid hfront hone) ?_
    rw [List.mem_append, not_or]
    exact ⟨isGap_newline hgap', hsep first' (List.mem_cons_self ..)⟩
  have hwhole (rest : Text) : textOf (front' ++ [w']) rest =
      textOf front' (w'.gap ++ first') ++ '\n' :: (Text.unlines (second :: more) ++ rest) := by
    rw [textOf_concat, ← hwtext, textOf_eq_append front', textOf_eq_append front' (w'.gap ++ first')]
    simp
  refine ⟨front' ++ [w'], fun rest => ?_, hkept, fun vs vs' hvs htidy => ⟨?_, ?_⟩⟩
  · change out = lead.getD [] ++ _ at htext
    rw [htext, hwhole [], firstLine_append_newline _ hn, hwhole]
    simp
  · refine respaced_append (respaced_of_relaid hrelaid hk) ?_
    rwa [atLineStart_of_ne_newline hk, hfalse]
  · refine tidy_append (relaid_kind hrelaid hk) ?_
    rwa [hfalse]

theorem unlines_dropLast {ls outs : List Text} {x y : Text} (hls : ls ≠ []) (houts : outs ≠ [])
    (h : Text.unlines outs ++ x = ls.getLast hls ++ y) :
    Text.unlines (ls.dropLast ++ outs) ++ x = Text.unlines ls ++ y := by
  obtain hnil | ⟨front, last, rfl⟩ := List.eq_nil_or_concat' ls
  · exact absurd hnil hls
  · rw [List.getLast_concat] at h
    rw [List.dropLast_concat]
    by_cases hfront : front = []
    · rw [hfront]
      exact h
    · rw [Text.unlines_append hfront houts, Text.unlines_append hfront (by simp), List.append_assoc,
        List.append_assoc, List.cons_append, List.cons_append, h]
      rfl

theorem lexRows_ne_nil (start : Position) (lead : Option Text) (front ws : List Lexeme) (tail : Text) :
    lexRows start lead front ws tail ≠ [] := by
  induction ws generalizing start lead front with
  | nil => simp [lexRows]
  | cons w ws ih =>
    rw [lexRows]
    split
    · simp
    · split
      · simp
      · exact ih _ _ _

/-- The lines that are written for the rows of lexemes are the lexemes in another layout. -/
theorem exists_respaced {ws : List Lexeme} (hws : Breaks ws) :
    ∀ (start : Position) (lead : Option Text) (front : List Lexeme) (tail : Text) (outs : List Text),
      OneLine front → (∀ w ∈ front, w.kind ≠ .newline) →
      List.Forall₂ RelaidAs (lexRows start lead front ws tail) outs →
      ∃ vs, Text.unlines outs ++ ['\n'] = lead.getD [] ++ textOf vs [] ∧
        Respaced lead.isNone (front ++ (ws ++ [lineFeed tail])) vs ∧ Tidy lead.isNone vs ∧
        List.Forall₂ Kept (front ++ (ws ++ [lineFeed tail])) vs := by
  induction ws with
  | nil =>
    intro start lead front tail outs hone hk houts
    rw [lexRows] at houts
    cases houts with
    | cons hout hrest =>
      cases hrest
      obtain ⟨us', tail', htext, hkept, hlast⟩ := relaidAs_line hout hone hk
      obtain ⟨hrespaced, htidy⟩ := hlast [] [] .nil trivial
      exact ⟨_, htext, hrespaced, htidy, List.rel_append hkept (.cons ⟨rfl, .inl rfl⟩ .nil)⟩
  | cons w ws ih =>
    intro start lead front tail outs hone hk houts
    obtain ⟨hgap, hbreak⟩ := hws w (List.mem_cons_self ..)
    have hws' : Breaks ws := fun v hv => hws v (List.mem_cons_of_mem _ hv)
    rw [lexRows] at houts
    by_cases hw : w.kind = .newline
    · rw [if_pos hw] at houts
      cases houts with
      | cons hout hrest =>
        rename_i out outs
        obtain ⟨vs, htext, hvs, htidy, hkept⟩ := ih hws' _ none [] tail outs (List.forall_mem_nil _)
          (List.forall_mem_nil _) hrest
        obtain ⟨us', tail', hline, hkept', hlast⟩ := relaidAs_line hout hone hk
        obtain ⟨hrespaced, htidy'⟩ := hlast _ vs hvs htidy
        have hfeed : w = lineFeed w.gap := by
          have hbreak := hbreak hw
          cases w
          cases hw
          cases hbreak
          rfl
        have hne : outs ≠ [] := by
          rintro rfl
          exact lexRows_ne_nil _ _ _ _ _ (List.forall₂_nil_right_iff.mp hrest)
        refine ⟨_, ?_, ?_, htidy', List.rel_append hkept' (.cons ?_ hkept)⟩
        · calc
            Text.unlines (out :: outs) ++ ['\n'] = (out ++ ['\n']) ++ (Text.unlines outs ++ ['\n']) := by
              rw [Text.unlines_cons hne]
              simp
            _ = lead.getD [] ++ textOf (us' ++ lineFeed tail' :: vs) [] := by
              rw [htext, hline, Option.getD_none, List.nil_append, List.append_assoc,
                ← textOf_eq_append, ← textOf_append, List.append_assoc]
              rfl
        · rw [hfeed]
          exact hrespaced
        · rw [hfeed]
          exact ⟨rfl, .inl rfl⟩
    · rw [if_neg hw] at houts
      have hsplit : front ++ (w :: ws ++ [lineFeed tail]) = (front ++ [w]) ++ (ws ++ [lineFeed tail]) := by
        simp
      have hk' : ∀ v ∈ front ++ [w], v.kind ≠ .newline := by
        intro v hv
        obtain hv | hv := List.mem_append.mp hv
        · exact hk v hv
        · rw [List.mem_singleton.mp hv]
          exact hw
      rw [hsplit]
      by_cases hn : '\n' ∈ w.text
      · obtain ⟨first, second, more, hlines⟩ := lines_eq_cons_cons hn
        simp only [hlines] at houts
        cases houts with
        | cons hout hrest =>
          rename_i out outs
          obtain ⟨inner, outs, rfl, hinner, hbehind⟩ := forall₂_append_left hrest
          obtain rfl := forall₂_inner hinner
          have hne : outs ≠ [] := by
            rintro rfl
            exact lexRows_ne_nil _ _ _ _ _ (List.forall₂_nil_right_iff.mp hbehind)
          obtain ⟨vs, htext, hvs, htidy, hkept⟩ := ih hws' _ (some _) [] tail _
            (List.forall_mem_nil _) (List.forall_mem_nil _) hbehind
          obtain ⟨us', hline, hkept', hlast⟩ := relaidAs_break hout hone hk' hlines
          obtain ⟨hrespaced, htidy'⟩ := hlast _ vs hvs htidy
          refine ⟨_, ?_, hrespaced, htidy', List.rel_append hkept' hkept⟩
          rw [Text.unlines_cons (by simp [hne]), List.append_assoc, List.cons_append,
            unlines_dropLast (by simp) hne htext, hline, textOf_append]
      · have hone' : OneLine (front ++ [w]) := by
          intro v hv
          obtain hv | hv := List.mem_append.mp hv
          · exact hone v hv
          · rw [List.mem_singleton.mp hv]
            exact ⟨hgap, hn⟩
        rw [Text.lines_of_not_mem hn] at houts
        exact ih hws' start lead (front ++ [w]) tail outs hone' hk' houts

/-! ## Blank lines at both ends -/

theorem head_lines {a : Text} (b : Text) (h : '\n' ∉ a) :
    ∃ rest more, Text.lines (a ++ b) = (a ++ rest) :: more := by
  obtain hn | ⟨p, q, hp, rfl⟩ := Text.eq_or_append_newline b
  · exact ⟨b, [], Text.lines_of_not_mem (by simp [h, hn])⟩
  · exact ⟨p, Text.lines q, by
      rw [← List.append_assoc, Text.lines_append_newline q (by simp [h, hp])]⟩

theorem getLast_lines (a : Text) {b : Text} (h : '\n' ∉ b) :
    ∃ front rest, Text.lines (a ++ b) = front ++ [rest ++ b] := by
  have hne := Text.lines_ne_nil a
  refine ⟨(Text.lines a).dropLast, (Text.lines a).getLast hne, ?_⟩
  have hlast := Text.newline_not_mem_lines a _ (List.getLast_mem hne)
  have hlines := Text.lines_unlines_append hne (Text.newline_not_mem_lines a) b
  rw [Text.unlines_lines] at hlines
  have hsingle : Text.lines ((Text.lines a).getLast hne ++ b) = [(Text.lines a).getLast hne ++ b] :=
    Text.lines_of_not_mem (by simp [hlast, h])
  rw [hlines, hsingle]

theorem allBlank_eq_false {t : Text} {c : Char} (h : c ∈ t) (hc : Text.isBlank c = false) :
    Text.allBlank t = false := by
  rw [Bool.eq_false_iff]
  intro hall
  rw [List.all_eq_true.mp hall c h] at hc
  cases hc

theorem finish_append {ls : List Text} {a b : Nat}
    (hhead : ∃ l more, ls = l :: more ∧ Text.allBlank l = false)
    (hlast : ∃ l front, ls = front ++ [l] ∧ Text.allBlank l = false) :
    finish (List.replicate a [] ++ ls ++ List.replicate b []) = Text.unlines ls ++ ['\n'] := by
  have hblank (n : Nat) : ∀ l ∈ List.replicate n ([] : Text), Text.allBlank l = true := by
    intro l hl
    rw [List.eq_of_mem_replicate hl]
    rfl
  have hdrop : (List.replicate a [] ++ ls ++ List.replicate b []).dropWhile Text.allBlank =
      ls ++ List.replicate b [] := by
    obtain ⟨l, more, rfl, hl⟩ := hhead
    rw [List.append_assoc, List.dropWhile_append_of_pos (hblank a), List.cons_append,
      List.dropWhile_cons_of_neg (by rw [hl]; simp)]
  have hrev : ((ls ++ List.replicate b []).reverse.dropWhile Text.allBlank).reverse = ls := by
    obtain ⟨l, front, rfl, hl⟩ := hlast
    rw [List.reverse_append, List.reverse_replicate, List.dropWhile_append_of_pos (hblank b),
      List.reverse_append, List.reverse_singleton, List.singleton_append,
      List.dropWhile_cons_of_neg (by rw [hl]; simp)]
    simp
  have hne : ls.isEmpty = false := by
    obtain ⟨l, more, rfl, -⟩ := hhead
    rfl
  simp only [finish, hdrop, hrev, hne, Bool.false_eq_true, if_false]

theorem finish_replicate (n : Nat) : finish (List.replicate n []) = [] := by
  have hdrop : (List.replicate n ([] : Text)).dropWhile Text.allBlank = [] := by
    refine List.dropWhile_eq_nil_iff.mpr ?_
    intro l hl
    rw [List.eq_of_mem_replicate hl]
    rfl
  simp [finish, hdrop]

theorem lines_replicate (n : Nat) (t : Text) :
    Text.lines (List.replicate n '\n' ++ t) = List.replicate n [] ++ Text.lines t := by
  induction n with
  | zero => rfl
  | succ n ih =>
    rw [List.replicate_succ, List.cons_append]
    have hcons := Text.lines_append_newline (a := []) (List.replicate n '\n' ++ t) List.not_mem_nil
    rw [List.nil_append] at hcons
    rw [hcons, ih, List.replicate_succ, List.cons_append]

/-- Lines without tokens. -/
theorem textOf_newlines {ws : List Lexeme} (hk : ∀ w ∈ ws, w.kind = .newline)
    (htext : Breaks ws) (ht : Tidy true ws) (after : Text) :
    textOf ws after = List.replicate ws.length '\n' ++ after := by
  induction ws with
  | nil => rfl
  | cons w ws ih =>
    have hw := hk w (List.mem_cons_self ..)
    obtain ⟨hgap, hrest⟩ := ht
    rw [decide_eq_true hw] at hrest
    rw [textOf_cons, hgap rfl hw, (htext w (List.mem_cons_self ..)).2 hw,
      ih (fun v hv => hk v (List.mem_cons_of_mem _ hv)) (fun v hv => htext v (List.mem_cons_of_mem _ hv))
        hrest]
    rfl

theorem tidy_of_append {first : Bool} {us ws : List Lexeme} (h : Tidy first (us ++ ws)) :
    Tidy first us ∧ Tidy (atLineStart first us) ws := by
  induction us generalizing first with
  | nil => exact ⟨trivial, h⟩
  | cons u us ih => exact ⟨⟨h.1, (ih h.2).1⟩, (ih h.2).2⟩

theorem atLineStart_concat (first : Bool) (us : List Lexeme) (w : Lexeme) :
    atLineStart first (us ++ [w]) = decide (w.kind = .newline) := by
  induction us generalizing first with
  | nil => rfl
  | cons u us ih => exact ih _

theorem lines_unlines_newline {outs : List Text} (hne : outs ≠ []) (h : ∀ l ∈ outs, '\n' ∉ l) :
    Text.lines (Text.unlines outs ++ ['\n']) = outs ++ [[]] := by
  have happend : Text.unlines outs ++ ['\n'] = Text.unlines (outs ++ [[]]) := by
    rw [Text.unlines_append hne (by simp)]
    rfl
  rw [happend, Text.lines_unlines (by simp)]
  intro l hl
  obtain hl | hl := List.mem_append.mp hl
  · exact h l hl
  · rw [List.mem_singleton.mp hl]
    exact List.not_mem_nil

/-- The first and the last line of code are not blank. -/
theorem lines_ends {mid : List Lexeme} {gap after : Text} (hfit : AllFit mid after) (hg : isGap gap)
    (hhead : ∃ w more, mid = w :: more ∧ w.kind ≠ .newline)
    (hlast : ∃ w front, mid = front ++ [w] ∧ w.kind ≠ .newline) :
    (∃ l more, Text.lines (textOf mid gap) = l :: more ∧ Text.allBlank l = false) ∧
      ∃ l front, Text.lines (textOf mid gap) = front ++ [l] ∧ Text.allBlank l = false := by
  constructor
  · obtain ⟨w, more, rfl, hk⟩ := hhead
    obtain ⟨hwgap, hf, -⟩ := hfit
    obtain ⟨c, t, ht, hc⟩ := fits_head_notBlank hf hk
    have hn : '\n' ∉ w.gap ++ [c] := by
      rw [List.mem_append, not_or, List.mem_singleton]
      refine ⟨isGap_newline hwgap, ?_⟩
      rintro rfl
      cases hc
    obtain ⟨rest, lines, hlines⟩ := head_lines (t ++ textOf more gap) hn
    refine ⟨w.gap ++ [c] ++ rest, lines, ?_, allBlank_eq_false (by simp) hc⟩
    rw [← hlines, textOf_cons, ht]
    simp
  · obtain ⟨w, front, rfl, hk⟩ := hlast
    obtain ⟨-, after, hf⟩ := mem_of_allFit hfit w (by simp)
    obtain ⟨a, b, c, ht, hb, hc, hblank⟩ := fits_lastLine hf hk
    obtain ⟨lines, rest, hlines⟩ := getLast_lines (textOf front (w.gap ++ a)) (b := b ++ gap)
      (by simp [hb, isGap_newline hg])
    refine ⟨rest ++ (b ++ gap), lines, ?_, allBlank_eq_false (by simp [hc]) hblank⟩
    rw [← hlines, textOf_concat, ht, textOf_eq_append front, textOf_eq_append front (w.gap ++ a)]
    simp

theorem finish_textOf {outs : List Text} (hne : outs ≠ []) (houts : ∀ l ∈ outs, '\n' ∉ l)
    {above mid below : List Lexeme} {gap : Text}
    (htext : Text.unlines outs ++ ['\n'] = textOf (above ++ (mid ++ lineFeed gap :: below)) [])
    (hfit : AllFit (above ++ (mid ++ lineFeed gap :: below)) [])
    (htidy : Tidy true (above ++ (mid ++ lineFeed gap :: below)))
    (habove : ∀ w ∈ above, w.kind = .newline) (hbelow : ∀ w ∈ below, w.kind = .newline)
    (hhead : ∃ w more, mid = w :: more ∧ w.kind ≠ .newline)
    (hlast : ∃ w front, mid = front ++ [w] ∧ w.kind ≠ .newline) :
    finish outs = textOf (mid ++ [lineFeed gap]) [] := by
  have hbreaks := breaks_of_allFit hfit
  obtain ⟨htidyAbove, htidy⟩ := tidy_of_append htidy
  have hsplit : mid ++ lineFeed gap :: below = (mid ++ [lineFeed gap]) ++ below := by simp
  rw [hsplit] at htidy
  have htidyBelow := (tidy_of_append htidy).2
  rw [atLineStart_concat] at htidyBelow
  have hmid := (allFit_append.mp (allFit_append.mp hfit).2)
  have hgap : isGap gap := hmid.2.1
  have hlines := lines_unlines_newline hne houts
  have hfeed : textOf (lineFeed gap :: below) [] = gap ++ '\n' :: List.replicate below.length '\n' := by
    rw [textOf_cons, textOf_newlines hbelow (fun w hw => hbreaks w (by simp [hw])) htidyBelow]
    simp [lineFeed]
  have hlinesMid : Text.lines (textOf mid (gap ++ '\n' :: List.replicate below.length '\n')) =
      Text.lines (textOf mid gap) ++ (List.replicate below.length [] ++ [[]]) := by
    rw [textOf_eq_append, textOf_eq_append mid gap, ← List.append_assoc, Text.lines,
      Text.splitOn_append_separator]
    have hrep := lines_replicate below.length []
    rw [List.append_nil] at hrep
    exact congrArg _ hrep
  rw [htext, textOf_append, textOf_newlines habove (fun w hw => hbreaks w (by simp [hw])) htidyAbove,
    lines_replicate, textOf_append, hfeed, hlinesMid, ← List.append_assoc, ← List.append_assoc] at hlines
  have houtsEq := List.append_inj_left hlines (by
    have hlength := congrArg List.length hlines
    simp only [List.length_append, List.length_cons] at hlength ⊢
    omega)
  obtain ⟨hfirst, hend⟩ := lines_ends hmid.1 hgap hhead hlast
  rw [← houtsEq, finish_append hfirst hend, Text.unlines_lines, textOf_concat,
    textOf_eq_append mid gap, textOf_eq_append mid (_ ++ _)]
  simp [lineFeed]

/-! ## The canonical layout -/

theorem newline_not_mem_lead {ws : List Lexeme} {tail : Text} :
    ∀ (start : Position) (lead : Option Text) (front : List Lexeme), '\n' ∉ lead.getD [] →
      ∀ r ∈ lexRows start lead front ws tail, '\n' ∉ r.lead.getD [] := by
  induction ws with
  | nil =>
    intro start lead front hlead r hr
    rw [lexRows, List.mem_singleton] at hr
    rwa [hr]
  | cons w ws ih =>
    intro start lead front hlead r hr
    rw [lexRows] at hr
    split at hr
    · obtain rfl | hr := List.mem_cons.mp hr
      · exact hlead
      · exact ih _ none [] List.not_mem_nil r hr
    · split at hr
      · next first second more hlines =>
        have hsep := Text.newline_not_mem_lines w.text
        rw [hlines] at hsep
        obtain rfl | hr := List.mem_cons.mp hr
        · exact hlead
        · obtain hr | hr := List.mem_append.mp hr
          · obtain ⟨line, hline, rfl⟩ := List.mem_map.mp hr
            exact hsep line (List.mem_cons_of_mem _ (List.dropLast_subset _ hline))
          · exact ih _ (some _) [] (hsep _ (List.mem_cons_of_mem _ (List.getLast_mem _))) r hr
      · exact ih _ lead _ hlead r hr

theorem newline_not_mem_outs {rows : List LexRow} {outs : List Text}
    (h : List.Forall₂ RelaidAs rows outs) (hlead : ∀ r ∈ rows, '\n' ∉ r.lead.getD []) :
    ∀ out ∈ outs, '\n' ∉ out := by
  induction h with
  | nil => nofun
  | cons hout hrest ih =>
    rename_i r out rows outs
    intro l hl
    obtain rfl | hl := List.mem_cons.mp hl
    · obtain ⟨us, tail, rfl, -⟩ := hout
      rw [List.mem_append, not_or]
      refine ⟨hlead r (List.mem_cons_self ..), ?_⟩
      intro hn
      have := List.mem_takeWhile_imp hn
      simp at this
    · exact ih (fun q hq => hlead q (List.mem_cons_of_mem _ hq)) l hl

section Format

variable {ws : List Lexeme} {tail : Text}

/-- A line feed may be put behind a text, whatever follows it. -/
theorem allFit_concat_lineFeed (h : AllFit ws tail) (ht : isGap tail) (after : Text) :
    AllFit (ws ++ [lineFeed tail]) after := by
  have hchange := tailChange_lineFeed ht [] after
  rw [List.append_nil] at hchange
  exact allFit_append.mpr ⟨allFit_tailChange h hchange, ht, .newline, trivial⟩

theorem allFit_lineFeed (h : AllFit ws tail) (ht : isGap tail) : AllFit (ws ++ [lineFeed tail]) [] :=
  allFit_concat_lineFeed h ht []

/-- The lines of the layout, before blank ones are removed, are the text in another layout. -/
theorem exists_lines (h : AllFit ws tail) (ht : isGap tail) :
    ∃ vs, Text.unlines (Cell.lines (cellsOf ws tail)) ++ ['\n'] = textOf vs [] ∧
      Respaced true (ws ++ [lineFeed tail]) vs ∧ Tidy true vs ∧
      List.Forall₂ Kept (ws ++ [lineFeed tail]) vs ∧
      Cell.lines (cellsOf ws tail) ≠ [] ∧ ∀ l ∈ Cell.lines (cellsOf ws tail), '\n' ∉ l := by
  have houts := relaidAs_cellsFrom (ok_rows h ht) [] (Cell.writtenAs_lines _)
  obtain ⟨vs, htext, hrespaced, htidy, hkept⟩ := exists_respaced (breaks_of_allFit h) Position.start
    none [] tail _ nofun nofun houts
  refine ⟨vs, htext, hrespaced, htidy, hkept, ?_, ?_⟩
  · intro hnil
    change List.Forall₂ _ _ (Cell.lines (cellsOf ws tail)) at houts
    rw [hnil] at houts
    exact lexRows_ne_nil _ _ _ _ _ (List.forall₂_nil_right_iff.mp houts)
  · exact newline_not_mem_outs houts (newline_not_mem_lead Position.start none [] List.not_mem_nil)

theorem respaced_kind {first : Bool} {us us' : List Lexeme} (h : Respaced first us us') :
    us'.map Lexeme.kind = us.map Lexeme.kind := by
  induction h with
  | nil => rfl
  | cons hkind _ _ _ _ ih => rw [List.map_cons, List.map_cons, hkind, ih]

theorem respaced_length {first : Bool} {us us' : List Lexeme} (h : Respaced first us us') :
    us'.length = us.length := by
  simpa using congrArg List.length (respaced_kind h)

theorem kind_of_respaced {first : Bool} {us us' : List Lexeme} (h : Respaced first us us')
    {p : Kind → Prop} (hk : ∀ w ∈ us, p w.kind) : ∀ w ∈ us', p w.kind := by
  intro w hw
  have hmem : w.kind ∈ us.map Lexeme.kind := by
    rw [← respaced_kind h]
    exact List.mem_map_of_mem hw
  obtain ⟨v, hv, hvk⟩ := List.mem_map.mp hmem
  rw [← hvk]
  exact hk v hv

theorem respaced_lineFeed {first : Bool} {gap : Text} {below vs : List Lexeme} {after after' : Text}
    (h : Respaced first (lineFeed gap :: below) vs) (hfit : AllFit (lineFeed gap :: below) after)
    (htail : TailChange after after') :
    ∃ gap' below', vs = lineFeed gap' :: below' ∧ Respaced first [lineFeed gap] [lineFeed gap'] ∧
      Respaced true below below' := by
  have hfit' := allFit_respaced h htail hfit
  cases h with
  | cons hkind htext hgap hline hrest =>
    rename_i w below'
    obtain ⟨wgap, wkind, wtext⟩ := w
    obtain rfl : wkind = .newline := hkind
    obtain rfl : wtext = ['\n'] := fits_newline_text hfit'.2.1
    exact ⟨wgap, below', rfl, .cons rfl htext hgap hline .nil, hrest⟩

/-- The canonical layout of a text with code in it. -/
theorem format_code (h : AllFit ws tail) (ht : isGap tail) {above mid below : List Lexeme} {gap : Text}
    (hsplit : ws ++ [lineFeed tail] = above ++ (mid ++ lineFeed gap :: below))
    (habove : ∀ w ∈ above, w.kind = .newline) (hbelow : ∀ w ∈ below, w.kind = .newline)
    (hhead : ∃ w more, mid = w :: more ∧ w.kind ≠ .newline)
    (hlast : ∃ w front, mid = front ++ [w] ∧ w.kind ≠ .newline) :
    ∃ mid' gap', format (textOf ws tail) = textOf (mid' ++ [lineFeed gap']) [] ∧
      Respaced true (mid ++ [lineFeed gap]) (mid' ++ [lineFeed gap']) ∧
      Tidy true (mid' ++ [lineFeed gap']) ∧ List.Forall₂ Kept mid mid' := by
  obtain ⟨vs, htext, hrespaced, htidy, hkept, hne, houts⟩ := exists_lines h ht
  have hfit := allFit_lineFeed h ht
  have hrefl : TailChange [] [] := ⟨meets_refl [], id⟩
  have hfit' := allFit_respaced hrespaced hrefl hfit
  rw [hsplit] at hrespaced hfit hkept
  obtain ⟨above', rest, rfl, hab, hrest⟩ := respaced_of_append hrespaced
  rw [atLineStart_of_newline habove] at hrest
  obtain ⟨mid', rest, rfl, hmid, hrest⟩ := respaced_of_append hrest
  obtain ⟨gap', below', rfl, hfeed, hbe⟩ := respaced_lineFeed hrest
    (allFit_append.mp (allFit_append.mp hfit).2).2 hrefl
  have hhead' : ∃ w more, mid' = w :: more ∧ w.kind ≠ .newline := by
    obtain ⟨w, more, rfl, hk⟩ := hhead
    cases hmid with
    | cons hkind => exact ⟨_, _, rfl, by rwa [hkind]⟩
  have hlast' : ∃ w front, mid' = front ++ [w] ∧ w.kind ≠ .newline := by
    obtain ⟨w, front, rfl, hk⟩ := hlast
    obtain ⟨front', ends, rfl, -, hend⟩ := respaced_of_append hmid
    cases hend with
    | cons hkind _ _ _ hnil =>
      cases hnil
      exact ⟨_, front', rfl, by rwa [hkind]⟩
  refine ⟨mid', gap', ?_, respaced_append hmid hfeed, ?_,
    (forall₂_of_append (respaced_length hmid) (forall₂_of_append (respaced_length hab) hkept).2).1⟩
  · rw [format_textOf h ht, finish_textOf hne houts htext hfit' htidy
      (kind_of_respaced hab (p := (· = .newline)) habove)
      (kind_of_respaced hbe (p := (· = .newline)) hbelow) hhead' hlast']
  · have htidyRest := (tidy_of_append htidy).2
    rw [atLineStart_of_newline (kind_of_respaced hab (p := (· = .newline)) habove)] at htidyRest
    have happend : mid' ++ lineFeed gap' :: below' = (mid' ++ [lineFeed gap']) ++ below' := by simp
    rw [happend] at htidyRest
    exact (tidy_of_append htidyRest).1

/-- A text without code is nothing in canonical layout. -/
theorem format_blank (h : AllFit ws tail) (ht : isGap tail) (hk : ∀ w ∈ ws, w.kind = .newline) :
    format (textOf ws tail) = [] := by
  obtain ⟨vs, htext, hrespaced, htidy, -, hne, houts⟩ := exists_lines h ht
  have hk' : ∀ w ∈ ws ++ [lineFeed tail], w.kind = .newline := by
    intro w hw
    obtain hw | hw := List.mem_append.mp hw
    · exact hk w hw
    · rw [List.mem_singleton.mp hw]
      rfl
  have hfit := allFit_respaced hrespaced ⟨meets_refl [], id⟩ (allFit_lineFeed h ht)
  have hlines := lines_unlines_newline hne houts
  rw [htext, textOf_newlines (kind_of_respaced hrespaced (p := (· = .newline)) hk')
    (breaks_of_allFit hfit) htidy, lines_replicate] at hlines
  have houtsEq := List.append_inj_left hlines (by
    have hlength := congrArg List.length hlines
    simp only [List.length_append, Text.lines, Text.splitOn_nil, List.length_cons] at hlength
    omega)
  rw [format_textOf h ht, ← houtsEq, finish_replicate]

end Format

end HclTidy.Layout
