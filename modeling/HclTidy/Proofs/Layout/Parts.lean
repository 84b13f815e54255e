import HclTidy.Proofs.Layout.Cells
import HclTidy.Proofs.Layout.Segments

/-!
# The parts of a row

A free row with tokens consists of a name and `=`, when it is a single-line attribute, of code, and
of the comment at its end. Its cell holds the three without the white space around them, and the
line that the layout makes of the row has that cell.
-/

set_option autoImplicit false

namespace HclTidy.Layout

open Token

/-- What the lexer grants of the lexemes of a row. -/
structure LexRow.Ok (r : LexRow) : Prop where
  gaps : ∀ w ∈ r.lexemes, isGap w.gap
  tail : isGap r.tail
  heads : ∀ w ∈ r.lexemes, ∃ c t, w.text = c :: t ∧ Text.isBlank c = false
  inner : ∀ w ∈ r.lexemes.dropLast, '\n' ∉ w.text ∧ Text.trimRight w.text = w.text
  last : ∀ w, r.lexemes.getLast? = some w → r.tail ≠ [] →
    '\n' ∉ w.text ∧ Text.trimRight w.text = w.text ∧
      (w.kind = .comment → ∃ s, w.text = s ++ ['/'])
  equal : ∀ w ∈ r.lexemes, w.kind = .equal → w.text = ['=']
  column : r.lead = none → r.start.column = 1
  starts : ∀ w ∈ r.lexemes, ∃ c t, w.text = c :: t ∧ isLayout c = false

structure Parts where
  name : Option (Lexeme × Lexeme)
  code : List Lexeme
  comment : Option Lexeme

namespace Parts

def lexemes (p : Parts) : List Lexeme :=
  (match p.name with
    | some (name, equal) => [name, equal]
    | none => []) ++ p.code ++ p.comment.toList

/-- The layout characters behind the code. -/
def gap (p : Parts) (tail : Text) : Text :=
  match p.comment with
  | some comment => comment.gap
  | none => tail

def cell (indent : Nat) (p : Parts) (tail : Text) : Cell :=
  .free indent (p.name.map fun (name, equal) => Text.trim (name.gap ++ name.text ++ equal.gap))
    (Text.trim (firstLine (textOf p.code (p.gap tail))))
    (p.comment.map fun comment => Text.trimRight comment.text)

end Parts

/-- The code of lexemes and the comment at their end, where `tail` stands behind it. -/
def splitComment (ws : List Lexeme) (tail : Text) : List Lexeme × Option Lexeme :=
  match ws.getLast? with
  | some last =>
    if last.kind = .comment && last.text.count '\n' = 0 && Text.allBlank tail then
      (ws.dropLast, some last)
    else (ws, none)
  | none => (ws, none)

/-- The parts of a row; a single lexeme is code. -/
def LexRow.parts (named : Bool) (r : LexRow) : Parts :=
  match named, r.lexemes with
  | true, name :: equal :: more =>
    ⟨some (name, equal), (splitComment more r.tail).1, (splitComment more r.tail).2⟩
  | _, first :: second :: more =>
    ⟨none, first :: (splitComment (second :: more) r.tail).1,
      (splitComment (second :: more) r.tail).2⟩
  | _, ws => ⟨none, ws, none⟩

theorem splitComment_append (ws : List Lexeme) (tail : Text) :
    (splitComment ws tail).1 ++ (splitComment ws tail).2.toList = ws := by
  unfold splitComment
  split
  · next last hl =>
    split
    · exact List.dropLast_append_getLast? last hl
    · exact List.append_nil ws
  · exact List.append_nil ws

theorem splitComment_some {ws : List Lexeme} {tail : Text} {comment : Lexeme}
    (h : (splitComment ws tail).2 = some comment) :
    ws.getLast? = some comment ∧ comment.kind = .comment ∧ '\n' ∉ comment.text ∧
      Text.isBlankText tail := by
  unfold splitComment at h
  split at h
  · next last hl =>
    split at h
    · next hc =>
      cases h
      simp only [Bool.and_eq_true, decide_eq_true_eq] at hc
      exact ⟨hl, hc.1.1, List.count_eq_zero.mp hc.1.2, List.all_eq_true.mp hc.2⟩
    · cases h
  · cases h

theorem splitComment_none {ws : List Lexeme} {tail : Text} (h : (splitComment ws tail).2 = none) :
    (splitComment ws tail).1 = ws ∧ ∀ last, ws.getLast? = some last → last.kind = .comment →
      '\n' ∉ last.text → ¬ Text.isBlankText tail := by
  unfold splitComment at h ⊢
  split at h
  · next last hl =>
    split at h
    · cases h
    · next hc =>
      rw [hl]
      simp only [hc]
      refine ⟨rfl, ?_⟩
      rintro last' ⟨⟩ hk hn hb
      refine hc ?_
      simp only [Bool.and_eq_true, decide_eq_true_eq]
      exact ⟨⟨hk, List.count_eq_zero.mpr hn⟩, List.all_eq_true.mpr hb⟩
  · next hl =>
    rw [hl]
    exact ⟨rfl, nofun⟩

theorem LexRow.parts_lexemes (named : Bool) (r : LexRow) :
    (r.parts named).lexemes = r.lexemes := by
  unfold LexRow.parts
  split
  · next name equal more hr =>
    rw [hr]
    simp only [Parts.lexemes, List.append_assoc, splitComment_append]
    rfl
  · next first second more _ hr =>
    rw [hr]
    simp only [Parts.lexemes, List.nil_append, List.cons_append, splitComment_append]
  · simp [Parts.lexemes]

/-! ## The cell of a row -/

def LexRow.cell (openings : Openings) (r : LexRow) : Cell :=
  match (lineOf openings r.row).1 with
  | .verbatim text => .verbatim text
  | .free line =>
    if r.lexemes.isEmpty then .free 0 none [] none
    else (r.parts line.assignment.isSome).cell line.indent r.tail

theorem trim_comment {x t tail : Text} (ht : ∃ c u, t = c :: u ∧ Text.isBlank c = false)
    (hb : Text.isBlankText tail) :
    ∃ gap, Text.isBlankText gap ∧
      Text.trim (x ++ (t ++ tail)) = Text.trim x ++ gap ++ Text.trimRight t := by
  have hne : Text.trimRight (t ++ tail) ≠ [] := by
    obtain ⟨c, u, rfl, hc⟩ := ht
    rw [List.cons_append, Text.trimRight_cons_of_not_blank _ hc]
    simp
  obtain ⟨gap, hgap, hx⟩ := Text.exists_trimRight (Text.trimLeft x)
  refine ⟨gap, hgap, ?_⟩
  rw [Text.trim, Segment.trimLeft_token tail ht, Text.trimRight_append hne,
    Text.trimRight_append_blank t hb, Text.trim, ← hx]

theorem getLast?_tokensAt {p : Position} {ws : List Lexeme} {t : Token}
    (h : (tokensAt p ws).getLast? = some t) :
    ∃ w, ws.getLast? = some w ∧ t.kind = w.kind ∧ t.text = w.text := by
  induction ws generalizing p with
  | nil => cases h
  | cons w ws ih =>
    cases ws with
    | nil =>
      cases h
      exact ⟨w, rfl, rfl, rfl⟩
    | cons v ws =>
      rw [tokensAt, tokensAt, List.getLast?_cons_cons, ← tokensAt] at h
      rw [List.getLast?_cons_cons]
      exact ih h

theorem trailingComment?_eq {line : FreeLine} {p : Position} {first second : Lexeme}
    {more : List Lexeme} (htokens : line.tokens = tokensAt p (first :: second :: more)) :
    ∃ last, (second :: more).getLast? = some last ∧ trailingComment? line =
      if last.kind = .comment && last.text.count '\n' = 0 then some (Text.trimRight last.text)
      else none := by
  generalize hq : (p.after first.gap).after first.text = q
  have hsplit : line.tokens = ⟨first.kind, first.text, p.after first.gap⟩ ::
      tokensAt q (second :: more) := by rw [htokens, tokensAt, hq]
  obtain ⟨t, ts, hts⟩ : ∃ t ts, tokensAt q (second :: more) = t :: ts := ⟨_, _, rfl⟩
  rw [hts] at hsplit
  have hgl : (tokensAt q (second :: more)).getLast? = some ((t :: ts).getLast (by simp)) := by
    rw [hts]
    exact List.getLast?_eq_getLast_of_ne_nil _
  obtain ⟨last, hlast, hkind, htext⟩ := getLast?_tokensAt hgl
  refine ⟨last, hlast, ?_⟩
  unfold trailingComment?
  rw [hsplit]
  simp only [hkind, htext, Token.lineFeeds]

theorem trailingComment?_none {line : FreeLine} {p : Position} {ws : List Lexeme}
    (htokens : line.tokens = tokensAt p ws) (h : ws.length ≤ 1) : trailingComment? line = none := by
  unfold trailingComment?
  rw [htokens]
  match ws, h with
  | [], _ => rfl
  | [w], _ => rfl

theorem LexRow.Ok.oneLine {r : LexRow} (h : r.Ok) (ht : r.tail ≠ []) : OneLine r.lexemes := by
  intro w hw
  refine ⟨isGap_newline (h.gaps w hw), ?_⟩
  obtain hnil | ⟨ws, last, hws⟩ := List.eq_nil_or_concat' r.lexemes
  · rw [hnil] at hw
    cases hw
  · rw [hws] at hw
    obtain hw | hw := List.mem_append.mp hw
    · exact (h.inner w (by rw [hws, List.dropLast_concat]; exact hw)).1
    · rw [List.mem_singleton.mp hw]
      exact (h.last last (by rw [hws]; simp) ht).1

/-- A comment with layout characters other than white space behind it does not end its line. -/
theorem not_suffix_of_tail {r : LexRow} (h : r.Ok) {front fs : List Lexeme} {last : Lexeme}
    (hsplit : r.lexemes = front ++ fs) (hlast : r.lexemes.getLast? = some last)
    (hk : last.kind = .comment) (htail : ¬ Text.isBlankText r.tail) (before : Text) :
    ¬ Text.trimRight last.text <:+
      Text.trimRight (before ++ Text.trim (firstLine (textOf fs r.tail))) := by
  have hne : r.tail ≠ [] := by
    intro hnil
    rw [hnil] at htail
    exact htail nofun
  have htrim : Text.trimRight r.tail ≠ [] := fun hnil => htail (Text.trimRight_eq_nil_iff.mp hnil)
  obtain ⟨-, hends, hcomment⟩ := h.last last hlast hne
  obtain ⟨s, hs⟩ := hcomment hk
  have hone : OneLine fs := fun w hw => h.oneLine hne w (by rw [hsplit]; exact List.mem_append_right _ hw)
  have hline : firstLine (textOf fs r.tail) = textOf fs [] ++ r.tail := by
    rw [firstLine_of_not_mem (newline_not_mem_textOf hone (isGap_newline h.tail)), textOf_eq_append]
  have hright : Text.trimRight (textOf fs [] ++ r.tail) = textOf fs [] ++ Text.trimRight r.tail :=
    Text.trimRight_append htrim
  have hlastChar : (Text.trim (textOf fs [] ++ r.tail)).getLast? = (Text.trimRight r.tail).getLast? := by
    rw [Text.getLast?_trim (by rw [hright]; simp [htrim]), hright, List.getLast?_append_of_ne_nil _ htrim]
  have htrimNe : Text.trim (textOf fs [] ++ r.tail) ≠ [] := by
    intro hnil
    rw [hnil] at hlastChar
    exact htrim (List.getLast?_eq_none_iff.mp hlastChar.symm)
  rw [hends, hs, hline, Text.trimRight_append (by rw [Text.trimRight_trim]; exact htrimNe),
    Text.trimRight_trim]
  rintro ⟨u, hu⟩
  have hslash : (Text.trimRight r.tail).getLast? = some '/' := by
    rw [← hlastChar, ← List.getLast?_append_of_ne_nil before htrimNe, ← hu]
    simp
  obtain ⟨g, -, hg⟩ := Text.exists_trimRight r.tail
  have hmem : '/' ∈ r.tail := by
    rw [hg]
    exact List.mem_append_left _ (List.mem_of_getLast? hslash)
  cases h.tail _ hmem

/-- Tokens in front of others of their line, with the layout characters behind them. -/
theorem newline_not_mem_front {r : LexRow} (hok : r.Ok) (before : List Lexeme) {us : List Lexeme} {w : Lexeme}
    (hws : r.lexemes = before ++ (us ++ [w])) : '\n' ∉ textOf us w.gap := by
  have hmem (v : Lexeme) (hv : v ∈ us ++ [w]) : v ∈ r.lexemes := by
    rw [hws]
    exact List.mem_append_right _ hv
  refine newline_not_mem_textOf (fun v hv => ⟨isGap_newline (hok.gaps v ?_), (hok.inner v ?_).1⟩)
    (isGap_newline (hok.gaps w (hmem w (by simp))))
  · exact hmem v (List.mem_append_left _ hv)
  · rw [hws, ← List.append_assoc, List.dropLast_concat]
    exact List.mem_append_right _ hv

theorem firstLine_concat {r : LexRow} (hok : r.Ok) (before : List Lexeme) {us : List Lexeme} {w : Lexeme}
    (hws : r.lexemes = before ++ (us ++ [w])) (hn : '\n' ∉ w.text) :
    firstLine (textOf (us ++ [w]) r.tail) = textOf us w.gap ++ (w.text ++ r.tail) := by
  have hline : '\n' ∉ textOf us w.gap ++ (w.text ++ r.tail) := by
    simp only [List.mem_append, not_or]
    exact ⟨newline_not_mem_front hok before hws, hn, isGap_newline hok.tail⟩
  rw [textOf_concat, textOf_eq_append, ← List.append_assoc, ← textOf_eq_append,
    firstLine_of_not_mem hline]

section EndsIn

variable {r : LexRow} (hok : r.Ok) {line : FreeLine}
  (htokens : line.tokens = tokensAt r.start r.lexemes)

include hok htokens

theorem endsIn_comment {front fs : List Lexeme} {c : Lexeme}
    (hsplit : r.lexemes = front ++ (fs ++ [c])) (hlen : 2 ≤ r.lexemes.length)
    (hk : c.kind = .comment) (hn : '\n' ∉ c.text) (hb : Text.isBlankText r.tail) :
    EndsIn line (Text.trim (firstLine (textOf fs c.gap)))
      (Text.trim (firstLine (textOf (fs ++ [c]) r.tail))) (some (Text.trimRight c.text)) := by
  have hmem : c ∈ r.lexemes := by rw [hsplit]; simp
  have hhead := hok.heads c hmem
  have hcode := firstLine_of_not_mem (newline_not_mem_front hok front hsplit)
  have hwhole := firstLine_concat hok front hsplit hn
  refine ⟨?_, ?_, Text.trimRight_idem _, Text.trimRight_trim _, ?_⟩
  · match hws : r.lexemes with
    | [] => rw [hws] at hlen; simp at hlen
    | [w] => rw [hws] at hlen; simp at hlen
    | first :: second :: more =>
      obtain ⟨last, hlast, htrail⟩ := trailingComment?_eq (htokens.trans (by rw [hws]))
      have hlast' : r.lexemes.getLast? = some c := by rw [hsplit]; simp
      rw [hws, List.getLast?_cons_cons, hlast] at hlast'
      cases hlast'
      rw [htrail, if_pos]
      simp [hk, List.count_eq_zero.mpr hn]
  · obtain ⟨d, t, ht, hd⟩ := hhead
    rw [ht, Text.trimRight_cons_of_not_blank _ hd]
    simp
  · rw [hcode, hwhole]
    exact trim_comment hhead hb

theorem endsIn_code {front fs : List Lexeme} (hsplit : r.lexemes = front ++ fs)
    (hno : ∀ last, r.lexemes.getLast? = some last → 2 ≤ r.lexemes.length → last.kind = .comment →
      '\n' ∉ last.text → ¬ Text.isBlankText r.tail) :
    EndsIn line (Text.trim (firstLine (textOf fs r.tail)))
      (Text.trim (firstLine (textOf fs r.tail))) none := by
  refine ⟨rfl, ?_⟩
  intro comment hc before
  match hws : r.lexemes with
  | [] =>
    rw [trailingComment?_none (htokens.trans (by rw [hws])) (Nat.zero_le _)] at hc
    cases hc
  | [w] =>
    rw [trailingComment?_none (htokens.trans (by rw [hws])) (Nat.le_refl _)] at hc
    cases hc
  | first :: second :: more =>
    obtain ⟨last, hlast, htrail⟩ := trailingComment?_eq (htokens.trans (by rw [hws]))
    have hlast' : r.lexemes.getLast? = some last := by rw [hws, List.getLast?_cons_cons, hlast]
    rw [htrail] at hc
    split at hc
    · next hk =>
      cases hc
      simp only [Bool.and_eq_true, decide_eq_true_eq] at hk
      have htail := hno last hlast' (by rw [hws]; simp) hk.1 (List.count_eq_zero.mp hk.2)
      exact not_suffix_of_tail hok hsplit hlast' hk.1 htail before
    · cases hc

end EndsIn

/-- A row whose first two lexemes are a name and `=`. -/
def isAssignment : List Lexeme → Bool
  | name :: equal :: _ => (name.kind = .ident || name.kind = .string) && equal.kind = .equal
  | _ => false

theorem exists_of_isAssignment {ws : List Lexeme} (h : isAssignment ws = true) :
    ∃ name equal more, ws = name :: equal :: more ∧ equal.kind = .equal := by
  match ws, h with
  | name :: equal :: more, h =>
    simp only [isAssignment, Bool.and_eq_true, decide_eq_true_eq] at h
    exact ⟨name, equal, more, rfl, h.2⟩

theorem assignmentOf?_of_false {r : LexRow} (h : isAssignment r.lexemes = false) :
    assignmentOf? r.row = none := by
  unfold assignmentOf? LexRow.row
  match hws : r.lexemes with
  | [] => rfl
  | [w] => rfl
  | name :: equal :: more =>
    rw [hws, isAssignment] at h
    simp only [tokensAt, h, Bool.false_eq_true, if_false]

section Assignment

variable {r : LexRow} (hok : r.Ok) {name equal : Lexeme} {more : List Lexeme}
  (hws : r.lexemes = name :: equal :: more)

include hok hws

theorem newline_not_mem_name : '\n' ∉ name.gap ++ name.text ++ equal.gap := by
  simp only [List.mem_append, not_or]
  exact ⟨⟨isGap_newline (hok.gaps name (by rw [hws]; simp)), (hok.inner name (by rw [hws]; simp)).1⟩,
    isGap_newline (hok.gaps equal (by rw [hws]; simp))⟩

theorem column_equal (hlead : r.lead = none) :
    (((r.start.after name.gap).after name.text).after equal.gap).column =
      (name.gap ++ name.text ++ equal.gap).length + 1 := by
  rw [← Position.after_append, ← Position.after_append, ← List.append_assoc,
    Position.after_column _ (newline_not_mem_name hok hws), hok.column hlead, Nat.add_comm]

/-- A line cut at its `=`. -/
theorem firstLine_equal (hequal : equal.kind = .equal) (us : List Lexeme) (after : Text) :
    firstLine (textOf (name :: equal :: us) after) =
      (name.gap ++ name.text ++ equal.gap) ++ '=' :: firstLine (textOf us after) := by
  have hmark := hok.equal equal (by rw [hws]; simp) hequal
  have hall : ∀ c ∈ name.gap ++ name.text ++ equal.gap, decide (c ≠ '\n') = true := fun c hc =>
    decide_eq_true fun he => newline_not_mem_name hok hws (he ▸ hc)
  have hjoin : textOf (name :: equal :: us) after = (name.gap ++ name.text ++ equal.gap) ++
      ('=' :: textOf us after) := by
    rw [textOf_cons, textOf_cons, hmark]
    simp
  rw [hjoin, firstLine, List.takeWhile_append_of_pos hall, List.takeWhile_cons_of_pos (by decide),
    firstLine]

theorem assignmentOf?_of_true (hlead : r.lead = none) (h : isAssignment r.lexemes = true) :
    assignmentOf? r.row = some (Text.trim (name.gap ++ name.text ++ equal.gap),
      Text.trim (firstLine (textOf more r.tail))) := by
  rw [hws, isAssignment] at h
  have hequal := of_decide_eq_true (Bool.and_eq_true_iff.mp h).2
  have htext : r.row.text = (name.gap ++ name.text ++ equal.gap) ++
      '=' :: firstLine (textOf more r.tail) := by
    rw [← firstLine_equal hok hws hequal, ← hws]
    simp [LexRow.row, LexRow.text, hlead]
  unfold assignmentOf?
  have htokens : r.row.tokens = tokensAt r.start (name :: equal :: more) := by rw [← hws]; rfl
  rw [htokens]
  simp only [tokensAt, column_equal hok hws hlead, Nat.add_sub_cancel, htext]
  rw [if_pos h, List.take_left, ← List.drop_drop, List.drop_left]
  rfl

end Assignment

theorem parts_comment_some {named : Bool} {r : LexRow} {c : Lexeme}
    (h : (r.parts named).comment = some c) :
    2 ≤ r.lexemes.length ∧ c.kind = .comment ∧ '\n' ∉ c.text ∧ Text.isBlankText r.tail := by
  unfold LexRow.parts at h
  split at h
  · next name equal more hr =>
    obtain ⟨-, hk, hn, hb⟩ := splitComment_some h
    exact ⟨by rw [hr]; simp, hk, hn, hb⟩
  · next first second more _ hr =>
    obtain ⟨-, hk, hn, hb⟩ := splitComment_some h
    exact ⟨by rw [hr]; simp, hk, hn, hb⟩
  · cases h

theorem parts_comment_none {named : Bool} {r : LexRow} (h : (r.parts named).comment = none)
    (hnamed : named = true → isAssignment r.lexemes = true) :
    ∀ last, r.lexemes.getLast? = some last → 2 ≤ r.lexemes.length → last.kind = .comment →
      '\n' ∉ last.text → ¬ Text.isBlankText r.tail := by
  intro last hlast hlen hk hn
  unfold LexRow.parts at h
  split at h
  · next name equal more hr =>
    obtain ⟨n, e, m, hws, he⟩ := exists_of_isAssignment (hnamed rfl)
    rw [hr] at hws hlast
    cases hws
    cases more with
    | nil =>
      rw [List.getLast?_cons_cons] at hlast
      cases hlast
      rw [List.getLast_singleton, he] at hk
      cases hk
    | cons v more => exact (splitComment_none h).2 last (by simpa using hlast) hk hn
  · next first second more _ hr =>
    rw [hr, List.getLast?_cons_cons] at hlast
    exact (splitComment_none h).2 last hlast hk hn
  · next hr _ =>
    match hws : r.lexemes with
    | [] => rw [hws] at hlen; simp at hlen
    | [w] => rw [hws] at hlen; simp at hlen
    | first :: second :: more => exact (hr _ _ _ hws).elim

theorem parts_false_name (r : LexRow) : (r.parts false).name = none := by
  unfold LexRow.parts
  split <;> first | rfl | contradiction

theorem parts_true {r : LexRow} {name equal : Lexeme} {more : List Lexeme}
    (h : r.lexemes = name :: equal :: more) :
    (r.parts true).name = some (name, equal) ∧
      (r.parts true).code ++ (r.parts true).comment.toList = more := by
  unfold LexRow.parts
  rw [h]
  exact ⟨rfl, splitComment_append more r.tail⟩

/-- The code and the comment of a row, as the alignment finds them. -/
theorem endsIn_parts {r : LexRow} (hok : r.Ok) {line : FreeLine} (named : Bool)
    (htokens : line.tokens = tokensAt r.start r.lexemes)
    (hnamed : named = true → isAssignment r.lexemes = true) (front : List Lexeme)
    (hsplit : r.lexemes = front ++ ((r.parts named).code ++ (r.parts named).comment.toList)) :
    EndsIn line (Text.trim (firstLine (textOf (r.parts named).code ((r.parts named).gap r.tail))))
      (Text.trim (firstLine
        (textOf ((r.parts named).code ++ (r.parts named).comment.toList) r.tail)))
      ((r.parts named).comment.map fun comment => Text.trimRight comment.text) := by
  have hnone : (r.parts named).comment = none → _ := parts_comment_none
  have hsome : ∀ c, (r.parts named).comment = some c → _ := fun c => parts_comment_some
  generalize r.parts named = p at hnone hsome hsplit ⊢
  obtain ⟨name, code, comment⟩ := p
  cases comment with
  | none =>
    rw [Option.toList_none, List.append_nil] at hsplit ⊢
    exact endsIn_code hok htokens hsplit (hnone rfl hnamed)
  | some c =>
    obtain ⟨hlen, hk, hn, hb⟩ := hsome c rfl
    exact endsIn_comment hok htokens hsplit hlen hk hn hb

theorem shaped_parts {r : LexRow} (hok : r.Ok) (hlead : r.lead = none) {line : FreeLine}
    (htokens : line.tokens = tokensAt r.start r.lexemes) (htext : line.text = Text.trim r.row.text)
    (hassign : line.assignment = none ∨ line.assignment = assignmentOf? r.row) :
    Shaped (.free line) ((r.parts line.assignment.isSome).cell line.indent r.tail) := by
  have hrow : r.row.text = firstLine (textOf r.lexemes r.tail) := by
    simp [LexRow.row, LexRow.text, hlead]
  have hlex (named : Bool) := r.parts_lexemes named
  unfold Parts.lexemes at hlex
  cases ha : line.assignment with
  | none =>
    have hname := parts_false_name r
    have hsplit := (hlex false).symm
    rw [hname, List.nil_append] at hsplit
    have hends := endsIn_parts hok false htokens (fun h => absurd h Bool.false_ne_true) [] hsplit
    rw [← hsplit, ← hrow, ← htext] at hends
    rw [Option.isSome_none, Parts.cell, hname]
    exact .plain ha hends
  | some found =>
    have hfound : assignmentOf? r.row = some found := by
      obtain h | h := hassign
      · rw [ha] at h
        cases h
      · rw [← h, ha]
    have htrue : isAssignment r.lexemes = true := by
      cases hcase : isAssignment r.lexemes with
      | true => rfl
      | false =>
        rw [assignmentOf?_of_false hcase] at hfound
        cases hfound
    obtain ⟨name, equal, more, hws, -⟩ := exists_of_isAssignment htrue
    obtain ⟨hname, hmore⟩ := parts_true hws
    rw [assignmentOf?_of_true hok hws hlead htrue] at hfound
    cases hfound
    have hends := endsIn_parts hok true htokens
      (fun _ => htrue) [name, equal] (by rw [hmore, hws]; rfl)
    rw [hmore] at hends
    rw [Option.isSome_some, Parts.cell, hname]
    exact .named ha hends

theorem shaped_lineOf {r : LexRow} (hok : r.Ok) (openings : Openings) :
    Shaped (lineOf openings r.row).1 (r.cell openings) := by
  unfold LexRow.cell lineOf
  have htokens : r.row.tokens = tokensAt r.start r.lexemes := rfl
  generalize closeLeading openings r.row.tokens = closed
  obtain ⟨inner, tokens⟩ := closed
  generalize hnet : netBrackets 0 inner tokens = net
  obtain ⟨pending, outer⟩ := net
  simp only [hnet]
  cases hlead : r.lead with
  | some lead =>
    have hcont : r.row.continued = true := by simp [LexRow.row, hlead]
    simp only [hcont, if_true]
    exact .verbatim _
  | none =>
    have hcont : r.row.continued = false := by simp [LexRow.row, hlead]
    simp only [hcont, Bool.false_eq_true, if_false]
    cases hws : r.lexemes with
    | nil =>
      rw [hws] at htokens
      simp only [htokens, tokensAt, List.isEmpty_nil, if_true]
      exact .plain rfl ⟨rfl, fun _ h => by cases h⟩
    | cons w ws =>
      have hne : r.row.tokens.isEmpty = false := by rw [htokens, hws]; rfl
      simp only [hne, Bool.false_eq_true, if_false, List.isEmpty_cons]
      refine shaped_parts hok hlead rfl rfl ?_
      by_cases hp : pending = 0
      · exact .inr (if_pos hp)
      · exact .inl (if_neg hp)

end HclTidy.Layout
