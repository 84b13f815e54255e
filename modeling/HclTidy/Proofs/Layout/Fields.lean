import HclTidy.Proofs.Layout.Preserved

/-!
# The fields of a line

The `=` of an attribute on a single line and a comment that ends its line cut the line into fields.
Of a free line the layout uses its fields without the white space around them, and of its tokens
only the kinds. So two texts whose lines have the same fields but for white space have the same
canonical layout.
-/

set_option autoImplicit false

namespace HclTidy.Layout

open Token

/-- The number of brackets that tokens leave open, where a closer matches an opener in front of it. -/
def openBrackets (tokens : List Token) : Nat :=
  tokens.foldl (fun n t => if t.opens then n + 1 else if t.closes then n - 1 else n) 0

namespace Row

/-- The `=` of an attribute on a single line. -/
def equal? (row : Row) : Option Token :=
  match row.tokens with
  | name :: equal :: _ =>
    if ((name.kind = .ident || name.kind = .string) && equal.kind = .equal) &&
        openBrackets row.tokens = 0 then some equal
    else none
  | _ => none

/-- The comment on one line that follows other tokens and ends the line. -/
def comment? (row : Row) : Option Token :=
  row.tokens.tail.getLast?.filter fun last =>
    last.kind = .comment && last.lineFeeds = 0 &&
      Text.allBlank (row.text.drop (last.start.column - 1 + last.text.length))

/-- The line up to its comment. -/
def code (row : Row) : Text :=
  match row.comment? with
  | some comment => row.text.take (comment.start.column - 1)
  | none => row.text

/-- The pieces of the line in front of the `=`, behind it, and from the comment on. -/
def fields (row : Row) : List Text :=
  (match row.equal? with
    | some equal => [row.code.take (equal.start.column - 1), row.code.drop equal.start.column]
    | none => [row.code]) ++
  (row.comment?.map fun comment => row.text.drop (comment.start.column - 1)).toList

end Row

/-- The same tokens, on a verbatim line with the same text, on a free one with the same fields but
for the white space around them. -/
structure SameRow (row row' : Row) : Prop where
  continued : row'.continued = row.continued
  tokens : List.Forall₂ SameSource row.tokens row'.tokens
  text : if row.continued then row'.text = row.text
    else row'.fields.map Text.trim = row.fields.map Text.trim

instance (t t' : Token) : Decidable (SameSource t t') :=
  decidable_of_iff (t'.kind = t.kind ∧
      Text.trimRight (t'.text.takeWhile (· ≠ '\n')) = Text.trimRight (t.text.takeWhile (· ≠ '\n')) ∧
      t'.text.dropWhile (· ≠ '\n') = t.text.dropWhile (· ≠ '\n'))
    ⟨fun h => ⟨h.1, h.2.1, h.2.2⟩, fun h => ⟨h.kind, h.firstLine, h.below⟩⟩

instance (row row' : Row) : Decidable (SameRow row row') :=
  decidable_of_iff (row'.continued = row.continued ∧
      List.Forall₂ SameSource row.tokens row'.tokens ∧
      if row.continued then row'.text = row.text
      else row'.fields.map Text.trim = row.fields.map Text.trim)
    ⟨fun h => ⟨h.1, h.2.1, h.2.2⟩, fun h => ⟨h.continued, h.tokens, h.text⟩⟩

/-! ## Brackets -/

section Brackets

variable {ts ts' : List Token}

theorem netBrackets_fst (pending : Nat) (openings : Openings) (tokens : List Token) :
    (netBrackets pending openings tokens).1 =
      tokens.foldl (fun n t => if t.opens then n + 1 else if t.closes then n - 1 else n) pending := by
  induction tokens generalizing pending openings with
  | nil => rfl
  | cons t tokens ih =>
    unfold netBrackets
    rw [List.foldl_cons]
    split
    · exact ih _ _
    · split
      · cases pending with
        | zero => exact ih _ _
        | succ n => exact ih _ _
      · exact ih _ _

theorem closeLeading_kinds (h : List.Forall₂ (fun t t' => t'.kind = t.kind) ts ts')
    (openings : Openings) : (closeLeading openings ts').1 = (closeLeading openings ts).1 ∧
      List.Forall₂ (fun t t' => t'.kind = t.kind) (closeLeading openings ts).2
        (closeLeading openings ts').2 := by
  induction h generalizing openings with
  | nil => exact ⟨rfl, .nil⟩
  | @cons t t' _ _ ht hrest ih =>
    have hcloses : t'.closes = t.closes := by rw [Token.closes, ht, Token.closes]
    rw [closeLeading, closeLeading, hcloses]
    split
    · exact ih _
    · exact ⟨rfl, .cons ht hrest⟩

theorem netBrackets_kinds (h : List.Forall₂ (fun t t' => t'.kind = t.kind) ts ts') (pending : Nat)
    (openings : Openings) : netBrackets pending openings ts' = netBrackets pending openings ts := by
  induction h generalizing pending openings with
  | nil => rfl
  | @cons t t' _ _ ht _ ih =>
    have hopens : t'.opens = t.opens := by rw [Token.opens, ht, Token.opens]
    have hcloses : t'.closes = t.closes := by rw [Token.closes, ht, Token.closes]
    unfold netBrackets
    rw [hopens, hcloses]
    split
    · exact ih _ _
    · split
      · cases pending with
        | zero => exact ih _ _
        | succ n => exact ih _ _
      · exact ih _ _

theorem lineOf_kinds {row row' : Row}
    (h : List.Forall₂ (fun t t' => t'.kind = t.kind) row.tokens row'.tokens) (openings : Openings) :
    (lineOf openings row').2 = (lineOf openings row).2 := by
  obtain ⟨hinner, hrest⟩ := closeLeading_kinds h openings
  unfold lineOf
  simp only [hinner, netBrackets_kinds hrest]

end Brackets

/-! ## The fields of a row -/

theorem tokensAt_concat (p : Position) (us : List Lexeme) (w : Lexeme) :
    tokensAt p (us ++ [w]) = tokensAt p us ++ [⟨w.kind, w.text, p.after (textOf us w.gap)⟩] := by
  rw [tokensAt_append, textOf_eq_append us w.gap, Position.after_append]
  rfl

theorem isAssignment_openings {r : LexRow} (h : isAssignment r.lexemes = true) (openings : Openings) :
    pendingOf openings r.row.tokens = openBrackets r.row.tokens := by
  obtain ⟨name, equal, more, hws, -⟩ := exists_of_isAssignment h
  rw [hws, isAssignment, Bool.and_eq_true, Bool.or_eq_true] at h
  have hcloses : Token.closes ⟨name.kind, name.text, r.start.after name.gap⟩ = false := by
    obtain h | h := h.1 <;> simp [Token.closes, of_decide_eq_true h]
  have hlead : closeLeading openings r.row.tokens = (openings, r.row.tokens) := by
    simp only [LexRow.row, hws, tokensAt, closeLeading, hcloses, Bool.false_and,
      Bool.false_eq_true, if_false]
  rw [pendingOf, hlead, netBrackets_fst]
  rfl

theorem isSome_equal? (r : LexRow) :
    r.row.equal?.isSome = (isAssignment r.lexemes && decide (openBrackets r.row.tokens = 0)) := by
  unfold Row.equal?
  have htokens : r.row.tokens = tokensAt r.start r.lexemes := rfl
  match hws : r.lexemes with
  | [] => simp [htokens, hws, tokensAt, isAssignment]
  | [w] => simp [htokens, hws, tokensAt, isAssignment]
  | name :: equal :: more =>
    rw [hws] at htokens
    simp only [htokens, tokensAt, isAssignment]
    split
    · next h => simpa using h
    · next h => simpa using h

theorem isAssignment_of_equal? {r : LexRow} (h : r.row.equal?.isSome = true) : isAssignment r.lexemes = true := by
  rw [isSome_equal?] at h
  exact (Bool.and_eq_true_iff.mp h).1

theorem exists_front {r : LexRow} {named : Bool} {c : Lexeme} (h : (r.parts named).comment = some c) :
    ∃ front, r.lexemes = front ++ [c] := by
  have hsplit := r.parts_lexemes named
  rw [Parts.lexemes, h] at hsplit
  exact ⟨_, hsplit.symm⟩

theorem cell_of_free {r : LexRow} (hok : r.Ok) (openings : Openings) (hlead : r.lead = none)
    (h : r.lexemes ≠ []) :
    r.cell openings = (r.parts r.row.equal?.isSome).cell
      (closeLeading openings r.row.tokens).1.length r.tail := by
  rw [cell_of_ne_nil hok openings hlead h, isSome_equal?]
  cases hcase : isAssignment r.lexemes with
  | false => rw [Bool.and_false, Bool.false_and]
  | true => rw [isAssignment_openings hcase, Bool.and_true, Bool.true_and]

section Fields

variable {r : LexRow} (hok : r.Ok) (hlead : r.lead = none)

include hok hlead

theorem text_concat {us : List Lexeme} {w : Lexeme} (hws : r.lexemes = us ++ [w])
    (hn : '\n' ∉ w.text) : r.row.text = textOf us w.gap ++ (w.text ++ r.tail) := by
  rw [← firstLine_concat hok [] hws hn, ← hws]
  simp [LexRow.row, LexRow.text, hlead]

theorem column_concat {us : List Lexeme} {w : Lexeme} (hws : r.lexemes = us ++ [w]) :
    (r.start.after (textOf us w.gap)).column = (textOf us w.gap).length + 1 := by
  rw [Position.after_column _ (newline_not_mem_front hok [] hws), hok.column hlead, Nat.add_comm]

/-- A last token that is a comment on one line is the comment of the row when nothing but white
space stands behind it. -/
theorem comment?_concat {us : List Lexeme} {w : Lexeme} (hws : r.lexemes = us ++ [w]) (hus : us ≠ []) :
    r.row.comment? = if w.kind = .comment && w.text.count '\n' = 0 && Text.allBlank r.tail then
      some ⟨w.kind, w.text, r.start.after (textOf us w.gap)⟩ else none := by
  have htokens : r.row.tokens = tokensAt r.start us ++ [⟨w.kind, w.text, r.start.after (textOf us w.gap)⟩] := by
    rw [← tokensAt_concat, ← hws]
    rfl
  have hne : tokensAt r.start us ≠ [] := by
    obtain ⟨u, us, rfl⟩ := List.exists_cons_of_ne_nil hus
    simp [tokensAt]
  rw [Row.comment?, htokens, List.tail_append_of_ne_nil hne, List.getLast?_concat, Option.filter_some]
  by_cases hn : '\n' ∈ w.text
  · have hcount : w.text.count '\n' ≠ 0 := fun h => List.count_eq_zero.mp h hn
    simp [Token.lineFeeds, hcount]
  · rw [column_concat hok hlead hws, Nat.add_sub_cancel, text_concat hok hlead hws hn,
      ← List.drop_drop, List.drop_left, List.drop_left]
    rfl

theorem comment?_of_some {named : Bool} {c : Lexeme} {front : List Lexeme}
    (hc : (r.parts named).comment = some c) (hws : r.lexemes = front ++ [c]) :
    r.row.comment? = some ⟨c.kind, c.text, r.start.after (textOf front c.gap)⟩ := by
  obtain ⟨hlen, hcond⟩ := parts_comment_some hc
  have hne : front ≠ [] := by
    rintro rfl
    rw [hws] at hlen
    simp at hlen
  obtain ⟨hk, hn, hblank⟩ := hcond
  rw [comment?_concat hok hlead hws hne, if_pos]
  simp [hk, List.count_eq_zero.mpr hn, Text.allBlank, List.all_eq_true.mpr hblank]

theorem comment?_of_none {named : Bool} (hc : (r.parts named).comment = none)
    (hnamed : named = true → isAssignment r.lexemes = true) : r.row.comment? = none := by
  have hno := parts_comment_none hc hnamed
  obtain hnil | ⟨us, w, hws⟩ := List.eq_nil_or_concat' r.lexemes
  · simp [Row.comment?, LexRow.row, hnil, tokensAt]
  · by_cases hus : us = []
    · simp [Row.comment?, LexRow.row, hws, hus, tokensAt]
    · rw [comment?_concat hok hlead hws hus, if_neg]
      intro h
      simp only [Bool.and_eq_true, decide_eq_true_eq] at h
      refine hno w (by rw [hws]; simp) ?_ h.1.1 (List.count_eq_zero.mp h.1.2) (List.all_eq_true.mp h.2)
      rw [hws, List.length_append, List.length_singleton]
      have := List.length_pos_iff.mpr hus
      omega

theorem code_row {named : Bool} {front : List Lexeme}
    (hnamed : named = true → isAssignment r.lexemes = true)
    (hws : r.lexemes = front ++ (r.parts named).comment.toList) :
    r.row.code = firstLine (textOf front ((r.parts named).gap r.tail)) := by
  unfold Row.code Parts.gap
  cases hc : (r.parts named).comment with
  | none =>
    rw [hc, Option.toList_none, List.append_nil] at hws
    rw [comment?_of_none hok hlead hc hnamed]
    simp [LexRow.row, LexRow.text, hlead, hws]
  | some c =>
    rw [hc] at hws
    rw [comment?_of_some hok hlead hc hws]
    dsimp only
    rw [column_concat hok hlead hws, Nat.add_sub_cancel,
      text_concat hok hlead hws (parts_comment_some hc).2.2.1, List.take_left,
      firstLine_of_not_mem (newline_not_mem_front hok [] hws)]

theorem equal?_of_some {e : Token} (h : r.row.equal? = some e) :
    ∃ name equal more, r.lexemes = name :: equal :: more ∧ equal.kind = .equal ∧
      isAssignment r.lexemes = true ∧
      e.start.column = (name.gap ++ name.text ++ equal.gap).length + 1 := by
  have hassign : isAssignment r.lexemes = true := isAssignment_of_equal? (by rw [h, Option.isSome_some])
  obtain ⟨name, equal, more, hws, hequal⟩ := exists_of_isAssignment hassign
  refine ⟨name, equal, more, hws, hequal, hassign, ?_⟩
  rw [Row.equal?] at h
  simp only [LexRow.row, hws, tokensAt] at h
  split at h
  · cases h
    exact column_equal hok hws hlead
  · cases h

theorem comment_row {named : Bool} (hnamed : named = true → isAssignment r.lexemes = true)
    {front : List Lexeme} (hws : r.lexemes = front ++ (r.parts named).comment.toList) :
    (r.row.comment?.map fun comment => r.row.text.drop (comment.start.column - 1)).toList.map Text.trim =
      ((r.parts named).comment.map fun c => Text.trimRight c.text).toList := by
  cases hc : (r.parts named).comment with
  | none =>
    rw [comment?_of_none hok hlead hc hnamed]
    rfl
  | some c =>
    obtain ⟨-, -, hn, hblank⟩ := parts_comment_some hc
    rw [hc] at hws
    obtain ⟨d, t, ht, hd⟩ := hok.heads c (by rw [hws]; simp)
    rw [comment?_of_some hok hlead hc hws]
    simp only [Option.map_some, Option.toList_some, List.map_cons, List.map_nil]
    rw [column_concat hok hlead hws, Nat.add_sub_cancel, text_concat hok hlead hws hn, List.drop_left,
      Text.trim, ht, List.cons_append, Text.trimLeft_cons _ hd, ← List.cons_append,
      Text.trimRight_append_blank _ hblank]

/-- The fields without the white space around them are what the cell holds. -/
theorem fields_row {p : Parts} (hp : r.parts r.row.equal?.isSome = p) :
    r.row.fields.map Text.trim =
      (p.name.map fun q => Text.trim (q.1.gap ++ q.1.text ++ q.2.gap)).toList ++
        Text.trim (firstLine (textOf p.code (p.gap r.tail))) ::
          (p.comment.map fun c => Text.trimRight c.text).toList := by
  have hsplit := r.parts_lexemes r.row.equal?.isSome
  unfold Row.fields
  rw [List.map_append]
  cases hequal : r.row.equal? with
  | none =>
    rw [hequal, Option.isSome_none] at hp hsplit
    subst hp
    have hnamed : false = true → isAssignment r.lexemes = true := fun h => absurd h Bool.false_ne_true
    have hname := parts_false_name r
    rw [Parts.lexemes, hname, List.nil_append] at hsplit
    rw [comment_row hok hlead hnamed hsplit.symm, hname]
    dsimp only
    rw [code_row hok hlead hnamed hsplit.symm]
    rfl
  | some e =>
    rw [hequal, Option.isSome_some] at hp hsplit
    subst hp
    obtain ⟨name, equal, more, hws, hkind, hassign, hcolumn⟩ := equal?_of_some hok hlead hequal
    obtain ⟨hname, hmore⟩ := parts_true hws
    have hfront : r.lexemes = (name :: equal :: (r.parts true).code) ++ (r.parts true).comment.toList := by
      rw [hws, ← hmore]
      rfl
    rw [comment_row hok hlead (fun _ => hassign) hfront, hname]
    dsimp only
    rw [code_row hok hlead (fun _ => hassign) hfront, hcolumn, Nat.add_sub_cancel,
      firstLine_equal hok hws hkind, List.take_left, ← List.drop_drop, List.drop_left]
    rfl

end Fields

/-! ## Lines with the same fields -/

theorem same_kinds {ts ts' : List Token} (h : List.Forall₂ SameSource ts ts') :
    List.Forall₂ (fun t t' => t'.kind = t.kind) ts ts' := h.imp fun _ _ ht => ht.kind

theorem isSome_equal?_kinds {row row' : Row}
    (h : List.Forall₂ (fun t t' => t'.kind = t.kind) row.tokens row'.tokens) :
    row'.equal?.isSome = row.equal?.isSome := by
  have hopen : openBrackets row'.tokens = openBrackets row.tokens := by
    have hnet := congrArg Prod.fst (netBrackets_kinds h 0 [])
    rwa [netBrackets_fst, netBrackets_fst] at hnet
  obtain ⟨_, tokens, _⟩ := row
  obtain ⟨_, tokens', _⟩ := row'
  unfold Row.equal?
  rw [hopen]
  cases h with
  | nil => rfl
  | cons hname hrest =>
    cases hrest with
    | nil => rfl
    | cons hequal _ =>
      dsimp only
      rw [hname, hequal]
      split <;> rfl

theorem isSome_parts_name (r : LexRow) :
    (r.parts r.row.equal?.isSome).name.isSome = r.row.equal?.isSome := by
  cases hequal : r.row.equal?.isSome with
  | false => rw [parts_false_name, Option.isSome_none]
  | true =>
    obtain ⟨name, equal, more, hws, -⟩ := exists_of_isAssignment (isAssignment_of_equal? hequal)
    rw [(parts_true hws).1, Option.isSome_some]

theorem lexemes_eq_nil_iff {r : LexRow} : r.row.tokens = [] ↔ r.lexemes = [] := by
  cases h : r.lexemes <;> simp [LexRow.row, h, tokensAt]

theorem fields_injective {name name' : Option Text} {code code' : Text} {comment comment' : Option Text}
    (hname : name'.isSome = name.isSome)
    (h : name'.toList ++ code' :: comment'.toList = name.toList ++ code :: comment.toList) :
    name' = name ∧ code' = code ∧ comment' = comment := by
  have hcomment {c c' : Option Text} (h : c'.toList = c.toList) : c' = c := by
    cases c <;> cases c' <;> simp_all
  cases name with
  | none =>
    obtain rfl := Option.not_isSome_iff_eq_none.mp (by rw [hname]; simp)
    obtain ⟨hcode, hrest⟩ := List.cons.inj h
    exact ⟨rfl, hcode, hcomment hrest⟩
  | some n =>
    obtain ⟨n', rfl⟩ := Option.isSome_iff_exists.mp hname
    obtain ⟨hn, htail⟩ := List.cons.inj h
    obtain ⟨hcode, hrest⟩ := List.cons.inj htail
    exact ⟨congrArg some hn, hcode, hcomment hrest⟩

theorem cell_sameRow {r r' : LexRow} (hok : r.Ok) (hok' : r'.Ok) (h : SameRow r.row r'.row)
    (openings : Openings) : r'.cell openings = r.cell openings := by
  have hkinds := same_kinds h.tokens
  have hcontinued : r'.lead.isSome = r.lead.isSome := h.continued
  have htext := h.text
  cases hlead : r.lead with
  | some lead =>
    rw [hlead, Option.isSome_some] at hcontinued
    obtain ⟨lead', hlead'⟩ := Option.isSome_iff_exists.mp hcontinued
    rw [if_pos (show r.row.continued = true by simp [LexRow.row, hlead])] at htext
    rw [cell_of_lead openings hlead, cell_of_lead openings hlead']
    exact congrArg Cell.verbatim htext
  | none =>
    rw [hlead, Option.isSome_none] at hcontinued
    have hlead' := Option.not_isSome_iff_eq_none.mp (by rw [hcontinued]; exact Bool.false_ne_true)
    by_cases hnil : r.lexemes = []
    · have htokens := h.tokens
      rw [lexemes_eq_nil_iff.mpr hnil] at htokens
      have hnil' := lexemes_eq_nil_iff.mp (List.forall₂_nil_left_iff.mp htokens)
      rw [cell_of_nil openings hlead hnil, cell_of_nil openings hlead' hnil']
    · have hnil' : r'.lexemes ≠ [] := by
        intro hnil'
        have htokens := h.tokens
        rw [lexemes_eq_nil_iff.mpr hnil'] at htokens
        exact hnil (lexemes_eq_nil_iff.mp (List.forall₂_nil_right_iff.mp htokens))
      rw [if_neg (show ¬ r.row.continued = true by simp [LexRow.row, hlead]),
        fields_row hok hlead rfl, fields_row hok' hlead' rfl] at htext
      -- the tokens tell whether there is a name, so no field can be taken for another
      obtain ⟨hname, hcode, hcomment⟩ := fields_injective (by
        rw [Option.isSome_map, Option.isSome_map, isSome_parts_name, isSome_parts_name,
          isSome_equal?_kinds hkinds]) htext
      rw [cell_of_free hok openings hlead hnil, cell_of_free hok' openings hlead' hnil',
        (closeLeading_kinds hkinds openings).1, Parts.cell, Parts.cell, hname, hcode, hcomment]

theorem cellsFrom_sameRow {rows rows' : List LexRow} (hok : ∀ r ∈ rows, r.Ok) (hok' : ∀ r ∈ rows', r.Ok)
    (h : List.Forall₂ SameRow (rows.map LexRow.row) (rows'.map LexRow.row)) (openings : Openings) :
    cellsFrom openings rows' = cellsFrom openings rows := by
  rw [List.forall₂_map_left_iff, List.forall₂_map_right_iff] at h
  induction h generalizing openings with
  | nil => rfl
  | cons hrow _ ih =>
    obtain ⟨hr, hrows⟩ := List.forall_mem_cons.mp hok
    obtain ⟨hr', hrows'⟩ := List.forall_mem_cons.mp hok'
    rw [cellsFrom, cellsFrom, cell_sameRow hr hr' hrow, lineOf_kinds (same_kinds hrow.tokens),
      ih hrows hrows']

/-- The canonical layout of a text depends on its tokens, its verbatim lines and the fields of its
free lines, without the white space around the fields. -/
theorem format_sameRows {text text' : Text} {stream stream' : TokenStream}
    (h : TokenStream.ofText text = .ok stream) (h' : TokenStream.ofText text' = .ok stream')
    (hrows : List.Forall₂ SameRow (rowsOf text stream.tokens) (rowsOf text' stream'.tokens)) :
    format text' = format text := by
  obtain ⟨ws, tail, rfl, hfit, htail, rfl⟩ := exists_lexemes h
  obtain ⟨ws', tail', rfl, hfit', htail', rfl⟩ := exists_lexemes h'
  dsimp only at hrows
  rw [rowsOf_textOf hfit htail, rowsOf_textOf hfit' htail'] at hrows
  rw [format_textOf hfit htail, format_textOf hfit' htail', cellsOf, cellsOf,
    cellsFrom_sameRow (ok_rows hfit htail) (ok_rows hfit' htail') hrows]

/-- White space around names and values, in front of comments, and at the ends of lines, the first
line of a heredoc included. -/
theorem format_sameRows_shifted :
    let text := "a = 1 # x\n  bb=[ // y\n 1]/* z */ \nc=<<E \n  k \nE\n\"d\"\t=\t2\n".toList
    let text' := "\ta=1# x  \nbb=[// y\n1]   /* z */\n c = <<E\n  k \nE\n  \"d\" = 2\n".toList
    ∃ stream stream', TokenStream.ofText text = .ok stream ∧ TokenStream.ofText text' = .ok stream' ∧
      List.Forall₂ SameRow (rowsOf text stream.tokens) (rowsOf text' stream'.tokens) ∧
      format text' = format text := by
  intro text text'
  have hrows : ((TokenStream.ofText text).toOption.bind fun stream =>
      (TokenStream.ofText text').toOption.map fun stream' =>
        decide (List.Forall₂ SameRow (rowsOf text stream.tokens) (rowsOf text' stream'.tokens))) =
      some true := by
    decide +kernel
  cases h : TokenStream.ofText text with
  | error e =>
    rw [h] at hrows
    cases hrows
  | ok stream =>
    cases h' : TokenStream.ofText text' with
    | error e =>
      rw [h, h'] at hrows
      cases hrows
    | ok stream' =>
      rw [h, h'] at hrows
      have hrows := of_decide_eq_true (Option.some.inj hrows)
      exact ⟨stream, stream', rfl, rfl, hrows, format_sameRows h h' hrows⟩

end HclTidy.Layout
