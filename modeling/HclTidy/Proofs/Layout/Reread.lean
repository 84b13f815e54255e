import HclTidy.Proofs.Layout.Fields

/-!
# Reading a written line again

A line that the layout writes for a row has the tokens of the row and its cell: the `=` and the
comment stand where the layout puts them, and nothing else is on the line that could be taken for
them.
-/

set_option autoImplicit false

namespace HclTidy.Layout

open Token

/-! ## Lines written for a row -/

/-- A row of the same tokens, up to white space at the end of their first lines. -/
structure KeptRow (r r' : LexRow) : Prop where
  lead : r'.lead = r.lead
  lexemes : List.Forall₂ Kept r.lexemes r'.lexemes

section Kept

variable {w w' : Lexeme} (h : Kept w w')

include h

theorem Kept.newline_mem : '\n' ∈ w'.text ↔ '\n' ∈ w.text := by
  obtain ⟨-, htext | htext⟩ := h
  · rw [htext]
  · rw [htext, ← List.count_pos_iff, ← List.count_pos_iff, Text.count_newline_trimFirst]

theorem Kept.trimRight_text (hn : '\n' ∉ w.text) : Text.trimRight w'.text = Text.trimRight w.text := by
  obtain ⟨-, htext | htext⟩ := h
  · rw [htext]
  · rw [htext, Text.trimFirst_of_not_mem hn, Text.trimRight_idem]

theorem Kept.text_eq (hn : '\n' ∉ w.text) (ht : Text.trimRight w.text = w.text) : w'.text = w.text := by
  obtain ⟨-, htext | htext⟩ := h
  · exact htext
  · rw [htext, Text.trimFirst_of_not_mem hn, ht]

end Kept

theorem trim_blank_append {gap : Text} (t : Text) (h : Text.isBlankText gap) :
    Text.trim (gap ++ t) = Text.trim t := by
  rw [Text.trim, Text.trimLeft_blank_append t h, ← Text.trim]

theorem trim_append_blank (t : Text) {gap : Text} (h : Text.isBlankText gap) :
    Text.trim (t ++ gap) = Text.trim t := by
  rw [← trim_trimRight, Text.trimRight_append_blank t h, trim_trimRight]

theorem isBlankText_spaces (pad : Nat) : Text.isBlankText (List.replicate pad ' ' ++ [' ']) := by
  rw [← List.replicate_succ']
  exact Segment.isBlankText_of_isSpaces (isSpaces_replicate _)

theorem trim_spaces {front t : Text} (h : Segment.isSpaces front) :
    Text.trim (Text.trimRight (front ++ Text.trimLeft t)) = Text.trim t := by
  rw [trim_trimRight, trim_blank_append _ (Segment.isBlankText_of_isSpaces h), trim_trimLeft]

/-- Where the layout characters in front of a token end. -/
theorem gap_cut {gap gap' rest rest' : Text} (hg : isGap gap) (hg' : isGap gap')
    (h : ∃ c t, rest = c :: t ∧ isLayout c = false) (h' : ∃ c t, rest' = c :: t ∧ isLayout c = false)
    (heq : gap ++ rest = gap' ++ rest') : gap = gap' ∧ rest = rest' := by
  have htake {gap rest : Text} (hg : isGap gap) (h : ∃ c t, rest = c :: t ∧ isLayout c = false) :
      (gap ++ rest).takeWhile isLayout = gap := by
    obtain ⟨c, t, rfl, hc⟩ := h
    exact takeWhile_append_of_all hg (by rintro d ⟨⟩; exact hc)
  have hgap : gap = gap' := by rw [← htake hg h, heq, htake hg' h']
  subst hgap
  exact ⟨rfl, List.append_cancel_left heq⟩

theorem trimRight_text {text : Text} (front : Text) {gap : Text}
    (h : ∃ c t, text = c :: t ∧ Text.isBlank c = false) (hb : Text.isBlankText gap) :
    Text.trimRight (front ++ (text ++ gap)) = front ++ Text.trimRight text := by
  obtain ⟨c, t, rfl, hc⟩ := h
  have hne : Text.trimRight (c :: t) ≠ [] := by
    rw [Text.trimRight_cons_of_not_blank t hc]
    exact List.cons_ne_nil _ _
  rw [Text.trimRight_append (by rwa [Text.trimRight_append_blank _ hb]), Text.trimRight_append_blank _ hb]

section Row

variable {r r' : LexRow} (hok : r.Ok) (hok' : r'.Ok) (hrow : KeptRow r r')

include hrow

theorem KeptRow.exists_last {c : Lexeme} (h : r.lexemes.getLast? = some c) :
    ∃ c', r'.lexemes.getLast? = some c' ∧ Kept c c' := by
  have hrel := forall₂_getLast? hrow.lexemes
  rw [h] at hrel
  generalize r'.lexemes.getLast? = last at hrel ⊢
  cases hrel with
  | some hc => exact ⟨_, rfl, hc⟩

theorem KeptRow.exists_last' {c' : Lexeme} (h : r'.lexemes.getLast? = some c') :
    ∃ c, r.lexemes.getLast? = some c ∧ Kept c c' := by
  have hrel := forall₂_getLast? hrow.lexemes
  rw [h] at hrel
  generalize r.lexemes.getLast? = last at hrel ⊢
  cases hrel with
  | some hc => exact ⟨_, rfl, hc⟩

variable {named : Bool} (before before' : List Lexeme)
  (hws : r.lexemes = before ++ ((r.parts named).code ++ (r.parts named).comment.toList))
  (hws' : r'.lexemes = before' ++ ((r'.parts named).code ++ (r'.parts named).comment.toList))

include hok hok' hws hws'

/-- A line that is written with a comment at its end has it there. -/
theorem comment_kept_some (hnamed' : named = true → isAssignment r'.lexemes = true) {c : Lexeme}
    {front : Text} (hc : (r.parts named).comment = some c)
    (hline : firstLine (textOf ((r'.parts named).code ++ (r'.parts named).comment.toList) r'.tail) =
      front ++ Text.trimRight c.text) :
    ∃ c', (r'.parts named).comment = some c' ∧ Text.trimRight c'.text = Text.trimRight c.text ∧
      textOf (r'.parts named).code c'.gap = front := by
  obtain ⟨hlen, hk, hn, hblank⟩ := parts_comment_some hc
  rw [hc, Option.toList_some, ← List.append_assoc] at hws
  obtain ⟨c', hlast, hkept⟩ := hrow.exists_last (by rw [hws, List.getLast?_concat])
  obtain ⟨d, t, ht, hd⟩ := hok.heads c (by rw [hws]; simp)
  have hhead : ∃ d t, Text.trimRight c.text = d :: t ∧ Text.isBlank d = false :=
    ⟨d, Text.trimRight t, by rw [ht, Text.trimRight_cons_of_not_blank t hd], hd⟩
  have hempty : Text.isBlankText [] := List.forall_mem_nil _
  have hn' : '\n' ∉ c'.text := fun h => hn (hkept.newline_mem.mp h)
  have hright := hkept.trimRight_text hn
  cases hc' : (r'.parts named).comment with
  | none =>
    rw [hc', Option.toList_none, List.append_nil] at hws' hline
    have hb := parts_comment_none hc' hnamed' c' hlast (hrow.lexemes.length_eq ▸ hlen)
      (hkept.kind.trans hk) hn'
    -- a comment that is not taken has other characters behind it, and none have been written there
    refine absurd ?_ (not_suffix_of_tail hok' hws' hlast (hkept.kind.trans hk) hb [])
    obtain ⟨gap, -, htrim⟩ := trim_comment (x := front) hhead hempty
    rw [List.append_nil, Text.trimRight_idem] at htrim
    rw [hline, List.nil_append, Text.trimRight_trim, htrim, hright]
    exact List.suffix_append _ _
  | some d' =>
    rw [hc', Option.toList_some] at hws' hline
    obtain rfl : d' = c' := by
      rw [hws', ← List.append_assoc, List.getLast?_concat] at hlast
      exact Option.some.inj hlast
    obtain ⟨-, -, -, hblank'⟩ := parts_comment_some hc'
    refine ⟨d', rfl, hright, ?_⟩
    rw [firstLine_concat hok' before' hws' hn'] at hline
    have hcut := congrArg Text.trimRight hline
    have hidem := trimRight_text front hhead hempty
    rw [List.append_nil, Text.trimRight_idem] at hidem
    rw [trimRight_text _ (hok'.heads d' (by rw [hws']; simp)) hblank', hidem, hright] at hcut
    exact List.append_cancel_right hcut

/-- A line that is written without a comment at its end has none there. -/
theorem comment_kept_none (hnamed : named = true → isAssignment r.lexemes = true) {front : Text}
    (hc : (r.parts named).comment = none)
    (hline : firstLine (textOf ((r'.parts named).code ++ (r'.parts named).comment.toList) r'.tail) =
      Text.trimRight (front ++ Text.trim (firstLine (textOf (r.parts named).code r.tail)))) :
    (r'.parts named).comment = none := by
  rw [Option.eq_none_iff_forall_ne_some]
  intro c' hc'
  obtain ⟨hlen, hk, hn', hblank'⟩ := parts_comment_some hc'
  rw [hc', Option.toList_some] at hws' hline
  rw [hc, Option.toList_none, List.append_nil] at hws
  obtain ⟨c, hlast, hkept⟩ := hrow.exists_last' (by rw [hws', ← List.append_assoc, List.getLast?_concat])
  have hn : '\n' ∉ c.text := fun h => hn' (hkept.newline_mem.mpr h)
  have hkind : c.kind = .comment := hkept.kind.symm.trans hk
  have hb := parts_comment_none hc hnamed c hlast (hrow.lexemes.length_eq ▸ hlen) hkind hn
  refine not_suffix_of_tail hok hws hlast hkind hb front ?_
  rw [← Text.trimRight_idem (front ++ _), ← hline, firstLine_concat hok' before' hws' hn',
    trimRight_text _ (hok'.heads c' (by rw [hws']; simp)) hblank', hkept.trimRight_text hn]
  exact List.suffix_append _ _

/-- Code and comment of a line are those of the row that it is written for. -/
theorem lineEnd_kept (hnamed : named = true → isAssignment r.lexemes = true)
    (hnamed' : named = true → isAssignment r'.lexemes = true) {front : Text} (hf : Segment.isSpaces front)
    {pad : Nat}
    (hline : firstLine (textOf ((r'.parts named).code ++ (r'.parts named).comment.toList) r'.tail) =
      (r.parts named).lineEnd front pad r.tail) :
    Text.trim (firstLine (textOf (r'.parts named).code ((r'.parts named).gap r'.tail))) =
        Text.trim (firstLine (textOf (r.parts named).code ((r.parts named).gap r.tail))) ∧
      ((r'.parts named).comment.map fun c => Text.trimRight c.text) =
        (r.parts named).comment.map fun c => Text.trimRight c.text := by
  unfold Parts.lineEnd at hline
  cases hc : (r.parts named).comment with
  | none =>
    rw [hc, remarkText, List.append_nil, Parts.gap, hc] at hline
    have hcut := hline
    rw [← Text.trimRight_append_trimRight, ← Text.trim] at hline
    have hc' := comment_kept_none hok hok' hrow before before' hws hws' hnamed hc hline
    rw [hc', Option.toList_none, List.append_nil] at hcut
    rw [Parts.gap, Parts.gap, hc, hc', hcut, trim_spaces hf]
    exact ⟨rfl, rfl⟩
  | some c =>
    rw [hc, remarkText, List.append_cons, ← List.append_assoc] at hline
    obtain ⟨c', hc', htext, hcode⟩ := comment_kept_some hok hok' hrow before before' hws hws' hnamed' hc hline
    have hfront := newline_not_mem_front hok' before' (by rwa [hc', Option.toList_some] at hws')
    rw [Parts.gap, hc']
    dsimp only
    rw [firstLine_of_not_mem hfront, hcode, trim_append_blank _ (isBlankText_spaces _), trim_spaces hf, Option.map_some,
      Option.map_some, htext]
    exact ⟨rfl, rfl⟩

end Row

section Cell

variable {r r' : LexRow} (hok : r.Ok) (hok' : r'.Ok) (hrow : KeptRow r r') (hlead' : r'.lead = none)

include hok hok' hrow hlead'

/-- The name of a line and its `=` stand where they have been written. -/
theorem name_kept {name equal name' equal' : Lexeme} {more more' : List Lexeme}
    (hws : r.lexemes = name :: equal :: more) (hws' : r'.lexemes = name' :: equal' :: more')
    (hequal : equal.kind = .equal) {nameText : Text}
    (hname : Text.trim (name.gap ++ name.text ++ equal.gap) = nameText) {indent width : Nat} {rest : Text}
    (htext : r'.row.text = indentation indent ++ (Text.padRight width nameText ++ ' ' :: '=' :: rest)) :
    name'.gap ++ name'.text ++ equal'.gap = indentation indent ++ (Text.padRight width nameText ++ [' ']) ∧
      firstLine (textOf more' r'.tail) = rest := by
  have hkept := hrow.lexemes
  rw [hws, hws'] at hkept
  obtain ⟨hkeptName, hkeptEqual, -⟩ : Kept name name' ∧ Kept equal equal' ∧ _ := by
    cases hkept with
    | cons hn htail =>
      cases htail with
      | cons he hmore => exact ⟨hn, he, hmore⟩
  have hmem : name ∈ r.lexemes := by rw [hws]; simp
  obtain ⟨hn, ht⟩ := hok.inner name (by rw [hws]; simp)
  have hnameText : nameText = Text.trimLeft name.gap ++ (name.text ++ Text.trimRight equal.gap) := by
    have hright : Text.trimRight (name.text ++ equal.gap) = name.text ++ Text.trimRight equal.gap :=
      Segment.trimRight_gap ht
    obtain ⟨c, t, hhead, -⟩ := hok.heads name hmem
    rw [← hname, Text.trim, List.append_assoc, Segment.trimLeft_token _ (hok.heads name hmem),
      Text.trimRight_append (by rw [hright, hhead]; simp), hright]
  have hline : r'.row.text = firstLine (textOf (name' :: equal' :: more') r'.tail) := by
    rw [← hws']
    simp [LexRow.row, LexRow.text, hlead']
  rw [hline, firstLine_equal hok' hws' (hkeptEqual.kind.trans hequal), hkeptName.text_eq hn ht] at htext
  unfold Text.padRight at htext ⊢
  have hpad : isGap (List.replicate (width - nameText.length) ' ') :=
    Segment.isGap_of_isSpaces (isSpaces_replicate _)
  generalize List.replicate (width - nameText.length) ' ' = pad at hpad htext ⊢
  subst hnameText
  have hsplit : name'.gap ++ (name.text ++ (equal'.gap ++ '=' :: firstLine (textOf more' r'.tail))) =
      (indentation indent ++ Text.trimLeft name.gap) ++ (name.text ++
        ((Text.trimRight equal.gap ++ (pad ++ [' '])) ++ '=' :: rest)) := by
    simpa using htext
  -- both lines have layout characters, the name, layout characters and the `=`
  obtain ⟨c, t, hstart, hc⟩ := hok.starts name hmem
  obtain ⟨hfront, hbehind⟩ := gap_cut (hok'.gaps name' (by rw [hws']; simp))
    (Segment.isGap_append (Segment.isGap_of_isSpaces (isSpaces_indentation indent))
      (isGap_trimLeft (hok.gaps name hmem)))
    ⟨c, _, by rw [hstart]; rfl, hc⟩ ⟨c, _, by rw [hstart]; rfl, hc⟩ hsplit
  obtain ⟨hback, hrest⟩ := gap_cut (hok'.gaps equal' (by rw [hws']; simp))
    (Segment.isGap_append (isGap_trimRight (hok.gaps equal (by rw [hws]; simp)))
      (Segment.isGap_append hpad (by rintro d hd; rw [List.mem_singleton.mp hd]; rfl)))
    ⟨'=', _, rfl, rfl⟩ ⟨'=', _, rfl, rfl⟩ (List.append_cancel_left hbehind)
  refine ⟨?_, (List.cons.inj hrest).2⟩
  rw [hfront, hback, hkeptName.text_eq hn ht]
  simp

theorem parts_kept_plain {indent : Nat}
    (h : ((r.parts false).cell indent r.tail).WrittenAs r'.row.text) :
    (r'.parts false).cell indent r'.tail = (r.parts false).cell indent r.tail := by
  have hsplit := r.parts_lexemes false
  have hsplit' := r'.parts_lexemes false
  have hname := parts_false_name r
  have hname' := parts_false_name r'
  rw [Parts.lexemes, hname, List.nil_append] at hsplit
  rw [Parts.lexemes, hname', List.nil_append] at hsplit'
  obtain ⟨nameWidth, pad, htext⟩ := Parts.written_cell h
  rw [hname, Option.map_none, Cell.withName] at htext
  have hcode (hc : (r.parts false).comment ≠ none) : (r.parts false).code ≠ [] := by
    obtain ⟨c, hc⟩ := Option.ne_none_iff_exists'.mp hc
    intro hnil
    have hlen := (parts_comment_some hc).1
    rw [← hsplit, hnil, hc] at hlen
    simp at hlen
  rw [written_plain (fun hc => trim_code_ne_nil hok (fun w hw => by
      rw [← hsplit]; exact List.mem_append_left _ hw) (hcode hc) _)
    (fun c hc => hok.heads c (by rw [← hsplit, hc]; simp))] at htext
  have hline : r'.row.text = firstLine (textOf r'.lexemes r'.tail) := by
    simp [LexRow.row, LexRow.text, hlead']
  rw [hline, ← hsplit'] at htext
  have hfalse (ws : List Lexeme) : false = true → isAssignment ws = true :=
    fun h => absurd h Bool.false_ne_true
  obtain ⟨hcode, hcomment⟩ := lineEnd_kept hok hok' hrow [] [] hsplit.symm hsplit'.symm
    (hfalse _) (hfalse _) (isSpaces_indentation indent) htext
  rw [Parts.cell, Parts.cell, hname, hname', hcode, hcomment]

theorem parts_kept_named {indent : Nat} (hassign : isAssignment r.lexemes = true)
    (hassign' : isAssignment r'.lexemes = true)
    (h : ((r.parts true).cell indent r.tail).WrittenAs r'.row.text) :
    (r'.parts true).cell indent r'.tail = (r.parts true).cell indent r.tail := by
  obtain ⟨name, equal, more, hws, hequal⟩ := exists_of_isAssignment hassign
  obtain ⟨name', equal', more', hws', -⟩ := exists_of_isAssignment hassign'
  obtain ⟨hname, hmore⟩ := parts_true hws
  obtain ⟨hname', hmore'⟩ := parts_true hws'
  obtain ⟨nameWidth, pad, htext⟩ := Parts.written_cell h
  rw [hname, withName_cell,
    written_named fun c hc => hok.heads c (by rw [hws, ← hmore, hc]; simp)] at htext
  obtain ⟨hnameText, hrest⟩ := name_kept hok hok' hrow hlead' hws hws' hequal rfl htext
  rw [← hmore'] at hrest
  obtain ⟨hcode, hcomment⟩ := lineEnd_kept hok hok' hrow [name, equal] [name', equal']
    (by rw [hws, hmore]; rfl) (by rw [hws', hmore']; rfl) (fun _ => hassign) (fun _ => hassign')
    (show Segment.isSpaces [' '] from fun _ hc => List.mem_singleton.mp hc) hrest
  have htrim : Text.trim (name'.gap ++ name'.text ++ equal'.gap) =
      Text.trim (name.gap ++ name.text ++ equal.gap) := by
    rw [hnameText, trim_blank_append _ (Segment.isBlankText_of_isSpaces (isSpaces_indentation indent)),
      Text.padRight, List.append_assoc, trim_append_blank _ (isBlankText_spaces _), trim_trim]
  rw [Parts.cell, Parts.cell, hname, hname', hcode, hcomment]
  exact congrArg (Cell.free indent · _ _) (congrArg some htrim)

end Cell

/-- A line has the cell that it is written for. -/
theorem cell_kept {r r' : LexRow} (hok : r.Ok) (hok' : r'.Ok) (hrow : KeptRow r r') {openings : Openings}
    (h : (r.cell openings).WrittenAs r'.row.text) : r'.cell openings = r.cell openings := by
  have hkinds := same_kinds (sameSource_tokensAt hrow.lexemes r.start r'.start)
  cases hlead : r.lead with
  | some lead =>
    rw [cell_of_lead openings hlead] at h ⊢
    rw [cell_of_lead openings (hrow.lead.trans hlead)]
    exact congrArg Cell.verbatim h
  | none =>
    have hlead' := hrow.lead.trans hlead
    have hlexemes := hrow.lexemes
    by_cases hnil : r.lexemes = []
    · rw [hnil] at hlexemes
      rw [cell_of_nil openings hlead hnil, cell_of_nil openings hlead' (List.forall₂_nil_left_iff.mp hlexemes)]
    · have hnil' : r'.lexemes ≠ [] := by
        intro hnil'
        rw [hnil'] at hlexemes
        exact hnil (List.forall₂_nil_right_iff.mp hlexemes)
      rw [cell_of_free hok openings hlead hnil] at h ⊢
      have hequal : r'.row.equal?.isSome = r.row.equal?.isSome := isSome_equal?_kinds hkinds
      have hindent : (closeLeading openings r'.row.tokens).1 = (closeLeading openings r.row.tokens).1 :=
        (closeLeading_kinds hkinds openings).1
      have hassign := isAssignment_of_equal? (r := r)
      have hassign' := isAssignment_of_equal? (r := r')
      rw [cell_of_free hok' openings hlead' hnil', hequal, hindent]
      rw [hequal] at hassign'
      cases hnamed : r.row.equal?.isSome with
      | false =>
        rw [hnamed] at h
        exact parts_kept_plain hok hok' hrow hlead' h
      | true =>
        rw [hnamed] at h hassign hassign'
        exact parts_kept_named hok hok' hrow hlead' (hassign rfl) (hassign' rfl) h

/-! ## The rows of a text in another layout -/

theorem lexRows_kept {ws ws' : List Lexeme} (h : List.Forall₂ Kept ws ws') :
    ∀ (start start' : Position) (lead : Option Text) (front front' : List Lexeme) (tail tail' : Text),
      List.Forall₂ Kept front front' →
      List.Forall₂ KeptRow (lexRows start lead front ws tail) (lexRows start' lead front' ws' tail') := by
  induction h with
  | nil => exact fun start start' lead front front' tail tail' hfront => .cons ⟨rfl, hfront⟩ .nil
  | @cons w w' ws ws' hw _ ih =>
    intro start start' lead front front' tail tail' hfront
    have hconcat := List.rel_append hfront (.cons hw .nil)
    rw [lexRows, lexRows, hw.kind]
    split
    · exact .cons ⟨rfl, hfront⟩ (ih _ _ _ _ _ _ _ .nil)
    · by_cases hn : '\n' ∈ w.text
      · obtain ⟨first, second, more, hlines⟩ := lines_eq_cons_cons hn
        obtain ⟨first', hlines'⟩ := lines_kept hw.text hlines
        simp only [hlines, hlines']
        refine .cons ⟨rfl, hconcat⟩ (List.rel_append ?_ (ih _ _ _ _ _ _ _ .nil))
        rw [List.forall₂_map_left_iff, List.forall₂_map_right_iff, List.forall₂_same]
        exact fun line _ => ⟨rfl, .nil⟩
      · have hn' : '\n' ∉ w'.text := fun hn' => hn (hw.newline_mem.mp hn')
        rw [Text.lines_of_not_mem hn, Text.lines_of_not_mem hn']
        exact ih _ _ _ _ _ _ _ hconcat

end HclTidy.Layout
