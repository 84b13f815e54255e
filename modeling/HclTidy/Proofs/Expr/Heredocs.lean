import HclTidy.Proofs.Expr.Rebuilt

/-!
# Rebuilt heredocs

A heredoc is rebuilt between a marker of its own and that marker. The marker is the first candidate
that is no line of the body, and there is always one. The heredoc closes where it should as long as
no line of the body is the marker with white space around it.
-/

set_option autoImplicit false

namespace HclTidy

open Token Template

namespace Expr

/-! ## The marker -/

theorem heredocMarker_injective : Function.Injective heredocMarker := by
  intro m n h
  have hlength := congrArg List.length h
  simpa [heredocMarker] using hlength

theorem exists_marker_not_mem (rows : List Text) :
    ∃ m ∈ (List.range (rows.length + 1)).map heredocMarker, m ∉ rows := by
  by_contra hall
  have hsubset : (List.range (rows.length + 1)).map heredocMarker ⊆ rows := by
    intro m hm
    by_contra hnot
    exact hall ⟨m, hm, hnot⟩
  have hnodup : ((List.range (rows.length + 1)).map heredocMarker).Nodup :=
    List.nodup_range.map heredocMarker_injective
  have hle := (hnodup.subperm hsubset).length_le
  rw [List.length_map, List.length_range] at hle
  omega

/-- The marker is the first candidate that is no line of the body. -/
theorem freeMarker_first (body : Text) : ∃ n, freeMarker body = heredocMarker n ∧
    heredocMarker n ∉ Text.lines body ∧ ∀ m < n, heredocMarker m ∈ Text.lines body := by
  obtain ⟨m, hm, hnot⟩ := exists_marker_not_mem (Text.lines body)
  have hfound : ((List.range ((Text.lines body).length + 1)).map heredocMarker
      |>.find? fun m => !(Text.lines body).contains m).isSome = true := by
    rw [List.find?_isSome]
    exact ⟨m, hm, by simpa using hnot⟩
  obtain ⟨marker, hmarker⟩ := Option.isSome_iff_exists.mp hfound
  obtain ⟨hfree, n, hn, hget, hbefore⟩ := List.find?_eq_some_iff_getElem.mp hmarker
  rw [List.getElem_map, List.getElem_range] at hget
  refine ⟨n, ?_, by simpa [hget] using hfree, fun k hk => ?_⟩
  · rw [freeMarker, hmarker, hget]
    rfl
  · simpa using hbefore k hk

/-! ## The body -/

/-- Lines with a line feed behind each of them. -/
def rowsOf (rows : List Text) : Text := rows.flatMap (· ++ ['\n'])

theorem rowsOf_cons (row : Text) (rows : List Text) : rowsOf (row :: rows) = row ++ '\n' :: rowsOf rows := by
  rw [rowsOf, List.flatMap_cons, List.append_assoc]
  rfl

theorem lines_rowsOf {rows : List Text} (h : ∀ row ∈ rows, '\n' ∉ row) {last : Text} (hlast : '\n' ∉ last) :
    Text.lines (rowsOf rows ++ last) = rows ++ [last] := by
  induction rows with
  | nil => exact Text.lines_of_not_mem hlast
  | cons row rows ih =>
    obtain ⟨hrow, hrows⟩ := List.forall_mem_cons.mp h
    rw [rowsOf_cons, List.append_assoc, List.cons_append, Text.lines_append_newline _ hrow, ih hrows]
    rfl

/-- A text that ends with a line feed, if it is not empty, is made of lines. -/
theorem exists_rowsOf (t : Text) (h : ∀ c ∈ t.getLast?, c = '\n') :
    ∃ rows, t = rowsOf rows ∧ ∀ row ∈ rows, '\n' ∉ row := by
  induction hlen : t.length using Nat.strong_induction_on generalizing t with
  | _ len ih =>
    subst hlen
    obtain hn | ⟨a, b, ha, rfl⟩ := Text.eq_or_append_newline t
    · obtain rfl | ⟨s, c, rfl⟩ := List.eq_nil_or_concat' t
      · exact ⟨[], rfl, List.forall_mem_nil _⟩
      · obtain rfl := h c (by simp)
        exact absurd (by simp) hn
    · have hb : ∀ c ∈ b.getLast?, c = '\n' := by
        intro c hc
        refine h c ?_
        rw [List.getLast?_append, List.getLast?_cons, Option.mem_def.mp hc]
        rfl
      obtain ⟨rows, rfl, hrows⟩ := ih b.length (by simp; omega) b hb rfl
      exact ⟨a :: rows, (rowsOf_cons a rows).symm, List.forall_mem_cons.mpr ⟨ha, hrows⟩⟩

theorem closes_rowsOf {marker : Text} {rows : List Text} (hrows : ∀ row ∈ rows, '\n' ∉ row)
    (hmarker : '\n' ∉ marker) (htrim : Text.trim marker = marker)
    (hfree : ∀ row ∈ rows, Text.trim row ≠ marker) : Closes marker (rowsOf rows ++ marker) [] := by
  induction rows with
  | nil => exact .last hmarker htrim endsLine_nil
  | cons row rows ih =>
    obtain ⟨hrow, hrest⟩ := List.forall_mem_cons.mp hrows
    obtain ⟨hne, hfree⟩ := List.forall_mem_cons.mp hfree
    rw [rowsOf_cons, List.append_assoc, List.cons_append]
    exact .more hrow hne (ih hrest hfree)

theorem heredocBody_last (source : Text) : ∀ c ∈ (heredocBody source).getLast?, c = '\n' := by
  have hrows (rows : List Text) : ∀ c ∈ (rowsOf rows).getLast?, c = '\n' := by
    intro c hc
    obtain rfl | ⟨rows, row, rfl⟩ := List.eq_nil_or_concat' rows
    · cases hc
    · rw [rowsOf, List.flatMap_append, List.flatMap_singleton, ← List.append_assoc,
        List.getLast?_concat] at hc
      exact (Option.some.inj hc).symm
  exact hrows _

/-- The last part of a heredoc is a literal, which is copied. -/
theorem rebuilt_last {body : Text} {parts : List Part} (hparts : Decomposes false parts body)
    (hbody : ∀ c ∈ body.getLast?, c = '\n') : ∀ c ∈ (parts.flatMap Part.rebuilt).getLast?, c = '\n' := by
  obtain rfl | ⟨before, last, rfl⟩ := List.eq_nil_or_concat' parts
  · simp
  · have hjoined := hparts.joined
    rw [List.flatMap_append, List.flatMap_singleton] at hjoined ⊢
    cases last with
    | literal text =>
      have hne : text ≠ [] := hparts.nonempty text (by simp)
      rw [← hjoined, Part.written, List.getLast?_append_of_ne_nil _ hne] at hbody
      rwa [Part.rebuilt, List.getLast?_append_of_ne_nil _ hne]
    | interpolation directive inner =>
      rw [← hjoined, Part.written, ← List.append_assoc, List.getLast?_concat] at hbody
      cases hbody '}' rfl

/-! ## The rebuilt heredoc -/

theorem isIdentChar_of_mem_heredocMarker {n : Nat} : ∀ c ∈ heredocMarker n, isIdentChar c = true := by
  intro c hc
  obtain hc | hc := List.mem_append.mp hc
  · have hletters : "EOT".toList = ['E', 'O', 'T'] := rfl
    simp only [hletters, List.mem_cons, List.not_mem_nil, or_false] at hc
    obtain rfl | rfl | rfl := hc <;> rfl
  · rw [List.eq_of_mem_replicate hc]
    rfl

theorem newline_not_mem_heredocMarker {n : Nat} : '\n' ∉ heredocMarker n :=
  fun h => Bool.noConfusion (isIdentChar_of_mem_heredocMarker _ h)

theorem trim_heredocMarker {n : Nat} : Text.trim (heredocMarker n) = heredocMarker n := by
  have hword : ∀ c ∈ heredocMarker n, isSeparator c = false := fun c hc =>
    identChar_notSeparator (isIdentChar_of_mem_heredocMarker c hc)
  have hleft : Text.trimLeft (heredocMarker n) = heredocMarker n := Text.trimLeft_cons _ rfl
  rw [Text.trim, hleft, word_trimRight hword]

/-- Lines between a marker and the marker are one heredoc, unless one of them is the marker with white
space around it. -/
theorem ofText_heredoc {n : Nat} {rows : List Text} (hrows : ∀ row ∈ rows, '\n' ∉ row)
    (hfree : ∀ row ∈ rows, Text.trim row ≠ heredocMarker n) :
    let text := '<' :: '<' :: heredocMarker n ++ '\n' :: rowsOf rows ++ heredocMarker n
    TokenStream.ofText text = .ok ⟨[⟨.heredoc, text, Position.start⟩], Position.start.after text⟩ ∧
      heredocBody text = rowsOf rows := by
  intro text
  have hmarker := newline_not_mem_heredocMarker (n := n)
  have hcloses := closes_rowsOf hrows hmarker trim_heredocMarker hfree
  have htext : text = '<' :: '<' :: ([] ++ 'E' :: ('O' :: 'T' :: List.replicate n '_') ++ [] ++
      '\n' :: (rowsOf rows ++ heredocMarker n)) := by
    simp [text, heredocMarker]
  have hfits : Fits .heredoc text [] := by
    rw [htext]
    refine .heredoc (.inl rfl) rfl (fun d hd => ?_) (List.forall_mem_nil _) (List.not_mem_nil) hcloses
    exact isIdentChar_of_mem_heredocMarker (n := n) d (List.mem_cons_of_mem 'E' hd)
  have hfit : AllFit [⟨[], .heredoc, text⟩] [] := ⟨List.forall_mem_nil _, hfits, trivial⟩
  refine ⟨?_, ?_⟩
  · have hread := readAll_textOf hfit (List.forall_mem_nil _) Position.start
    rw [textOf_cons, textOf_nil, List.nil_append, List.append_nil] at hread
    exact hread
  · have hheader : ∀ c ∈ '<' :: '<' :: heredocMarker n, decide (c ≠ '\n') = true := by
      intro c hc
      refine decide_eq_true ?_
      rintro rfl
      simp [hmarker] at hc
    have hbody : (text.dropWhile (· ≠ '\n')).tail = rowsOf rows ++ heredocMarker n := by
      rw [show text = ('<' :: '<' :: heredocMarker n) ++ '\n' :: (rowsOf rows ++ heredocMarker n) by
        simp [text], List.dropWhile_append_of_pos hheader]
      rfl
    have hplain : ['<', '<', '-'].isPrefixOf text = false := rfl
    rw [heredocBody, hbody, hplain, lines_rowsOf hrows hmarker, List.dropLast_concat]
    rfl

/-- The parts of a heredoc with an interpolation are those of its body. -/
theorem decomposes_of_parsedFrom {text source : Text} {parts : List Part}
    (h : ParsedFrom text (.template source true parts)) (hparts : ∃ p ∈ parts, p.isLiteral = false) :
    Decomposes false parts (heredocBody source) := by
  obtain ⟨src, ws, tail, -, -, mode, c, s, hc, hs, hvalue⟩ := h.isRead
  obtain ⟨t, ht, htoken⟩ := templateOf_of_read hs hvalue
  rw [hvalue] at htoken
  cases htoken with
  | heredoc hkind =>
    simp only [partsOf, Bool.false_eq_true, if_false] at hparts ⊢
    cases hscan : scanBody 0 (heredocBody t.text) with
    | error e =>
      rw [hscan] at hparts
      obtain ⟨p, hp, hliteral⟩ := hparts
      cases List.mem_singleton.mp hp
      cases hliteral
    | ok r =>
      obtain ⟨parts, after⟩ := r
      obtain ⟨body, hbody, hafter, hdecomposes⟩ := decomposes_of_scan hscan
      rw [hafter rfl, closing, if_neg Bool.false_ne_true, List.append_nil, List.append_nil] at hbody
      rwa [hbody]

/-- A rebuilt heredoc is one token, with the rebuilt parts for its body, unless a line of the body is
the marker with white space around it. -/
theorem ofText_rebuild_heredoc {text source : Text} {parts : List Part}
    (h : ParsedFrom text (.template source true parts)) (hparts : ∃ p ∈ parts, p.isLiteral = false) :
    let body := parts.flatMap Part.rebuilt
    let rebuilt := rebuild (.template source true parts)
    (∀ row ∈ Text.lines body, Text.trim row ≠ freeMarker body) →
      TokenStream.ofText rebuilt =
        .ok ⟨[⟨.heredoc, rebuilt, Position.start⟩], Position.start.after rebuilt⟩ ∧
      heredocBody rebuilt = body := by
  intro body rebuilt hfree
  have hlast := rebuilt_last (decomposes_of_parsedFrom h hparts) (heredocBody_last source)
  obtain ⟨rows, hrowsOf, hrows⟩ := exists_rowsOf body hlast
  obtain ⟨n, hmarker, -, -⟩ := freeMarker_first body
  have hrebuilt : rebuilt = '<' :: '<' :: heredocMarker n ++ '\n' :: rowsOf rows ++ heredocMarker n := by
    have hstatic : parts.all Part.isLiteral = false := by
      rw [List.all_eq_false]
      simpa using hparts
    rw [← hmarker, ← hrowsOf]
    simp only [rebuilt, rebuild, isStatic, hstatic, Bool.false_eq_true, if_false, rebuildTemplate, if_true]
    rfl
  have hlines : Text.lines body = rows ++ [[]] := by
    rw [hrowsOf, ← List.append_nil (rowsOf rows), lines_rowsOf hrows (List.not_mem_nil)]
  rw [hlines, hmarker] at hfree
  rw [hrebuilt, hrowsOf]
  exact ofText_heredoc hrows fun row hrow => hfree row (List.mem_append_left _ hrow)

/-- A body with the marker indented, where the rebuilt heredoc closes too early. -/
theorem ofText_rebuild_heredoc_indented :
    let text := "<<X\n  EOT\n$\x7ba\x7d\nX".toList
    let parts : List Part :=
      [.literal "  EOT\n".toList, .interpolation false ['a'], .literal ['\n']]
    ParsedFrom text (.template text true parts) ∧
      rebuild (.template text true parts) = "<<EOT\n  EOT\n$\x7ba\x7d\nEOT".toList ∧
      (TokenStream.ofText (rebuild (.template text true parts))).toOption = none :=
  ⟨.of_template? (by decide +kernel), by decide +kernel, by decide +kernel⟩

end Expr

end HclTidy
