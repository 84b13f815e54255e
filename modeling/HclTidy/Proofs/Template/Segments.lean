import HclTidy.Proofs.Template.Scan

/-!
# Templates as sequences of segments

Scanning cuts a template into segments, one for each part, and loses no character: a literal part
is its own segment, an interpolation stands between its marker and its closing brace.
-/

set_option autoImplicit false

namespace HclTidy

/-- The text between an offset and the end of what was read from there on. -/
theorem Text.slice_of_drop {text used after : Text} {start : Nat} (hne : used ≠ [])
    (h : text.drop start = used ++ after) :
    start + used.length ≤ text.length ∧ after = text.drop (start + used.length) ∧
      text.slice start (start + used.length) = used := by
  refine ⟨?_, ?_, ?_⟩
  · have hlength := congrArg List.length h
    have hpos := List.length_pos_iff.mpr hne
    rw [List.length_drop, List.length_append] at hlength
    omega
  · rw [← List.drop_drop, h, List.drop_left]
  · rw [Text.slice, Nat.add_sub_cancel_left, h, List.take_left]

namespace Template

/-! ## Literal parts -/

/-- Every quote stands behind a backslash that escapes it. -/
inductive QuotesEscaped : Text → Prop
  | nil : QuotesEscaped []
  | escape {e t} : QuotesEscaped t → QuotesEscaped ('\\' :: e :: t)
  | plain {c t} : c ≠ '"' → c ≠ '\\' → QuotesEscaped t → QuotesEscaped (c :: t)

theorem QuotesEscaped.append {s t : Text} (hs : QuotesEscaped s) (ht : QuotesEscaped t) :
    QuotesEscaped (s ++ t) := by
  induction hs with
  | nil => exact ht
  | escape _ ih => exact .escape ih
  | plain hq hb _ ih => exact .plain hq hb ih

/-- Literal parts are not empty, do not touch and, in a quoted template, have their quotes
escaped. -/
structure Apart (quoted : Bool) (parts : List Part) : Prop where
  nonempty : ∀ text, .literal text ∈ parts → text ≠ []
  separated : parts.IsChain fun p q => p.isLiteral = false ∨ q.isLiteral = false
  escaped : quoted = true → ∀ text, .literal text ∈ parts → QuotesEscaped text

section Apart

variable {quoted : Bool} {parts : List Part}

theorem Apart.interpolation (h : Apart quoted parts) (directive : Bool) (inner : Text) :
    Apart quoted (.interpolation directive inner :: parts) where
  nonempty text ht := h.nonempty text (by simpa using ht)
  separated := List.isChain_cons.mpr ⟨fun _ _ => .inl rfl, h.separated⟩
  escaped hquoted text ht := h.escaped hquoted text (by simpa using ht)

theorem apart_nil : Apart quoted [] := ⟨nofun, .nil, fun _ => nofun⟩

theorem Apart.pending {piece : Text} (h : Apart quoted parts)
    (hhead : ∀ p ∈ parts.head?, p.isLiteral = false)
    (hpiece : quoted = true → QuotesEscaped piece.reverse) : Apart quoted (pending piece ++ parts) := by
  unfold Template.pending
  split
  · exact h
  · next hne =>
    refine ⟨?_, List.isChain_cons.mpr ⟨fun p hp => .inr (hhead p hp), h.separated⟩, ?_⟩
    · rintro text (_ | ⟨_, ht⟩)
      · simpa using hne
      · exact h.nonempty text ht
    · rintro hquoted text (_ | ⟨_, ht⟩)
      · exact hpiece hquoted
      · exact h.escaped hquoted text ht

theorem apart_pending {piece : Text} (hpiece : quoted = true → QuotesEscaped piece.reverse) :
    Apart quoted (Template.pending piece) := by
  have h := (apart_nil : Apart quoted []).pending (by simp) hpiece
  rwa [List.append_nil] at h

end Apart

/-- The unfinished part of a quoted template may become a literal. -/
def Begun (quoted : Bool) (frames : List Frame) (piece : Text) : Prop :=
  frames = [] → quoted = true → QuotesEscaped piece.reverse

theorem Begun.append {quoted : Bool} {frames : List Frame} {piece : Text}
    (h : Begun quoted frames piece) (more : Text)
    (hmore : frames = [] → quoted = true → QuotesEscaped more.reverse) :
    Begun quoted frames (more ++ piece) := by
  intro hframes hquoted
  rw [List.reverse_append]
  exact (h hframes hquoted).append (hmore hframes hquoted)

theorem begun_inside (quoted : Bool) (frame : Frame) (frames : List Frame) (piece : Text) :
    Begun quoted (frame :: frames) piece := fun hnil => absurd hnil (List.cons_ne_nil frame frames)

/-- The parts of a template from inside `frames` on: an interpolation comes first when there are
any. -/
def ApartFrom (quoted : Bool) (frames : List Frame) (parts : List Part) : Prop :=
  Apart quoted parts ∧ (frames ≠ [] → ∀ p ∈ parts.head?, p.isLiteral = false)

theorem ApartFrom.inside {quoted : Bool} {frames frames' : List Frame} {parts : List Part}
    (h : ApartFrom quoted frames' parts) (hne : frames' ≠ []) : ApartFrom quoted frames parts :=
  ⟨h.1, fun _ => h.2 hne⟩

theorem Apart.outermost {quoted : Bool} {parts : List Part} (h : Apart quoted parts) :
    ApartFrom quoted [] parts := ⟨h, fun hne => absurd rfl hne⟩

theorem quotesEscaped_marker {c : Char} (h : isMarker c = true) : QuotesEscaped [c] :=
  have hc := ne_special_of_isMarker h
  .plain hc.2.1 hc.2.2.1 .nil

/-- What the scanner returns has its literal parts apart. In front of the first one stands an
interpolation when the scanner is inside one. -/
theorem apart_of_scan {quoted : Bool} {frames : List Frame} {offset : Nat} {piece text after : Text}
    {parts : List Part} (h : scan quoted frames offset piece text = .ok (parts, after)) :
    frames.getLast? ≠ some .quote → Begun quoted frames piece → ApartFrom quoted frames parts := by
  fun_induction scan quoted frames offset piece text generalizing parts after
  case case1 | case3 | case4 | case8 | case12 | case15 | case17 => cases h
  case case2 piece _ =>
    cases h
    intro _ hpiece
    exact (apart_pending (hpiece rfl)).outermost
  case case5 ih | case11 ih =>
    intro hlast _
    exact (ih h hlast (begun_inside _ _ _ _)).inside (List.cons_ne_nil _ _)
  case case6 ih | case7 ih =>
    intro hlast _
    exact (ih h (getLast_braces _ hlast) (begun_inside _ _ _ _)).inside (List.cons_ne_nil _ _)
  case case9 hrun _ _ ih =>
    cases h
    intro _ _
    refine ⟨(ih hrun (by simp) fun _ _ => .nil).1.interpolation _ _, fun _ p hp => ?_⟩
    cases hp
    rfl
  case case10 outer hne _ _ ih =>
    intro hlast _
    obtain ⟨frame, frames, rfl⟩ := List.exists_cons_of_ne_nil hne
    exact (ih h hlast (begun_inside _ _ _ _)).inside hne
  case case13 =>
    cases h
    intro _ hpiece
    exact (apart_pending (hpiece rfl)).outermost
  case case14 frame outer hnot _ _ _ ih =>
    intro hlast _
    cases frame with
    | quote =>
      obtain ⟨hne, hlast⟩ := ne_nil_of_quote hlast
      obtain ⟨frame, frames, rfl⟩ := List.exists_cons_of_ne_nil hne
      exact (ih h hlast (begun_inside _ _ _ _)).inside hne
    | braces directive start depth => exact (hnot directive start depth outer rfl).elim
  case case16 c string _ inString _ _ hc e rest ih =>
    intro hlast hpiece
    obtain rfl : c = '\\' := by simpa using (Bool.and_eq_true_iff.mp hc).2
    exact ih h hlast (hpiece.append [e, '\\'] fun _ _ => .escape .nil)
  case case18 hrun _ _ _ _ _ ih =>
    cases h
    intro _ hpiece
    obtain ⟨hapart, hhead⟩ := ih hrun (by simp) (begun_inside _ _ _ _)
    exact (hapart.pending (hhead (List.cons_ne_nil _ _)) (hpiece rfl)).outermost
  case case19 c string hnot inString _ _ _ hc rest hne ih =>
    intro hlast _
    obtain ⟨frame, frames, rfl⟩ := List.exists_cons_of_ne_nil hne
    exact (ih h hlast (begun_inside _ _ _ _)).inside (List.cons_ne_nil _ _)
  case case20 d after' _ _ _ _ hc ih =>
    intro hlast hpiece
    refine ih h hlast (hpiece.append ['{', d, d] fun _ _ => ?_)
    have hd := quotesEscaped_marker hc
    exact hd.append (hd.append (.plain (by decide) (by decide) .nil))
  case case21 c string _ inString _ _ _ hc d after' _ _ ih =>
    intro hlast hpiece
    exact ih h hlast (hpiece.append [c] fun _ _ => quotesEscaped_marker hc)
  case case22 c string _ inString _ _ _ hc rest _ _ ih =>
    intro hlast hpiece
    exact ih h hlast (hpiece.append [c] fun _ _ => quotesEscaped_marker hc)
  case case23 c rest string _ inString _ hq hb _ ih =>
    intro hlast hpiece
    refine ih h hlast (hpiece.append [c] fun _ hquoted => ?_)
    subst hquoted
    simp only [inString, Bool.true_or, Bool.true_and, decide_eq_true_eq] at hq hb
    exact .plain hq hb .nil

/-! ## Decomposition -/

/-- `source` is what is left of the inside of an interpolation without the white space at its ends,
one strip marker at each end, and the white space beside the markers. -/
def Stripped (inner source : Text) : Prop :=
  ∃ front core back, Text.trim inner = front ++ (core ++ back) ∧
    (front = ['~'] ∨ front = [] ∧ (core ++ back).head? ≠ some '~') ∧
    (back = ['~'] ∨ back = [] ∧ core.getLast? ≠ some '~') ∧ source = Text.trim core

theorem stripped_stripMarkers (inner : Text) : Stripped inner (stripMarkers inner) := by
  have hfront (body : Text) : ∃ front rest, body = front ++ rest ∧
      (front = ['~'] ∨ front = [] ∧ rest.head? ≠ some '~') ∧
      rest = if body.head? = some '~' then body.tail else body := by
    by_cases h : body.head? = some '~'
    · refine ⟨['~'], body.tail, ?_, .inl rfl, (if_pos h).symm⟩
      exact List.eq_cons_of_mem_head? h
    · exact ⟨[], body, rfl, .inr ⟨rfl, h⟩, (if_neg h).symm⟩
  have hback (body : Text) : ∃ core back, body = core ++ back ∧
      (back = ['~'] ∨ back = [] ∧ core.getLast? ≠ some '~') ∧
      core = if body.getLast? = some '~' then body.dropLast else body := by
    by_cases h : body.getLast? = some '~'
    · exact ⟨body.dropLast, ['~'], (List.dropLast_append_getLast? _ h).symm, .inl rfl, (if_pos h).symm⟩
    · exact ⟨body, [], (List.append_nil body).symm, .inr ⟨rfl, h⟩, (if_neg h).symm⟩
  obtain ⟨front, rest, htrim, hopen, hrest⟩ := hfront (Text.trim inner)
  obtain ⟨core, back, rfl, hclose, hcore⟩ := hback rest
  refine ⟨front, core, back, htrim, hopen, hclose, ?_⟩
  simp only [stripMarkers, ← hrest, ← hcore]

/-- The parts of a template are its text cut into segments. -/
structure Decomposes (quoted : Bool) (parts : List Part) (body : Text) : Prop
    extends Apart quoted parts where
  joined : parts.flatMap Part.written = body
  sources : ∀ directive inner, .interpolation directive inner ∈ parts →
    Stripped inner (stripMarkers inner)

theorem decomposes_of_scan {quoted : Bool} {offset : Nat} {text after : Text} {parts : List Part}
    (h : scan quoted [] offset [] text = .ok (parts, after)) :
    ∃ body, text = body ++ closing quoted ++ after ∧ (quoted = false → after = []) ∧
      Decomposes quoted parts body := by
  obtain ⟨used, rfl, hafter, hwritten⟩ := covers_of_scan h
  have hapart := (apart_of_scan h (by simp) fun _ _ => .nil).1
  refine ⟨parts.flatMap Part.written, ?_, hafter, ⟨hapart, rfl, fun _ inner _ => stripped_stripMarkers inner⟩⟩
  rw [hwritten]
  rfl

/-- Scanning keeps every character: a quoted template is a quote, one segment for each of its parts
and a quote; an unquoted one is the segments up to the end of the text. -/
theorem scan_lossless (text : Text) (start : Nat) :
    (∀ parts after, scanQuoted start (text.drop start) = .ok (parts, after) →
      ∃ stop body, stop ≤ text.length ∧ after = text.drop stop ∧
        text.slice start stop = '"' :: body ++ ['"'] ∧ Decomposes true parts body) ∧
    ∀ parts after, scanBody start (text.drop start) = .ok (parts, after) →
      after = [] ∧ Decomposes false parts (text.drop start) := by
  refine ⟨fun parts after h => ?_, fun parts after h => ?_⟩
  · unfold scanQuoted at h
    split at h
    · next rest hrest =>
      obtain ⟨body, rfl, -, hbody⟩ := decomposes_of_scan h
      obtain ⟨hle, hafter, hslice⟩ :=
        Text.slice_of_drop (List.cons_ne_nil '"' (body ++ closing true)) hrest
      exact ⟨_, body, hle, hafter, hslice, hbody⟩
    · cases h
    · cases h
  · obtain ⟨body, htext, hafter, hbody⟩ := decomposes_of_scan h
    obtain rfl := hafter rfl
    rw [htext, closing, if_neg Bool.false_ne_true, List.append_nil, List.append_nil]
    exact ⟨rfl, hbody⟩

/-- Strings in interpolations in strings, escapes, doubled markers and strip markers. -/
theorem scan_lossless_nested :
    let text : Text := "x=\"a\\\"$$\x7b$\x7b~ f(\"\x7d$\x7bb\x7d\", \x7bk=1\x7d) ~\x7d%\x7bif c\x7d\\\\\"; \"$\x7bd\x7d".toList
    (∃ parts after, scanQuoted 2 (text.drop 2) = .ok (parts, after) ∧
      parts = [.literal "a\\\"$$\x7b".toList, .interpolation false "~ f(\"\x7d$\x7bb\x7d\", \x7bk=1\x7d) ~".toList,
        .interpolation true "if c".toList, .literal "\\\\".toList] ∧
      ∃ stop body, stop ≤ text.length ∧ after = text.drop stop ∧
        text.slice 2 stop = '"' :: body ++ ['"'] ∧ Decomposes true parts body) ∧
    ∃ parts after, scanBody 43 (text.drop 43) = .ok (parts, after) ∧
      parts = [.literal "; \"".toList, .interpolation false ['d']] ∧
      after = [] ∧ Decomposes false parts (text.drop 43) := by
  intro text
  have hquoted : scanQuoted 2 (text.drop 2) = .ok ([.literal "a\\\"$$\x7b".toList,
      .interpolation false "~ f(\"\x7d$\x7bb\x7d\", \x7bk=1\x7d) ~".toList,
      .interpolation true "if c".toList, .literal "\\\\".toList], text.drop 43) := by
    decide +kernel
  have hbody : scanBody 43 (text.drop 43) =
      .ok ([.literal "; \"".toList, .interpolation false ['d']], []) := by
    decide +kernel
  exact ⟨⟨_, _, hquoted, rfl, (scan_lossless text 2).1 _ _ hquoted⟩,
    _, _, hbody, rfl, (scan_lossless text 43).2 _ _ hbody⟩

end Template

end HclTidy
