import HclTidy.Proofs.Layout.Formatted

/-!
# The tokens of a text in canonical layout

The canonical layout keeps the tokens: the same ones in the same order, with as many line feeds
between neighbours. Of a token it changes white space at the end of the first line at most. Line
feeds in front of the first token go, and one stands behind the last.
-/

set_option autoImplicit false

namespace HclTidy

namespace Token

/-- The same token but for white space at the end of its first line. -/
structure SameSource (t t' : Token) : Prop where
  kind : t'.kind = t.kind
  firstLine : Text.trimRight (t'.text.takeWhile (· ≠ '\n')) =
    Text.trimRight (t.text.takeWhile (· ≠ '\n'))
  below : t'.text.dropWhile (· ≠ '\n') = t.text.dropWhile (· ≠ '\n')

/-- The numbers of line feeds between neighbours among the other tokens. `seen` is the number of
those behind the last such token, none in front of the first. -/
def feedsBetween : Option Nat → List Token → List Nat
  | _, [] => []
  | seen, t :: ts =>
    if t.kind = .newline then feedsBetween (seen.map (· + 1)) ts
    else seen.toList ++ feedsBetween (some 0) ts

/-- The same tokens with as many line feeds between neighbours. -/
structure SameTokens (ts ts' : List Token) : Prop where
  code : List.Forall₂ SameSource (ts.filter fun t => t.kind ≠ .newline)
    (ts'.filter fun t => t.kind ≠ .newline)
  feeds : feedsBetween none ts' = feedsBetween none ts

section Feeds

variable {ts us vs : List Token}

theorem feedsBetween_above (h : ∀ t ∈ us, t.kind = .newline) :
    feedsBetween none (us ++ ts) = feedsBetween none ts := by
  induction us with
  | nil => rfl
  | cons u us ih =>
    obtain ⟨hu, hus⟩ := List.forall_mem_cons.mp h
    rw [List.cons_append, feedsBetween, if_pos hu]
    exact ih hus

theorem feedsBetween_newlines (h : ∀ t ∈ us, t.kind = .newline) (seen : Option Nat) :
    feedsBetween seen us = [] := by
  induction us generalizing seen with
  | nil => rfl
  | cons u us ih =>
    obtain ⟨hu, hus⟩ := List.forall_mem_cons.mp h
    rw [feedsBetween, if_pos hu]
    exact ih hus _

theorem feedsBetween_below (h : ∀ t ∈ us, t.kind = .newline) (seen : Option Nat) :
    feedsBetween seen (ts ++ us) = feedsBetween seen ts := by
  induction ts generalizing seen with
  | nil => exact feedsBetween_newlines h seen
  | cons t ts ih =>
    rw [List.cons_append, feedsBetween, feedsBetween, ih, ih]

theorem feedsBetween_congr (h : List.Forall₂ SameSource ts vs) (seen : Option Nat) :
    feedsBetween seen vs = feedsBetween seen ts := by
  induction h generalizing seen with
  | nil => rfl
  | cons ht _ ih => rw [feedsBetween, feedsBetween, ht.kind, ih, ih]

theorem filter_newlines (h : ∀ t ∈ us, t.kind = .newline) :
    us.filter (fun t => t.kind ≠ .newline) = [] :=
  List.filter_eq_nil_iff.mpr fun t ht => by simp [h t ht]

/-- Line feeds at both ends do not count. -/
theorem sameTokens_of_middle {above below below' : List Token} (habove : ∀ t ∈ above, t.kind = .newline)
    (hbelow : ∀ t ∈ below, t.kind = .newline) (hbelow' : ∀ t ∈ below', t.kind = .newline)
    (h : List.Forall₂ SameSource ts vs) : SameTokens (above ++ (ts ++ below)) (vs ++ below') := by
  constructor
  · rw [List.filter_append, List.filter_append, List.filter_append, filter_newlines habove,
      filter_newlines hbelow, filter_newlines hbelow', List.nil_append, List.append_nil,
      List.append_nil]
    exact List.rel_filter (fun t t' ht => by simp [ht.kind]) h
  · rw [feedsBetween_above habove, feedsBetween_below hbelow, feedsBetween_below hbelow',
      feedsBetween_congr h]

end Feeds

end Token

namespace Layout

open Token

theorem sameSource_of_kept {w w' : Lexeme} (h : Kept w w') (p p' : Position) :
    SameSource ⟨w.kind, w.text, p⟩ ⟨w'.kind, w'.text, p'⟩ := by
  obtain ⟨hkind, htext | htext⟩ := h
  · exact ⟨hkind, by rw [htext], by rw [htext]⟩
  · obtain ⟨hfirst, hbelow⟩ := Text.takeWhile_trimFirst w.text
    exact ⟨hkind, by rw [htext, hfirst], by rw [htext, hbelow]⟩

theorem sameSource_tokensAt {ws ws' : List Lexeme} (h : List.Forall₂ Kept ws ws') (p p' : Position) :
    List.Forall₂ SameSource (tokensAt p ws) (tokensAt p' ws') := by
  induction h generalizing p p' with
  | nil => exact .nil
  | cons hw _ ih => exact .cons (sameSource_of_kept hw _ _) (ih _ _)

/-- Lexemes from the first to the last that is no line feed. -/
theorem exists_middle {ws : List Lexeme} (h : ∃ w ∈ ws, w.kind ≠ .newline) :
    ∃ above mid below, ws = above ++ (mid ++ below) ∧ (∀ w ∈ above, w.kind = .newline) ∧
      (∀ w ∈ below, w.kind = .newline) ∧ (∃ w more, mid = w :: more ∧ w.kind ≠ .newline) ∧
      ∃ w front, mid = front ++ [w] ∧ w.kind ≠ .newline := by
  let isFeed : Lexeme → Bool := fun w => w.kind = .newline
  have hfeed {w : Lexeme} (hw : isFeed w = true) : w.kind = .newline := of_decide_eq_true hw
  have hne : ws.dropWhile isFeed ≠ [] := by
    intro hnil
    obtain ⟨w, hw, hk⟩ := h
    exact hk (of_decide_eq_true (List.dropWhile_eq_nil_iff.mp hnil w hw))
  have hhead : isFeed ((ws.dropWhile isFeed).head hne) = false := List.head_dropWhile_not _ hne
  obtain ⟨w, more, hdrop⟩ := List.exists_cons_of_ne_nil hne
  have hw : isFeed w = false := by simpa only [hdrop, List.head_cons] using hhead
  have hmid : (w :: more).rdropWhile isFeed ≠ [] := by
    intro hnil
    have hall := List.rdropWhile_eq_nil_iff.mp hnil w (List.mem_cons_self ..)
    rw [hw] at hall
    cases hall
  refine ⟨ws.takeWhile isFeed, (w :: more).rdropWhile isFeed, (w :: more).rtakeWhile isFeed, ?_, ?_, ?_,
    ?_, ?_⟩
  · rw [List.rdropWhile_append_rtakeWhile, ← hdrop, List.takeWhile_append_dropWhile]
  · exact fun v hv => hfeed (List.mem_takeWhile_imp hv)
  · exact fun v hv => hfeed (List.mem_rtakeWhile_imp hv)
  · obtain ⟨v, vs, hv⟩ := List.exists_cons_of_ne_nil hmid
    have hpre := List.rdropWhile_prefix isFeed (l := w :: more)
    rw [hv, List.cons_prefix_cons] at hpre
    exact ⟨v, vs, hv, hpre.1 ▸ of_decide_eq_false hw⟩
  · have hlast := List.rdropWhile_last_not isFeed _ hmid
    exact ⟨_, _, (List.dropLast_append_getLast hmid).symm, fun hk => hlast (decide_eq_true hk)⟩

section Format

variable {ws : List Lexeme} {tail : Text}

/-- Lexemes with a line feed behind them, taken apart at the line feeds at both ends. -/
theorem exists_code (h : AllFit ws tail) (hcode : ∃ w ∈ ws, w.kind ≠ .newline) :
    ∃ above mid below gap, ws ++ [lineFeed tail] = above ++ (mid ++ lineFeed gap :: below) ∧
      (∃ below', ws = above ++ (mid ++ below') ∧ ∀ w ∈ below', w.kind = .newline) ∧
      (∀ w ∈ above, w.kind = .newline) ∧ (∀ w ∈ below, w.kind = .newline) ∧
      (∃ w more, mid = w :: more ∧ w.kind ≠ .newline) ∧
      ∃ w front, mid = front ++ [w] ∧ w.kind ≠ .newline := by
  obtain ⟨above, mid, below, rfl, habove, hbelow, hhead, hlast⟩ := exists_middle hcode
  cases below with
  | nil =>
    exact ⟨above, mid, [], tail, by simp, ⟨[], rfl, List.forall_mem_nil _⟩, habove,
      List.forall_mem_nil _, hhead, hlast⟩
  | cons w below =>
    obtain ⟨hw, hmore⟩ := List.forall_mem_cons.mp hbelow
    have hfeed : w = lineFeed w.gap := by
      have htext := (breaks_of_allFit h w (by simp)).2 hw
      cases w
      cases hw
      cases htext
      rfl
    refine ⟨above, mid, below ++ [lineFeed tail], w.gap, ?_, ⟨w :: below, rfl, hbelow⟩, habove, ?_,
      hhead, hlast⟩
    · rw [← hfeed]
      simp
    · exact List.forall_mem_append.mpr ⟨hmore, List.forall_mem_singleton.mpr rfl⟩

end Format

/-- A text that has tokens keeps them in canonical layout: the same tokens but for white space at the
end of their first lines, with as many line feeds between neighbours. Behind the last one stands one
line feed. -/
theorem format_sameTokens {text : Text} {stream : TokenStream} (h : TokenStream.ofText text = .ok stream) :
    ∃ stream', TokenStream.ofText (format text) = .ok stream' ∧
      SameTokens stream.tokens stream'.tokens ∧
      (stream'.tokens = [] ∨ ∃ front last feed, stream'.tokens = front ++ [last, feed] ∧
        last.kind ≠ .newline ∧ feed.kind = .newline) := by
  obtain ⟨ws, tail, rfl, hfit, htail, rfl⟩ := exists_lexemes h
  by_cases hcode : ∃ w ∈ ws, w.kind ≠ .newline
  · obtain ⟨above, mid, below, gap, hsplit, ⟨below', rfl, hbelow'⟩, habove, hbelow, hhead, hlast⟩ :=
      exists_code hfit hcode
    obtain ⟨mid', gap', htext, hrespaced, -, hkept⟩ :=
      format_code hfit htail hsplit habove hbelow hhead hlast
    have hfit' : AllFit (mid' ++ [lineFeed gap']) [] := by
      have hwhole := allFit_lineFeed hfit htail
      rw [hsplit] at hwhole
      have hbehind : AllFit ((mid ++ [lineFeed gap]) ++ below) [] := by
        simpa using (allFit_append.mp hwhole).2
      exact allFit_respaced hrespaced ⟨meets_of_stops _ stops_nil, fun _ => endsLine_nil⟩
        (allFit_append.mp hbehind).1
    obtain ⟨last, front, rfl, hk⟩ := hlast
    obtain ⟨front', ends, rfl, hfront, hend⟩ := forall₂_append_left hkept
    cases hend with
    | @cons _ last' _ _ hlast hnil =>
      cases hnil
      rw [htext]
      refine ⟨_, readAll_textOf hfit' nofun Position.start, ?_, .inr ?_⟩
      · rw [tokensAt_append, tokensAt_append _ (front ++ [last]), tokensAt_append _ (front' ++ [last'])]
        exact sameTokens_of_middle (tokensAt_kind (q := (· = .newline)) habove)
          (tokensAt_kind (q := (· = .newline)) hbelow')
          (List.forall_mem_singleton.mpr rfl) (sameSource_tokensAt hkept _ _)
      · rw [tokensAt_append, tokensAt_append, List.append_assoc]
        exact ⟨_, _, _, rfl, by rwa [← hlast.kind] at hk, rfl⟩
  · have hk : ∀ w ∈ ws, w.kind = .newline := by
      intro w hw
      by_contra hne
      exact hcode ⟨w, hw, hne⟩
    rw [format_blank hfit htail hk]
    have hnewlines : ∀ t ∈ tokensAt Position.start ws, t.kind = .newline :=
      tokensAt_kind (q := (· = .newline)) hk
    refine ⟨⟨[], Position.start⟩, by rw [TokenStream.ofText, readAll], ?_, .inl rfl⟩
    have hsame := sameTokens_of_middle hnewlines (List.forall_mem_nil _) (List.forall_mem_nil _) .nil
    rwa [List.append_nil, List.append_nil] at hsame

/-- A heredoc, a string and a comment over several lines, between empty lines. -/
theorem format_sameTokens_heredoc :
    let text := "\n\na=<<-E  \n  x  \n E \nb = \"$\x7b  \n1\x7d\" # c  \n/* p  \n  q  */ c=\x7b\n\n\x7d".toList
    ∃ stream, TokenStream.ofText text = .ok stream ∧ stream.tokens.length = 18 ∧
      ∃ stream', TokenStream.ofText (format text) = .ok stream' ∧
        SameTokens stream.tokens stream'.tokens ∧
        (stream'.tokens = [] ∨ ∃ front last feed, stream'.tokens = front ++ [last, feed] ∧
          last.kind ≠ .newline ∧ feed.kind = .newline) := by
  intro text
  have hlength : (TokenStream.ofText text).toOption.map (fun s => s.tokens.length) = some 18 := by
    decide +kernel
  cases h : TokenStream.ofText text with
  | error e =>
    rw [h] at hlength
    cases hlength
  | ok stream =>
    rw [h] at hlength
    exact ⟨stream, rfl, Option.some.inj hlength, format_sameTokens h⟩

end Layout

end HclTidy
