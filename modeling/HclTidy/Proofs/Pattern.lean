import Mathlib
import HclTidy.Pattern

/-!
# What a pattern matches

A text matches a pattern when it comes from the pattern by putting some text in the place of each
star. The walk, which goes back to the last star only, finds every such text: what an earlier star
could take besides, the last one can take too.
-/

set_option autoImplicit false

namespace HclTidy.Pattern

/-- The text comes from the pattern by putting some text in the place of each star. -/
inductive Matches : Text → Text → Prop
  | nil : Matches [] []
  | char {c : Char} {pattern text : Text} : c ≠ '*' → Matches pattern text →
      Matches (c :: pattern) (c :: text)
  | star {pattern text : Text} (taken : Text) : Matches pattern text →
      Matches ('*' :: pattern) (taken ++ text)

variable {pattern text piece : Text} {c p : Char}

theorem matches_nil_right : Matches pattern [] ↔ pattern.all (· = '*') = true := by
  induction pattern with
  | nil => exact ⟨fun _ => rfl, fun _ => .nil⟩
  | cons p pattern ih =>
    rw [List.all_cons, Bool.and_eq_true, decide_eq_true_iff, ← ih]
    constructor
    · generalize htext : ([] : Text) = text
      rintro (_ | _ | @⟨_, text, taken, h⟩)
      · cases htext
      · obtain ⟨rfl, rfl⟩ := List.append_eq_nil_iff.mp htext.symm
        exact ⟨rfl, h⟩
    · rintro ⟨rfl, h⟩
      exact .star [] h

theorem matches_cons_char (hp : p ≠ '*') :
    Matches (p :: pattern) text ↔ ∃ rest, text = p :: rest ∧ Matches pattern rest := by
  constructor
  · rintro (_ | ⟨_, h⟩ | _)
    · exact ⟨_, rfl, h⟩
    · exact absurd rfl hp
  · rintro ⟨rest, rfl, h⟩
    exact .char hp h

theorem matches_cons_star :
    Matches ('*' :: pattern) text ↔ ∃ taken rest, text = taken ++ rest ∧ Matches pattern rest := by
  constructor
  · rintro (_ | ⟨hstar, _⟩ | ⟨taken, h⟩)
    · exact absurd rfl hstar
    · exact ⟨taken, _, rfl, h⟩
  · rintro ⟨taken, rest, rfl, h⟩
    exact .star taken h

/-- A piece of a pattern without stars stands for itself. -/
theorem matches_append (hpiece : '*' ∉ piece) :
    Matches (piece ++ pattern) text ↔ ∃ rest, text = piece ++ rest ∧ Matches pattern rest := by
  induction piece generalizing text with
  | nil => simp
  | cons p piece ih =>
    obtain ⟨hp, hpiece⟩ := List.ne_and_not_mem_of_not_mem_cons hpiece
    rw [List.cons_append, matches_cons_char (Ne.symm hp)]
    constructor
    · rintro ⟨behind, rfl, h⟩
      obtain ⟨rest, rfl, hrest⟩ := (ih hpiece).mp h
      exact ⟨rest, rfl, hrest⟩
    · rintro ⟨rest, rfl, h⟩
      exact ⟨piece ++ rest, rfl, (ih hpiece).mpr ⟨rest, rfl, h⟩⟩

/-! ## The last star -/

/-- The text matches when the star takes at least one more character. -/
def Star.Later (s : Star) : Prop :=
  ∃ taken rest, taken ≠ [] ∧ s.text = taken ++ rest ∧ Matches s.pattern rest

/-- Since the star, a piece of the pattern without stars has been found in the text. -/
def Star.Held (s : Star) (pattern text : Text) : Prop :=
  ∃ piece, '*' ∉ piece ∧ s.pattern = piece ++ pattern ∧ s.text = piece ++ text

theorem Star.held_self (s : Star) : s.Held s.pattern s.text := ⟨[], List.not_mem_nil, rfl, rfl⟩

theorem Star.Held.tail {s : Star} (h : s.Held (c :: pattern) (c :: text)) (hc : c ≠ '*') :
    s.Held pattern text := by
  obtain ⟨piece, hpiece, hpattern, htext⟩ := h
  refine ⟨piece ++ [c], ?_, ?_, ?_⟩
  · rw [List.mem_append, List.mem_singleton, not_or]
    exact ⟨hpiece, Ne.symm hc⟩
  · rw [hpattern, List.append_assoc, List.singleton_append]
  · rw [htext, List.append_assoc, List.singleton_append]

/-- One character more that the star takes may be the last one more. -/
theorem Star.later_cons : Later ⟨pattern, c :: text⟩ ↔ Matches pattern text ∨ Later ⟨pattern, text⟩ := by
  constructor
  · rintro ⟨taken, rest, hne, heq, h⟩
    cases taken with
    | nil => exact absurd rfl hne
    | cons d taken =>
      obtain ⟨-, rfl⟩ := List.cons.inj heq
      cases taken with
      | nil => exact .inl h
      | cons d taken => exact .inr ⟨d :: taken, rest, List.cons_ne_nil _ _, rfl, h⟩
  · rintro (h | ⟨taken, rest, -, heq, h⟩)
    · exact ⟨[c], text, List.cons_ne_nil _ _, rfl, h⟩
    · exact ⟨c :: taken, rest, List.cons_ne_nil _ _, congrArg (c :: ·) heq, h⟩

theorem Star.matches_or_later : Matches pattern text ∨ Later ⟨pattern, text⟩ ↔
    Matches ('*' :: pattern) text := by
  rw [matches_cons_star]
  constructor
  · rintro (h | ⟨taken, rest, -, heq, h⟩)
    · exact ⟨[], text, rfl, h⟩
    · exact ⟨taken, rest, heq, h⟩
  · rintro ⟨taken, rest, heq, h⟩
    by_cases hne : taken = []
    · rw [hne, List.nil_append] at heq
      exact .inl (heq ▸ h)
    · exact .inr ⟨taken, rest, hne, heq, h⟩

theorem Star.not_later_nil : ¬ Later ⟨pattern, []⟩ := by
  rintro ⟨taken, rest, hne, heq, -⟩
  exact hne (List.append_eq_nil_iff.mp heq.symm).1

/-- Behind the text, the star has nothing left to take: the piece found since does not fit again. -/
theorem Star.Held.not_later {s : Star} (h : s.Held pattern []) : ¬ s.Later := by
  obtain ⟨piece, hpiece, hpattern, htext⟩ := h
  rintro ⟨taken, rest, hne, heq, hmatches⟩
  rw [hpattern, matches_append hpiece] at hmatches
  obtain ⟨rest, rfl, -⟩ := hmatches
  have hlength := congrArg List.length (htext.symm.trans heq)
  have htaken := List.length_pos_iff.mpr hne
  simp only [List.append_nil, List.length_append] at hlength
  omega

/-- What the star could take besides, the star that comes next takes in its place. -/
theorem Star.Held.matches_of_later {s : Star} (h : s.Held ('*' :: pattern) text) (hlater : s.Later) :
    Matches ('*' :: pattern) text := by
  obtain ⟨piece, hpiece, hpattern, htext⟩ := h
  obtain ⟨taken, rest, -, heq, hlater⟩ := hlater
  rw [hpattern, matches_append hpiece] at hlater
  obtain ⟨rest, rfl, hstar⟩ := hlater
  obtain ⟨skipped, behind, rfl, hbehind⟩ := matches_cons_star.mp hstar
  have hsuffix : behind <:+ text := by
    have htail : text <:+ s.text := htext ▸ List.suffix_append _ _
    have hbehindTail : behind <:+ s.text := by
      rw [heq]
      exact ((List.suffix_append skipped behind).trans (List.suffix_append piece _)).trans
        (List.suffix_append taken _)
    refine List.suffix_of_suffix_length_le hbehindTail htail ?_
    have hlength := congrArg List.length (htext.symm.trans heq)
    simp only [List.length_append] at hlength
    omega
  obtain ⟨before, rfl⟩ := hsuffix
  exact .star before hbehind

theorem not_matches_cons (hstar : pattern.head? ≠ some '*') (hc : pattern.head? ≠ some c) :
    ¬ Matches pattern (c :: text) := by
  generalize htext : c :: text = whole
  rintro (_ | _ | _)
  · cases htext
  · cases htext
    exact hc rfl
  · exact hstar rfl

/-- The walk succeeds when the rest of the text matches the rest of the pattern, or the whole does
with a last star that takes more. -/
theorem walk_iff (star : Option Star) (pattern text : Text)
    (h : ∀ s ∈ star, s.Held pattern text) :
    walk star pattern text = true ↔ Matches pattern text ∨ ∃ s ∈ star, s.Later := by
  fun_induction walk star pattern text with
  | case1 star pattern =>
    have hlater : ¬ ∃ s ∈ star, s.Later := fun ⟨s, hs, hlater⟩ => (h s hs).not_later hlater
    rw [matches_nil_right, or_iff_left hlater]
  | case2 star pattern c text hstar ih =>
    obtain ⟨pattern, rfl⟩ := List.head?_eq_some_iff.mp hstar
    have hnow : Matches pattern (c :: text) ∨ Star.Later ⟨pattern, c :: text⟩ ↔
        Matches ('*' :: pattern) (c :: text) := Star.matches_or_later
    rw [ih (by rintro _ ⟨⟩; exact Star.held_self _)]
    simp only [Option.mem_some_iff, exists_eq_left', List.tail_cons]
    rw [hnow]
    refine ⟨.inl, fun hor => hor.elim id ?_⟩
    rintro ⟨s, hs, hlater⟩
    exact (h s hs).matches_of_later hlater
  | case3 star pattern c text hstar hc ih =>
    obtain ⟨pattern, rfl⟩ := List.head?_eq_some_iff.mp hc
    have hc' : c ≠ '*' := fun heq => hstar (congrArg some heq)
    rw [List.tail_cons] at ih ⊢
    rw [ih fun s hs => (h s hs).tail hc', matches_cons_char hc']
    simp
  | case4 pattern c text hstar hc behind d rest ih =>
    rw [ih (by rintro _ ⟨⟩; exact Star.held_self _)]
    simp only [Option.mem_some_iff, exists_eq_left']
    rw [Star.later_cons, or_iff_right (not_matches_cons hstar hc)]
  | case5 star pattern c text hstar hc hnone =>
    refine iff_of_false Bool.false_ne_true ?_
    rintro (hmatches | ⟨s, hs, hlater⟩)
    · exact not_matches_cons hstar hc hmatches
    · obtain ⟨behind, rest⟩ := s
      cases rest with
      | nil => exact Star.not_later_nil hlater
      | cons d rest => exact hnone behind d rest hs

/-- A text matches a pattern exactly when it comes from it by putting some text in the place of each
star, every other character standing for itself. -/
theorem isMatch_iff_matches (pattern text : Text) :
    isMatch pattern text = true ↔ Matches pattern text := by
  unfold isMatch
  split
  · rw [walk_iff none pattern text nofun]
    simp
  · next hstar =>
    have hmem : '*' ∉ pattern := by simpa using hstar
    have hwhole : Matches pattern text ↔ ∃ rest, text = pattern ++ rest ∧ Matches [] rest := by
      conv_lhs => rw [← List.append_nil pattern]
      exact matches_append hmem
    rw [decide_eq_true_iff, hwhole]
    constructor
    · rintro rfl
      exact ⟨[], (List.append_nil _).symm, .nil⟩
    · rintro ⟨rest, rfl, hrest⟩
      cases hrest
      exact (List.append_nil _).symm

end HclTidy.Pattern
