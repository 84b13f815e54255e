import HclTidy.Proofs.Template.Segments
import HclTidy.Proofs.Token.Tiling

/-!
# Quoted strings, in place and alone

The parts of a quoted template depend on the template only: neither on where it stands nor on what
stands behind it. So the parts read from a string token by itself are those that the lexer passed
over when it looked for the end of the token.
-/

set_option autoImplicit false

namespace HclTidy

open Template

namespace Token

theorem scans_of_fits {text after : Text} (h : Fits .string text after) :
    ∃ used literal, text = '"' :: used ∧ Scans [] used literal := by
  cases h with
  | string hs => exact ⟨_, _, rfl, hs⟩
  | symbol _ _ hs =>
    have hkinds : Kind.string ∉ symbolKinds := by decide
    exact absurd (symbol?_kind hs) hkinds

theorem StandsIn.drop {text : Text} {t : Token} (h : t.StandsIn text) :
    text.drop t.start.offset = t.text ++ text.drop t.stop := by
  obtain ⟨before, after, rfl, hstart⟩ := h
  have hoffset : t.start.offset = before.length := by rw [hstart, start_after_offset]
  rw [stop, hoffset, ← List.drop_drop, List.drop_left, List.drop_left]

end Token

open Token

/-- A quoted template has the parts that it has in its text when it is scanned from the front of
any text that begins with it. The parts of a string token are those found in place, so that the
token is never taken for a single literal. -/
theorem Template.scanQuoted_elsewhere :
    (∀ (text : Text) (start : Nat) (parts : List Part) (after : Text),
      scanQuoted start (text.drop start) = .ok (parts, after) →
        ∃ stop, start < stop ∧ stop ≤ text.length ∧ after = text.drop stop ∧
          ∀ suffix, scanQuoted 0 (text.slice start stop ++ suffix) = .ok (parts, suffix)) ∧
    ∀ (text : Text) (stream : TokenStream), TokenStream.ofText text = .ok stream →
      ∀ t ∈ stream.tokens, t.kind = .string →
        ∃ parts, scanQuoted t.start.offset (text.drop t.start.offset) = .ok (parts, text.drop t.stop) ∧
          scanQuoted 0 t.text = .ok (parts, []) ∧ partsOf true t.text = parts := by
  refine ⟨fun text start parts after h => ?_, fun text stream h t ht hkind => ?_⟩
  · obtain ⟨used, -, htext, -, hmoved, -⟩ := scanQuoted_moved h
    obtain ⟨hle, hafter, hslice⟩ := Text.slice_of_drop (List.cons_ne_nil '"' used) htext
    refine ⟨start + ('"' :: used).length, ?_, hle, hafter, fun suffix => ?_⟩
    · exact Nat.lt_add_of_pos_right (List.length_pos_iff.mpr (List.cons_ne_nil '"' used))
    rw [hslice]
    exact hmoved 0 suffix
  · obtain ⟨ws, tail, htext, hfit, -, rfl⟩ := exists_lexemes h
    have hstands : t.StandsIn text := htext ▸ standsIn_of_mem_tokensAt [] tail ht
    obtain ⟨rest, hfits⟩ := fits_of_mem_tokensAt hfit t ht
    rw [hkind] at hfits
    obtain ⟨used, literal, hused, hs⟩ := scans_of_fits hfits
    obtain ⟨parts, hmoved, -, -⟩ := scanQuoted_of_scans hs
    have halone : scanQuoted 0 t.text = .ok (parts, []) := by
      rw [hused, ← List.append_nil ('"' :: used)]
      exact hmoved 0 []
    refine ⟨parts, ?_, halone, partsOf_of_scanQuoted halone⟩
    rw [hstands.drop, hused]
    exact hmoved _ _

/-- A string over two lines that ends in half a marker, with a brace directly behind it. -/
theorem Template.scanQuoted_elsewhere_multiline :
    let text : Text := "b \"$\x7b~f(\n\"\x7d\")\x7d%%\x7b$\"\x7bc=1\x7d".toList
    (∃ parts after, scanQuoted 2 (text.drop 2) = .ok (parts, after) ∧
      parts = [.interpolation false "~f(\n\"\x7d\")".toList, .literal "%%\x7b$".toList] ∧
      ∃ stop, 2 < stop ∧ stop ≤ text.length ∧ after = text.drop stop ∧
        ∀ suffix, scanQuoted 0 (text.slice 2 stop ++ suffix) = .ok (parts, suffix)) ∧
    ∃ stream t, TokenStream.ofText text = .ok stream ∧ t ∈ stream.tokens ∧ t.kind = .string ∧
      ∃ parts, scanQuoted t.start.offset (text.drop t.start.offset) = .ok (parts, text.drop t.stop) ∧
        scanQuoted 0 t.text = .ok (parts, []) ∧ partsOf true t.text = parts := by
  intro text
  have hscan : scanQuoted 2 (text.drop 2) = .ok ([.interpolation false "~f(\n\"\x7d\")".toList,
      .literal "%%\x7b$".toList], "\x7bc=1\x7d".toList) := by
    decide +kernel
  have hstring : (TokenStream.ofText text).toOption.map
      (fun s => s.tokens[1]?.map fun t => t.kind) = some (some .string) := by
    decide +kernel
  refine ⟨⟨_, _, hscan, rfl, scanQuoted_elsewhere.1 text 2 _ _ hscan⟩, ?_⟩
  cases h : TokenStream.ofText text with
  | error e =>
    rw [h] at hstring
    cases hstring
  | ok stream =>
    rw [h] at hstring
    obtain ⟨t, ht, hkind⟩ := Option.map_eq_some_iff.mp (Option.some.inj hstring)
    have hmem := List.mem_of_getElem? ht
    exact ⟨stream, t, rfl, hmem, hkind, scanQuoted_elsewhere.2 text stream h t hmem hkind⟩

end HclTidy
