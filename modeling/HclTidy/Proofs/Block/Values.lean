import HclTidy.Proofs.Block.Sound
import HclTidy.Proofs.Expr.Sources

/-!
# Values of attributes

The values of attributes, of nested blocks too, are expressions that are read off the text; so each
of them, and each expression that it is made of, has a piece of the text for its source, and the
source reads as the expression.
-/

set_option autoImplicit false

namespace HclTidy

open Token

namespace Body

/-- The value of an attribute of the body or of a block nested in it. -/
inductive HasValue : Body → Expr → Prop
  | own {b : Body} {a : Attribute} : a ∈ b.attributes → HasValue b a.value
  | nested {b : Body} {n : NestedBlock} {e : Expr} : n ∈ b.blocks → HasValue n.body e → HasValue b e

variable {b : Body} {e : Expr}

theorem not_hasValue_empty : ¬ empty.HasValue e := by
  rintro (h | ⟨h, -⟩) <;> cases h

theorem hasValue_addAttribute {a : Attribute} (h : (b.addAttribute a).HasValue e) :
    e = a.value ∨ b.HasValue e := by
  cases h with
  | own ha =>
    obtain rfl | ha := List.mem_cons.mp ha
    · exact .inl rfl
    · exact .inr (.own ha)
  | nested hn he => exact .inr (.nested hn he)

theorem hasValue_addBlock {n : NestedBlock} (h : (b.addBlock n).HasValue e) :
    n.body.HasValue e ∨ b.HasValue e := by
  cases h with
  | own ha => exact .inr (.own ha)
  | nested hn he =>
    obtain rfl | hn := List.mem_cons.mp hn
    · exact .inl he
    · exact .inr (.nested hn he)

/-- The values of a body are read off the text. -/
theorem isRead_of_read {source : Source} {ws : List Lexeme} : ∀ {c : Cursor},
    c.rest <:+ codeAt Position.start ws → ∀ {s : Tail Body c}, read source c = .ok s →
    s.value.HasValue e → Expr.IsRead source ws e := by
  intro c
  induction hn : c.rest.length using Nat.strongRecOn generalizing c with
  | ind n ih =>
    subst hn
    intro hc s hs he
    have hskip := c.view_suffix .ignored
    have hshort := c.skipNewlines_length_le
    rw [read] at hs
    split at hs
    · cases hs
      exact absurd he not_hasValue_empty
    · split at hs
      · cases hs
      · obtain ⟨name, hname, hs⟩ := Reading.bind_ok hs
        have h₁ := name.shorter
        have hnameRest := name.suffix.trans (hskip.trans hc)
        dsimp only at hs
        split at hs
        · next equal hequal =>
          obtain ⟨value, hvalue, hs⟩ := Reading.bind_ok hs
          obtain ⟨⟨⟩, -, hs⟩ := Reading.bind_ok hs
          obtain ⟨more, hmore, hs⟩ := Reading.bind_ok hs
          cases hs
          have h₂ := (value.suffix.trans equal.suffix).length_le
          have hequalRest := equal.suffix.trans hnameRest
          obtain rfl | he := hasValue_addAttribute he
          · exact ⟨.significant, _, value, hequalRest, hvalue, rfl⟩
          · exact ih _ (by omega) rfl (value.suffix.trans hequalRest) hmore he
        · obtain ⟨labels, -, hs⟩ := Reading.bind_ok hs
          obtain ⟨opening, -, hs⟩ := Reading.bind_ok hs
          obtain ⟨inner, hinner, hs⟩ := Reading.bind_ok hs
          obtain ⟨closing, -, hs⟩ := Reading.bind_ok hs
          obtain ⟨⟨⟩, -, hs⟩ := Reading.bind_ok hs
          obtain ⟨more, hmore, hs⟩ := Reading.bind_ok hs
          cases hs
          have hopeningRest := opening.suffix.trans labels.suffix
          have hclosingRest := closing.suffix.trans (inner.suffix.trans hopeningRest)
          have h₂ := hopeningRest.length_le
          have h₃ := hclosingRest.length_le
          obtain he | he := hasValue_addBlock he
          · exact ih _ (by omega) rfl (hopeningRest.trans hnameRest) hinner he
          · exact ih _ (by omega) rfl (hclosingRest.trans hnameRest) hmore he

end Body

namespace ParsedFile

/-- What a value of a block is made of is read off the text. -/
theorem isRead_of_ofText {file text : Text} {keepSource : Bool} {parsed : ParsedFile}
    {events : List ParseEvent} (h : ofText file keepSource text = .ok (parsed, events)) {b : Block}
    (hb : b ∈ parsed.blocks) {value e : Expr} (hvalue : b.body.HasValue value)
    (he : value.Reaches e) :
    ∃ (source : Source) (ws : List Lexeme) (tail : Text), source.text = text ∧ text = textOf ws tail ∧
      AllFit ws tail ∧ Expr.IsRead source ws e := by
  obtain ⟨stream, hstream, hreads⟩ := reads_of_ofText h
  obtain ⟨ws, tail, htext, hfit, -, rfl⟩ := exists_lexemes hstream
  obtain ⟨d, opening, body, closing, hd, -, hbody, -, hvalueOf, -⟩ :=
    hreads.exists_braces (List.suffix_refl _) hb
  rw [hvalueOf] at hvalue
  have hread := Body.isRead_of_read (opening.suffix.trans hd) hbody hvalue
  exact ⟨_, ws, tail, rfl, htext, hfit, hread.reaches htext he⟩

/-- Sources of expressions are faithful: the value of an attribute, and every expression that it is
made of, has a piece of the text for its source, and the source reads as the expression. -/
theorem ofText_source_of_reaches {file text : Text} {keepSource : Bool} {parsed : ParsedFile}
    {events : List ParseEvent} (h : ofText file keepSource text = .ok (parsed, events)) {b : Block}
    (hb : b ∈ parsed.blocks) {value e : Expr} (hvalue : b.body.HasValue value)
    (he : value.Reaches e) :
    e.source <:+: text ∧ ∃ events', Expr.ofText e.source = .ok (e, events') := by
  obtain ⟨source, ws, tail, rfl, htext, hfit, hread⟩ := isRead_of_ofText h hb hvalue he
  exact hread.ofText_source htext hfit

/-- An argument of a call in a tuple that is the value of an object item. -/
theorem ofText_source_of_reaches_argument :
    let text := "locals \x7b\n a = \x7b (k) = [f(1,\n !x), 2] \x7d\n\x7d\n".toList
    ∃ parsed events, ofText [] false text = .ok (parsed, events) ∧ ∃ b ∈ parsed.blocks, ∃ value e,
      b.body.HasValue value ∧ value.Reaches e ∧ e.source = ['!', 'x'] ∧ e.source <:+: text ∧
      ∃ events', Expr.ofText e.source = .ok (e, events') := by
  intro text
  have hread : (ofText [] false text).toOption.bind (fun r => r.1.blocks.head?.bind fun b =>
      b.body.attributes.head?.bind fun a => a.value.children[1]?.bind fun items =>
      items.children.head?.bind fun call => call.children[1]?.map Expr.source) =
      some ['!', 'x'] := by
    decide +kernel
  cases h : ofText [] false text with
  | error e =>
    rw [h] at hread
    cases hread
  | ok result =>
    obtain ⟨parsed, events⟩ := result
    simp only [h, Except.toOption, Option.bind_some, Option.bind_eq_some_iff,
      Option.map_eq_some_iff] at hread
    obtain ⟨b, hb, a, ha, items, hitems, call, hcall, e, he, hsource⟩ := hread
    have hmem := List.mem_of_mem_head? hb
    have hvalue : b.body.HasValue a.value := .own (List.mem_of_mem_head? ha)
    have hreaches : a.value.Reaches e := .child (List.mem_of_getElem? hitems)
      (.child (List.mem_of_mem_head? hcall) (.child (List.mem_of_getElem? he) (.refl e)))
    exact ⟨parsed, events, rfl, b, hmem, a.value, e, hvalue, hreaches, hsource,
      ofText_source_of_reaches h hmem hvalue hreaches⟩

end ParsedFile

end HclTidy
