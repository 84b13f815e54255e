import HclTidy.Block.Parser
import HclTidy.Proofs.Expr.Spaced
import HclTidy.Proofs.Token.Places

/-!
# Files with line breaks between brackets

A line break between two tokens of a value, inside its brackets, leaves a file the blocks that it has:
their types and labels, the names of their attributes and the shape of their values.
-/

set_option autoImplicit false

namespace HclTidy

open Spacing

/-! ## Bodies up to white space -/

def Attribute.squeezed (a : Attribute) : Attribute := ⟨a.name, a.value.squeezed⟩

mutual

def NestedBlock.squeezed : NestedBlock → NestedBlock
  | ⟨type, labels, attributes, blocks⟩ =>
    ⟨type, labels, attributes.map Attribute.squeezed, NestedBlock.allSqueezed blocks⟩

def NestedBlock.allSqueezed : List NestedBlock → List NestedBlock
  | [] => []
  | block :: rest => block.squeezed :: NestedBlock.allSqueezed rest

end

/-- The body with the sources of its values without their white space. -/
def Body.squeezed (b : Body) : Body :=
  ⟨b.attributes.map Attribute.squeezed, NestedBlock.allSqueezed b.blocks⟩

/-- Two blocks of one type, with the same labels and bodies of the same shape. -/
structure Block.SameShape (b b' : Block) : Prop where
  type : b'.type = b.type
  labels : b'.labels = b.labels
  body : b'.body.squeezed = b.body.squeezed

variable {g : Spacing} {c c' : Cursor}

/-! ## Outside values -/

theorem Nesting.next_outside {t : Token} {kind : Token.Kind} (hk : kind ≠ .equal) (ht : t.kind = kind) :
    outside.next t = outside := if_neg (by rwa [ht])

theorem Nesting.next_equal {t : Token} (ht : t.kind = .equal) : outside.next t = inside 0 := if_pos ht

namespace Spacing

theorem Next.spaced {p : Nesting} {ts ts' : List Token} (h : g.Next p ts ts') : g.Spaced p ts ts' := by
  cases h with
  | nil => exact .nil
  | cons hsame hbehind hrest => exact .cons hsame hbehind hrest

theorem skipNewlines_at (h : g.At .outside c c') : g.At .outside c.skipNewlines c'.skipNewlines :=
  ⟨(next_ignored h.rest (by decide)).spaced, h.stop⟩

theorem expect_outside {kind : Token.Kind} (hk : kind ≠ .equal) (h : g.At .outside c c') :
    Follows (g.TakenTo .outside kind) (c.expect g.source .significant kind)
      (c'.expect g.source' .significant kind) :=
  expect_follows (fun _ => Nesting.next_outside hk) (Nesting.allows_outside _) h.rest

/-- What ends an item ends the value in it. -/
theorem next_endOfItem {p : Nesting} {t : Token} (hp : p.Allows .significant)
    (ht : t.kind = .newline ∨ t.kind = .rbrace) : p.next t = .outside := by
  match p with
  | .outside => exact if_neg (by obtain ht | ht := ht <;> rw [ht] <;> decide)
  | .inside 0 => obtain ht | ht := ht <;> simp [Nesting.next, Token.opens, Token.closes, ht]

theorem endOfItem_follows {p : Nesting} (hp : p.Allows .significant) (h : g.At p c c') :
    Follows (fun _ _ => g.At .outside c c') (c.endOfItem g.source) (c'.endOfItem g.source') := by
  have hnext := next_view hp h.rest
  unfold Cursor.endOfItem
  dsimp only
  rw [(peek_same hp h.rest).1]
  split
  · next hend =>
    refine follows_ok ⟨?_, h.stop⟩
    rw [Cursor.peek] at hend
    change g.Spaced .outside (c.view .significant) (c'.view .significant)
    generalize c.view .significant = ts at hnext hend
    generalize c'.view .significant = ts' at hnext
    cases hnext with
    | nil => exact .nil
    | @cons t t' us us' hsame hbehind hrest =>
      simp only [List.headD_cons, Bool.or_eq_true] at hend
      have hk : t.kind = .newline ∨ t.kind = .rbrace := by
        obtain (hk | hk) | hk := hend
        · exact .inl (of_decide_eq_true hk)
        · exact absurd (of_decide_eq_true hk) hsame.inText
        · exact .inr (of_decide_eq_true hk)
      rw [next_endOfItem hp hk] at hrest
      refine .cons hsame hbehind ?_
      rwa [next_endOfItem (p := .outside) trivial hk]
  · exact follows_error _ _

end Spacing

namespace Body

/-! ## Labels and bodies -/

theorem labelText_follows {t t' : Token} (h : g.Same t t') :
    Follows (fun label label' => label' = label) (labelText c t) (labelText c' t') := by
  rw [labelText, labelText, decodeLabel, decodeLabel, h.kind, h.text]
  split
  · exact follows_ok rfl
  · split
    · split
      · exact follows_ok rfl
      · exact follows_error _ _
    · exact follows_error _ _

theorem isLabel_same (t t' : Token) (hk : t'.kind = t.kind) (_ : t'.text = t.text) :
    (t'.kind = .string || t'.kind = .ident) = (t.kind = .string || t.kind = .ident : Bool) := by
  rw [hk]

theorem next_label {t : Token} (h : (t.kind = .string || t.kind = .ident : Bool) = true) :
    Nesting.outside.next t = .outside := by
  rw [Bool.or_eq_true, decide_eq_true_eq, decide_eq_true_eq] at h
  obtain h | h := h
  · exact Nesting.next_outside (by decide) h
  · exact Nesting.next_outside (by decide) h

theorem readLabels_follows {c c' : Cursor} (h : g.At .outside c c') :
    Follows (TailSpaced g .outside fun labels labels' => labels' = labels) (readLabels g.source c)
      (readLabels g.source' c') := by
  have hfirst := takeIf?_rel isLabel_same (Nesting.allows_outside .significant) h.rest
  rw [readLabels, readLabels]
  generalize c.takeIf? .significant _ = found at hfirst
  generalize c'.takeIf? .significant _ = found' at hfirst
  cases hfirst with
  | none => exact follows_ok ⟨h, rfl⟩
  | @some first first' hfirst =>
    obtain ⟨hfirst, hlabel⟩ := hfirst
    have h₁ := first.shorter
    have hnext := next_label hlabel ▸ hfirst.next
    refine (labelText_follows hfirst.same).bind fun label label' hlabel => ?_
    refine (readLabels_follows hnext).bind fun more more' hmore => ?_
    refine follows_ok ⟨hmore.next, ?_⟩
    rw [hlabel, hmore.value]
termination_by c.rest.length

theorem squeezed_addAttribute (a : Attribute) (b : Body) :
    (b.addAttribute a).squeezed = b.squeezed.addAttribute a.squeezed := rfl

/-- A nested block with a body of the same shape. -/
theorem squeezed_nested (type : Text) (labels : List Text) {b b' : Body} (h : b'.squeezed = b.squeezed) :
    NestedBlock.squeezed ⟨type, labels, b'.attributes, b'.blocks⟩ =
      NestedBlock.squeezed ⟨type, labels, b.attributes, b.blocks⟩ := by
  rw [squeezed, squeezed, Body.mk.injEq] at h
  rw [NestedBlock.squeezed, NestedBlock.squeezed, h.1, h.2]

theorem squeezed_addBlock (n : NestedBlock) (b : Body) :
    (b.addBlock n).squeezed = b.squeezed.addBlock n.squeezed := rfl

theorem read_follows {c c' : Cursor} (h : g.At .outside c c') :
    Follows (TailSpaced g .outside fun body body' => body'.squeezed = body.squeezed)
      (read g.source c) (read g.source' c') := by
  have hitems := skipNewlines_at h
  have h₀ := c.skipNewlines_length_le
  rw [read, read]
  dsimp only
  rw [(peek_same (Nesting.allows_outside .significant) hitems.rest).1]
  split
  · exact follows_ok ⟨hitems, rfl⟩
  · split
    · exact follows_error _ _
    · refine (expect_outside (by decide) hitems).bind fun name name' hname => ?_
      have h₁ := name.shorter
      have hequal := accept?_rel (fun _ => Nesting.next_equal)
        (Nesting.allows_outside .significant) hname.next.rest
      generalize name.next.accept? .significant .equal = found at hequal
      generalize name'.next.accept? .significant .equal = found' at hequal
      cases hequal with
      | some hequal =>
        rename_i equal equal'
        have h₂ := equal.shorter
        refine (Expr.read_follows Nesting.allows_value hequal.next.rest).bind fun value value' hvalue => ?_
        have h₃ := value.shorter
        refine (endOfItem_follows Nesting.allows_value hvalue.next).bind fun _ _ hend => ?_
        refine (read_follows hend).bind fun more more' hmore => ?_
        refine follows_ok ⟨hmore.next, ?_⟩
        simp only [squeezed_addAttribute, Attribute.squeezed, hmore.value, hname.same.text,
          hvalue.value.squeezed]
      | none =>
        refine (readLabels_follows hname.next).bind fun labels labels' hlabels => ?_
        have h₂ := labels.notLonger
        refine (expect_outside (by decide) hlabels.next).bind fun opening opening' hopening => ?_
        have h₃ := opening.shorter
        refine (read_follows hopening.next).bind fun inner inner' hinner => ?_
        have h₄ := inner.notLonger
        refine (expect_outside (by decide) hinner.next).bind fun closing closing' hclosing => ?_
        have h₅ := closing.shorter
        refine (endOfItem_follows (Nesting.allows_outside _) hclosing.next).bind fun _ _ hend => ?_
        refine (read_follows hend).bind fun more more' hmore => ?_
        refine follows_ok ⟨hmore.next, ?_⟩
        rw [squeezed_addBlock, squeezed_addBlock, hmore.value, hname.same.text, hlabels.value,
          squeezed_nested _ _ hinner.value]
termination_by c.rest.length

end Body

namespace ParsedFile

/-! ## Files -/

theorem checkLabels_follows {name name' : Token} (hname : name'.text = name.text) (labels : List Text)
    (h : g.At .outside c c') :
    Follows (TailSpaced g .outside fun _ _ => True) (checkLabels name labels c)
      (checkLabels name' labels c') := by
  unfold checkLabels
  rw [hname]
  split
  · exact follows_ok ⟨⟨h.rest, h.stop⟩, trivial⟩
  · split
    · exact follows_ok ⟨h, trivial⟩
    · exact follows_error _ _

theorem readBlocks_follows {c c' : Cursor} (file : Text) (keepSource : Bool) (previousEnd previousEnd' : Nat)
    (h : g.At .outside c c') :
    Follows (fun read read' => List.Forall₂ Block.SameShape read.1 read'.1)
      (readBlocks g.source file keepSource previousEnd c)
      (readBlocks g.source' file keepSource previousEnd' c') := by
  have hitems := skipNewlines_at h
  have h₀ := c.skipNewlines_length_le
  rw [readBlocks, readBlocks]
  dsimp only
  rw [(peek_same (Nesting.allows_outside .significant) hitems.rest).1]
  split
  · exact follows_ok .nil
  · refine (expect_outside (by decide) hitems).bind fun name name' hname => ?_
    have h₁ := name.shorter
    have hequal := accept?_rel (fun _ => Nesting.next_equal)
      (Nesting.allows_outside .significant) hname.next.rest
    generalize name.next.accept? .significant .equal = found at hequal
    generalize name'.next.accept? .significant .equal = found' at hequal
    cases hequal with
    | some hequal =>
      rename_i equal equal'
      have h₂ := equal.shorter
      refine (Expr.read_follows Nesting.allows_value hequal.next.rest).bind fun value value' hvalue => ?_
      have h₃ := value.shorter
      refine (endOfItem_follows Nesting.allows_value hvalue.next).bind fun _ _ hend => ?_
      exact readBlocks_follows file keepSource previousEnd previousEnd' ⟨hend.rest, hend.stop⟩
    | none =>
      refine (Body.readLabels_follows hname.next).bind fun labels labels' hlabels => ?_
      have h₂ := labels.notLonger
      rw [hlabels.value]
      refine (checkLabels_follows hname.same.text labels.value hlabels.next).bind
        fun header header' hheader => ?_
      have h₃ := header.notLonger
      refine (expect_outside (by decide) hheader.next).bind fun opening opening' hopening => ?_
      have h₄ := opening.shorter
      refine (Body.read_follows hopening.next).bind fun body body' hbody => ?_
      have h₅ := body.notLonger
      refine (expect_outside (by decide) hbody.next).bind fun closing closing' hclosing => ?_
      have h₆ := closing.shorter
      refine (endOfItem_follows (Nesting.allows_outside _) hclosing.next).bind fun _ _ hend => ?_
      refine (readBlocks_follows file keepSource _ _ hend).bind fun more more' hmore => ?_
      exact follows_ok (.cons ⟨hname.same.text, rfl, hbody.value⟩ hmore)
termination_by c.rest.length
decreasing_by
  · show value.next.rest.length < c.rest.length
    omega
  · omega

end ParsedFile

end HclTidy
