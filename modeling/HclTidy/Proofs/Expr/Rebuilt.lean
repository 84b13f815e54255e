import HclTidy.Expr.Rebuild
import HclTidy.Proofs.Block.Values
import HclTidy.Proofs.Expr.Leaves
import HclTidy.Proofs.Template.Readable
import HclTidy.Proofs.Token.Strings

/-!
# Rebuilt templates

A quoted template whose interpolations hold traversals is rebuilt as a template with the same parts,
except that each interpolation is cut down to its traversal. The literal parts are copied, so they
stand between the same markers and quotes as before; and what goes from inside the braces has no quote
and no brace in it, so the scanner finds the end of each interpolation where it has always been.
-/

set_option autoImplicit false

namespace HclTidy

open Token

namespace Expr

/-- The expression stands in a configuration file with this text or in this text read as one
expression. -/
inductive ParsedFrom (text : Text) : Expr → Prop
  | file {file : Text} {keepSource : Bool} {parsed : ParsedFile} {events : List ParseEvent} {b : Block}
      {value e : Expr} : ParsedFile.ofText file keepSource text = .ok (parsed, events) →
      b ∈ parsed.blocks → b.body.HasValue value → value.Reaches e → ParsedFrom text e
  | alone {value e : Expr} {events : List ParseEvent} : ofText text = .ok (value, events) →
      value.Reaches e → ParsedFrom text e

theorem ParsedFrom.isRead {text : Text} {e : Expr} (h : ParsedFrom text e) :
    ∃ (source : Source) (ws : List Lexeme) (tail : Text), source.text = textOf ws tail ∧
      AllFit ws tail ∧ IsRead source ws e := by
  cases h with
  | file hparsed hb hvalue he =>
    obtain ⟨source, ws, tail, rfl, htext, hfit, hread⟩ := ParsedFile.isRead_of_ofText hparsed hb hvalue he
    exact ⟨source, ws, tail, htext, hfit, hread⟩
  | alone hvalue he =>
    obtain ⟨source, ws, tail, rfl, htext, hfit, hread⟩ := isRead_of_ofText hvalue
    exact ⟨source, ws, tail, htext, hfit, hread.reaches htext he⟩

def template? : Expr → Option (Text × Bool × List Template.Part)
  | template source heredoc parts => some (source, heredoc, parts)
  | _ => none

theorem ParsedFrom.of_template? {text source : Text} {heredoc : Bool} {parts : List Template.Part}
    (h : (ofText text).toOption.bind (fun r => r.1.template?) = some (source, heredoc, parts)) :
    ParsedFrom text (.template source heredoc parts) := by
  obtain ⟨⟨e, events⟩, hread, he⟩ := Option.bind_eq_some_iff.mp h
  cases hresult : ofText text with
  | error e =>
    rw [hresult] at hread
    cases hread
  | ok r =>
    rw [hresult] at hread
    cases hread
    cases e with
    | template =>
      cases he
      exact .alone hresult (.refl _)
    | _ => cases he

def isTraversal : Expr → Bool
  | traversal _ _ => true
  | _ => false

end Expr

namespace Template

namespace Part

/-- A literal, or a traversal in plain braces. Beside the traversal may stand white space, strip
markers and comments, but no quote and no brace. -/
def Supported : Part → Prop
  | literal _ => True
  | interpolation directive inner => directive = false ∧ (expression false inner).isTraversal = true ∧
      ∃ before behind, inner = before ++ ((expression false inner).source ++ behind) ∧
        Plain before ∧ Plain behind

/-- The part with nothing but the source of its expression between the braces. -/
def reduced : Part → Part
  | literal text => literal text
  | interpolation _ inner => interpolation false (expression false inner).source

/-- The second part is the first one, or holds the same expression and nothing else. -/
inductive RebuiltAs : Part → Part → Prop
  | literal (text : Text) : RebuiltAs (literal text) (literal text)
  | interpolation {inner : Text} :
      expression false (expression false inner).source = expression false inner →
      RebuiltAs (interpolation false inner) (interpolation false (expression false inner).source)

end Part

/-- A traversal is read again from its source. -/
theorem expression_source {inner : Text} (h : (Part.expression false inner).isTraversal = true) :
    Part.expression false (Part.expression false inner).source = Part.expression false inner := by
  cases hexpr : Part.expression false inner with
  | traversal text root =>
    have hread : ∃ events, Expr.ofText (stripMarkers inner) = .ok (.traversal text root, events) := by
      simp only [Part.expression, Bool.false_eq_true, if_false] at hexpr
      split at hexpr
      · next e events hread => exact ⟨events, hexpr ▸ hread⟩
      · cases hexpr
    obtain ⟨events, hread⟩ := hread
    obtain ⟨source, ws, tail, hsource, htext, hfit, hisRead⟩ := Expr.isRead_of_ofText hread
    rw [← hsource] at htext
    obtain ⟨-, events', hagain⟩ := hisRead.ofText_source htext hfit
    change Expr.ofText text = _ at hagain
    change Part.expression false text = _
    rw [Part.expression, Expr.stripMarkers_of_traversal hagain, if_neg Bool.false_ne_true, hagain]
  | _ =>
    rw [hexpr] at h
    cases h

section Supported

variable {p : Part}

theorem rebuilt_of_supported (h : p.Supported) : p.rebuilt = p.reduced.written := by
  cases p with
  | literal text => rfl
  | interpolation directive inner =>
    obtain ⟨rfl, htraversal, -⟩ := h
    rw [Part.rebuilt, Part.reduced]
    cases hexpr : Part.expression false inner with
    | traversal text root => rfl
    | _ =>
      rw [hexpr] at htraversal
      cases htraversal

theorem exchanges_of_supported (h : p.Supported) : Exchanges p p.reduced := by
  cases p with
  | literal text => exact .literal text
  | interpolation directive inner =>
    obtain ⟨rfl, -, before, behind, hinner, hbefore, hbehind⟩ := h
    have hexchanges : Exchanges (.interpolation false _)
        (.interpolation false (Part.expression false inner).source) := exchanges_of_plain hbefore hbehind
    rwa [← hinner] at hexchanges

theorem rebuiltAs_of_supported (h : p.Supported) : p.RebuiltAs p.reduced := by
  cases p with
  | literal text => exact .literal text
  | interpolation directive inner =>
    obtain ⟨rfl, htraversal, -⟩ := h
    exact .interpolation (expression_source htraversal)

end Supported

theorem forall₂_reduced {R : Part → Part → Prop} {parts : List Part}
    (h : ∀ p ∈ parts, R p p.reduced) : List.Forall₂ R parts (parts.map Part.reduced) := by
  rw [List.forall₂_map_right_iff, List.forall₂_same]
  exact h

end Template

namespace Expr

open Template

theorem rebuild_template {source : Text} {parts : List Part} (hsource : source = '"' :: closed parts)
    (hparts : ∀ p ∈ parts, p.Supported) :
    rebuild (.template source false parts) = '"' :: closed (parts.map Part.reduced) := by
  have hrebuilt : parts.flatMap Part.rebuilt = (parts.map Part.reduced).flatMap Part.written := by
    rw [List.flatMap_map]
    exact List.flatMap_congr fun p hp => rebuilt_of_supported (hparts p hp)
  rw [rebuild, isStatic]
  split
  · next hliteral =>
    have hreduced : ∀ p ∈ parts, p.reduced = id p := by
      intro p hp
      cases p with
      | literal text => rfl
      | interpolation => cases List.all_eq_true.mp hliteral _ hp
    rw [List.map_congr_left hreduced, List.map_id]
    exact hsource
  · rw [rebuildTemplate, if_neg Bool.false_ne_true, hrebuilt]
    rfl

theorem readable_of_parsedFrom {text source : Text} {parts : List Part}
    (h : ParsedFrom text (.template source false parts)) :
    source = '"' :: closed parts ∧ Readable parts := by
  obtain ⟨src, ws, tail, htext, hfit, mode, c, s, hc, hs, hvalue⟩ := h.isRead
  obtain ⟨t, ht, htoken⟩ := templateOf_of_read hs hvalue
  rw [hvalue] at htoken
  cases htoken with
  | string hkind =>
    obtain ⟨rest, hfits⟩ := fits_of_mem_tokensAt hfit t (List.mem_of_mem_filter (hc.subset ht))
    rw [hkind] at hfits
    obtain ⟨used, literal, hused, hscans⟩ := scans_of_fits hfits
    obtain ⟨parts, hmoved, hwritten, -⟩ := scanQuoted_of_scans hscans
    have halone : scanQuoted 0 t.text = .ok (parts, []) := by
      rw [hused, ← List.append_nil ('"' :: used)]
      exact hmoved 0 []
    rw [partsOf_of_scanQuoted halone]
    have hclosed : t.text = '"' :: closed parts := by rw [hused, ← hwritten]; rfl
    exact ⟨hclosed, scanQuoted_closed_iff.mp (hclosed ▸ halone)⟩

/-- Rebuilding a quoted template keeps its parts: their number and order, each literal part, and the
traversal of each interpolation, which stands alone between its braces then. -/
theorem scanQuoted_rebuild {text source : Text} {parts : List Part}
    (h : ParsedFrom text (.template source false parts)) (hparts : ∀ p ∈ parts, p.Supported) :
    ∃ parts', scanQuoted 0 (rebuild (.template source false parts)) = .ok (parts', []) ∧
      List.Forall₂ Part.RebuiltAs parts parts' := by
  obtain ⟨hsource, hreadable⟩ := readable_of_parsedFrom h
  refine ⟨parts.map Part.reduced, ?_, forall₂_reduced fun p hp => rebuiltAs_of_supported (hparts p hp)⟩
  rw [rebuild_template hsource hparts, scanQuoted_closed_iff]
  exact hreadable.exchange (forall₂_reduced fun p hp => exchanges_of_supported (hparts p hp))

/-- Quotes in index keys, escapes, an escaped marker in front of an interpolation, strip markers, a
comment with no brace in it and a marker in front of the closing quote. -/
theorem scanQuoted_rebuild_nested :
    let text := "\"\\\"$$\x7bx\x7d$\x7ba[\"k\x7d\\\"\"]\x7d$\x7b~ b.0 ~\x7d%%\x7bx\x7d$\x7b (c) /* d */ \x7d$\"".toList
    ∃ parts, ParsedFrom text (.template text false parts) ∧ (∀ p ∈ parts, p.Supported) ∧
      parts.length = 6 ∧
      ∃ parts', scanQuoted 0 (rebuild (.template text false parts)) = .ok (parts', []) ∧
        List.Forall₂ Part.RebuiltAs parts parts' := by
  intro text
  let parts : List Part := [.literal "\\\"$$\x7bx\x7d".toList,
    .interpolation false "a[\"k\x7d\\\"\"]".toList, .interpolation false "~ b.0 ~".toList,
    .literal "%%\x7bx\x7d".toList, .interpolation false " (c) /* d */ ".toList, .literal "$".toList]
  have hparsed : ParsedFrom text (.template text false parts) := .of_template? (by decide +kernel)
  have hparts : ∀ p ∈ parts, p.Supported := by
    simp only [parts, List.forall_mem_cons, List.not_mem_nil, false_implies, implies_true, and_true]
    refine ⟨trivial, ?_, ?_, trivial, ?_, trivial⟩
    · exact ⟨rfl, by decide +kernel, [], [], by decide +kernel, by simp [Plain], by simp [Plain]⟩
    · exact ⟨rfl, by decide +kernel, "~ ".toList, " ~".toList, by decide +kernel, by simp [Plain], by simp [Plain]⟩
    · exact ⟨rfl, by decide +kernel, " ".toList, " /* d */ ".toList, by decide +kernel,
        by simp [Plain], by simp [Plain]⟩
  exact ⟨parts, hparsed, hparts, rfl, scanQuoted_rebuild hparsed hparts⟩

/-- Strip markers go; and where a brace in a comment beside the traversal goes, one in a comment inside
the traversal ends the interpolation. -/
theorem rebuild_template_loses :
    let marked := "$\x7b~a~\x7d".toList
    let commented := "$\x7b/* \x7b */ a[/* \x7d */ 0]\x7d".toList
    let inner := "/* \x7b */ a[/* \x7d */ 0]".toList
    ParsedFrom ('"' :: marked ++ ['"'])
        (.template ('"' :: marked ++ ['"']) false [.interpolation false "~a~".toList]) ∧
      (Part.expression false "~a~".toList).isTraversal = true ∧
      scanQuoted 0 (rebuild (.template ('"' :: marked ++ ['"']) false [.interpolation false "~a~".toList])) =
        .ok ([.interpolation false "a".toList], []) ∧
      ParsedFrom ('"' :: commented ++ ['"'])
        (.template ('"' :: commented ++ ['"']) false [.interpolation false inner]) ∧
      (Part.expression false inner).isTraversal = true ∧
      scanQuoted 0 (rebuild (.template ('"' :: commented ++ ['"']) false [.interpolation false inner])) =
        .ok ([.interpolation false "a[/* ".toList, .literal " */ 0]\x7d".toList], []) :=
  ⟨.of_template? (by decide +kernel), by decide +kernel, by decide +kernel,
    .of_template? (by decide +kernel), by decide +kernel, by decide +kernel⟩

end Expr

end HclTidy
