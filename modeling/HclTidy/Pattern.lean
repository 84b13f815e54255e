import HclTidy.Text.Basic

/-!
# Wildcard patterns

A pattern is matched against a whole text; `*` stands for any run of characters, the empty one
included, and every other character for itself. Pattern and text are walked through from left to
right. Where they differ, the last star passed takes one character more than before and the walk
goes on behind it; a star before the last one is never come back to.
-/

set_option autoImplicit false

namespace HclTidy.Pattern

/-- A star that has been passed: the pattern behind it, and the text behind what it has taken. -/
structure Star where
  pattern : Text
  text : Text

/-- The walk from a place in the pattern and one in the text on. -/
def walk (star : Option Star) (pattern : Text) : Text → Bool
  | [] => pattern.all (· = '*')
  | c :: text =>
    if pattern.head? = some '*' then walk (some ⟨pattern.tail, c :: text⟩) pattern.tail (c :: text)
    else if pattern.head? = some c then walk star pattern.tail text
    else
      match star with
      | some ⟨behind, _ :: rest⟩ => walk (some ⟨behind, rest⟩) behind rest
      | _ => false
-- Whenever the walk goes back to the last star, the text behind that star gets shorter.
termination_by text => (max text.length (star.elim 0 (·.text.length)), pattern.length)
decreasing_by
  all_goals cases pattern <;> simp_all [Prod.lex_def] <;> omega

def isMatch (pattern text : Text) : Bool :=
  if pattern.contains '*' then walk none pattern text else pattern = text

end HclTidy.Pattern
