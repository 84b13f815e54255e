import HclTidy.Template.Basic
import HclTidy.Text.Digit
import HclTidy.Token.Basic

/-!
# Expressions

Only what a structural rendering needs is modelled in detail. Every expression keeps its exact
source; operators, conditionals, `for` expressions and splats are `unknown`. A template keeps its
parts as scanned, so that an interpolation is read as an expression only where one is asked for.
-/

set_option autoImplicit false

namespace HclTidy

inductive Expr where
  /-- A number, boolean or null, as written. -/
  | literal (source : Text)
  | template (source : Text) (heredoc : Bool) (parts : List Template.Part)
  | tuple (source : Text) (items : List Expr)
  | object (source : Text) (items : List (Expr × Expr))
  /-- A variable with attribute and index steps, such as `aws_instance.web[0].id`. -/
  | traversal (source : Text) (root : Text)
  | call (source : Text) (name : Text) (args : List Expr)
  | unknown (source : Text)

namespace Expr

def source : Expr → Text
  | literal s => s
  | template s _ _ => s
  | tuple s _ => s
  | object s _ => s
  | traversal s _ => s
  | call s _ _ => s
  | unknown s => s

/-- A literal that begins with a digit, which a minus sign extends to a negative number. -/
def isNumber : Expr → Bool
  | literal (c :: _) => Text.isDigit c
  | _ => false

/-- An index that leaves a traversal a traversal. -/
def isStaticIndex : Expr → Bool
  | literal _ => true
  | template _ _ parts => parts.all Template.Part.isLiteral
  | _ => false

end Expr

/-- The text of a heredoc between its first and its last line; with the marker `<<-` the common
indentation of the lines that are not blank is cut off. -/
def heredocBody (source : Text) : Text :=
  let body := (source.dropWhile (· ≠ '\n')).tail
  let rows := (Text.lines body).dropLast
  let rows :=
    if ['<', '<', '-'].isPrefixOf source then
      let indents := (rows.filter fun row => !Text.allBlank row).map fun row =>
        (row.takeWhile Text.isBlank).length
      rows.map (List.drop (indents.min?.getD 0))
    else rows
  rows.flatMap (· ++ ['\n'])

end HclTidy
