import HclTidy.Expr.Parser

/-!
# Rebuilding expressions

Where no verbatim source is at hand, an attribute value is written from its expression. Static
values (literals, templates without interpolations, and tuples and objects of them) are copied;
templates are rebuilt around their traversals, tuples and objects item by item. What cannot be
rebuilt becomes the empty string.
-/

set_option autoImplicit false

namespace HclTidy

namespace Template.Part

/-- The expression inside an interpolation. A directive, or a text that is no expression, is
unknown. -/
def expression (directive : Bool) (inner : Text) : Expr :=
  let source := stripMarkers inner
  if directive then .unknown source
  else
    match Expr.ofText source with
    | .ok (expr, _) => expr
    | .error _ => .unknown source

/-- A part in rebuilt form: literal text as it is, an interpolation around its traversal. -/
def rebuilt : Part → Text
  | .literal text => text
  | .interpolation directive inner =>
    match expression directive inner with
    | .traversal source _ => '$' :: '{' :: source ++ ['}']
    | _ => "$\x7bunknown\x7d".toList

end Template.Part

namespace Expr

/-- A plain identifier of ASCII characters. -/
def isPlainName : Text → Bool
  | [] => false
  | c :: rest => (c.isAlpha || c = '_') && rest.all fun d => d.isAlphanum || d = '_' || d = '-'

def isStaticKey : Expr → Bool
  | traversal source _ => isPlainName source
  | literal _ => true
  | template _ _ parts => parts.all Template.Part.isLiteral
  | _ => false

mutual

/-- The value needs no evaluation, so its source can be copied. -/
def isStatic : Expr → Bool
  | literal _ => true
  | template _ _ parts => parts.all Template.Part.isLiteral
  | tuple _ items => allStatic items
  | object _ items => allPairsStatic items
  | _ => false

def allStatic : List Expr → Bool
  | [] => true
  | item :: rest => item.isStatic && allStatic rest

def allPairsStatic : List (Expr × Expr) → Bool
  | [] => true
  | (key, value) :: rest => key.isStaticKey && value.isStatic && allPairsStatic rest

end

/-- The closing markers a heredoc may take, each longer than the one before. -/
def heredocMarker (n : Nat) : Text := "EOT".toList ++ List.replicate n '_'

/-- The first marker that is not a line of the body; one of `lines.length + 1` markers is free. -/
def freeMarker (body : Text) : Text :=
  let rows := Text.lines body
  ((List.range (rows.length + 1)).map heredocMarker |>.find? fun m => !rows.contains m).getD []

def rebuildTemplate (heredoc : Bool) (parts : List Template.Part) : Text :=
  let body := parts.flatMap Template.Part.rebuilt
  if heredoc then
    let marker := freeMarker body
    '<' :: '<' :: marker ++ '\n' :: body ++ marker
  else '"' :: body ++ ['"']

def rebuildItem (item : Expr) : Text :=
  match item with
  | traversal source _ => source
  | item => if item.isStatic then item.source else ['"', '"']

def rebuildKey : Expr → Text
  | traversal source _ =>
    if isPlainName source || source.head? = some '(' then source else '(' :: source ++ [')']
  | literal source => source
  | template _ false parts => rebuildTemplate false parts
  | _ => "\"unknown\"".toList

def rebuildValue (value : Expr) : Text :=
  if value.isStatic then value.source
  else
    match value with
    | template _ heredoc parts => rebuildTemplate heredoc parts
    | traversal source _ => source
    | _ => ['"', '"']

/-- The text that stands for an attribute value. -/
def rebuild (expr : Expr) : Text :=
  if expr.isStatic then expr.source
  else
    match expr with
    | literal source => source
    | template _ heredoc parts => rebuildTemplate heredoc parts
    | tuple _ items => '[' :: Text.joinWith [',', ' '] (items.map rebuildItem) ++ [']']
    | object _ [] => ['{', '}']
    | object _ items =>
      Text.unlines (['{'] ::
        items.map (fun item => rebuildKey item.1 ++ " = ".toList ++ rebuildValue item.2) ++ [['}']])
    | traversal source _ => source
    | call _ _ _ => ['"', '"']
    | unknown _ => ['"', '"']

/-- The value is replaced by the empty string as a whole. -/
def isUnsupported : Expr → Bool
  | call _ _ _ => true
  | unknown _ => true
  | _ => false

end Expr

end HclTidy
