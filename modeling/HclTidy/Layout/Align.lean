import HclTidy.Layout.Basic

/-!
# Alignment

Two alignments, each over maximal runs of consecutive lines: the `=` of single-line attributes, and
the comments that follow code.
-/

set_option autoImplicit false

namespace HclTidy.Layout

/-- The front of a list on which `view` is defined, with its values. -/
def takeRun {α β : Type} (view : α → Option β) : List α → List (α × β)
  | [] => []
  | x :: rest =>
    match view x with
    | none => []
    | some y => (x, y) :: takeRun view rest

theorem takeRun_length_le {α β : Type} (view : α → Option β) (xs : List α) :
    (takeRun view xs).length ≤ xs.length := by
  induction xs with
  | nil => simp [takeRun]
  | cons x rest ih => simp only [takeRun]; split <;> simp_all

/-- Changes every maximal run of elements on which `view` is defined. -/
def mapRuns {α β : Type} (view : α → Option β) (change : List (α × β) → List α)
    (xs : List α) : List α :=
  match xs with
  | [] => []
  | x :: rest =>
    match view x with
    | none => x :: mapRuns view change rest
    | some y =>
      let run := takeRun view rest
      change ((x, y) :: run) ++ mapRuns view change (rest.drop run.length)
termination_by xs.length
decreasing_by
  · simp
  · simp only [List.length_drop, List.length_cons]
    omega

/-- The largest value of a measure, 0 for the empty list. -/
def maxOf {α : Type} (measure : α → Nat) (xs : List α) : Nat := (xs.map measure).foldl max 0

def assignment? : Line → Option (FreeLine × Text × Text)
  | .verbatim _ => none
  | .free line => line.assignment.map fun a => (line, a.1, a.2)

/-- Pads the names of a run of attributes to the width of the longest. -/
def alignNames (run : List (Line × FreeLine × Text × Text)) : List Line :=
  let width := maxOf (fun (_, _, name, _) => name.length) run
  run.map fun (_, line, name, value) =>
    .free { line with text := Text.padRight width name ++ [' ', '=', ' '] ++ value }

/-- The text of a comment on one line that ends a line after other tokens. -/
def trailingComment? (line : FreeLine) : Option Text :=
  match line.tokens with
  | _ :: second :: rest =>
    let last := (second :: rest).getLast (by simp)
    if last.kind = .comment && last.lineFeeds = 0 then some (Text.trimRight last.text) else none
  | _ => none

/-- The code and the comment of a line that ends in a comment. -/
def commented? : Line → Option (FreeLine × Text × Text)
  | .verbatim _ => none
  | .free line =>
    match trailingComment? line with
    | none => none
    | some comment =>
      let text := Text.trimRight line.text
      if comment.isSuffixOf text then
        some (line, Text.trimRight (text.take (text.length - comment.length)), comment)
      else none

/-- Pads the code of a run of commented lines so that the comments start in one column. -/
def alignComments (run : List (Line × FreeLine × Text × Text)) : List Line :=
  let width := maxOf (fun (_, line, code, _) => 2 * line.indent + code.length) run
  run.map fun (_, line, code, comment) =>
    .free { line with text := Text.padRight (width - 2 * line.indent) code ++ ' ' :: comment }

end HclTidy.Layout
