/-!
# Text

Source text is a list of characters, so that offsets and columns count code points and every
function on it is an ordinary list function. The operations here split, join, pad and cut text;
which characters are blank, letters or digits is decided in the table modules beside this one.

A character is a Unicode scalar value. There are no lone surrogates: no text has one, and an escape of
a code from `D800` to `DFFF` gives none.
-/

set_option autoImplicit false

namespace HclTidy

abbrev Text := List Char

namespace Text

/-- Membership in a table of closed ranges. -/
def inRanges (ranges : List (Nat × Nat)) (n : Nat) : Bool :=
  ranges.any fun r => r.1 ≤ n && n ≤ r.2

/-- The text as a string, for messages. -/
def str (t : Text) : String := String.ofList t

/-- The pieces between the separators; always at least one. -/
def splitOn (separator : Char) (t : Text) : List Text :=
  t.foldr (fun c pieces =>
    if c = separator then [] :: pieces
    else match pieces with
      | [] => [[c]]
      | piece :: rest => (c :: piece) :: rest) [[]]

/-- The lines of a text, the one after a final line feed included. -/
def lines (t : Text) : List Text := splitOn '\n' t

/-- The pieces with the separator between neighbours. -/
def joinWith (separator : Text) : List Text → Text
  | [] => []
  | [piece] => piece
  | piece :: rest => piece ++ separator ++ joinWith separator rest

def unlines (ls : List Text) : Text := joinWith ['\n'] ls

/-- The text padded with spaces on the right to at least `width` characters. -/
def padRight (width : Nat) (t : Text) : Text :=
  t ++ List.replicate (width - t.length) ' '

/-- The characters from offset `start` up to offset `stop`. -/
def slice (t : Text) (start stop : Nat) : Text := (t.drop start).take (stop - start)

/-- The text before the first occurrence of `mark` and the text after it. -/
def cut? (mark : Text) : Text → Option (Text × Text)
  | [] => if mark.isEmpty then some ([], []) else none
  | c :: rest =>
    if mark.isPrefixOf (c :: rest) then some ([], (c :: rest).drop mark.length)
    else (cut? mark rest).map fun (before, after) => (c :: before, after)

/-- A natural number in decimal notation. -/
def ofNat (n : Nat) : Text := Nat.toDigits 10 n

/-- Lexicographic order by code point, the order of every sorted list of names. -/
def le (a b : Text) : Bool := !decide (b < a)

@[simp] theorem splitOn_nil (separator : Char) : splitOn separator [] = [[]] := rfl

theorem splitOn_ne_nil (separator : Char) (t : Text) : splitOn separator t ≠ [] := by
  cases t with
  | nil => simp
  | cons c rest =>
    simp only [splitOn, List.foldr_cons]
    split
    · simp
    · split <;> simp

@[simp] theorem slice_self (t : Text) (n : Nat) : slice t n n = [] := by simp [slice]

theorem padRight_length (width : Nat) (t : Text) :
    (padRight width t).length = max width t.length := by
  simp [padRight]; omega

end Text

end HclTidy
