import HclTidy.Text.Digit

/-!
# Options of the command line

An option is a letter behind one dash or a word behind two. Letters may share a dash, a word may be
cut short as long as no other option begins in the same way, and a value follows in the next
argument, behind `=`, or directly behind a letter. Which options there are depends on the command.
-/

set_option autoImplicit false

namespace HclTidy.CommandLine

inductive Switch where
  | help
  | verbose
  | outputDirectory
  | config
  | recursive
  | backup
deriving Repr, DecidableEq

namespace Switch

def letter? : Switch → Option Char
  | help => some 'h'
  | verbose => some 'v'
  | outputDirectory => some 'o'
  | config => some 'c'
  | recursive => some 'r'
  | backup => none

def word : Switch → Text
  | help => "help".toList
  | verbose => "verbose".toList
  | outputDirectory => "output-dir".toList
  | config => "config".toList
  | recursive => "recursive".toList
  | backup => "backup".toList

def takesValue : Switch → Bool
  | outputDirectory | config => true
  | _ => false

end Switch

/-- An option as an argument sets it. -/
inductive Setting where
  | on (switch : Switch)
  | to (switch : Switch) (value : Text)
deriving Repr, DecidableEq

/-- The argument behind which there are only operands. -/
def separator : Text := "--".toList

/-- What one argument means. -/
inductive Reading where
  | operand
  /-- Options that are set; the next argument is the value of `awaiting`. -/
  | settings (settings : List Setting) (awaiting : Option Switch)
  /-- An option that is not known. -/
  | stray
  /-- Something attached to an option that takes no value. -/
  | unwantedValue
  /-- The beginning of several words. -/
  | ambiguous
deriving Repr, DecidableEq

namespace Reading

/-- An option with nothing attached. -/
def alone (switch : Switch) : Reading :=
  if switch.takesValue then .settings [] (some switch) else .settings [.on switch] none

/-- A value that is attached to its option. The separator is no value. -/
def attached (switch : Switch) (value : Text) : Reading :=
  .settings [.to switch (if value = separator then [] else value)] none

/-- The same reading with one more option in front. -/
def after (switch : Switch) : Reading → Reading
  | settings rest awaiting => settings (.on switch :: rest) awaiting
  | other => other

/-- A letter and the text behind it: its value, or more letters. -/
def ofLetter (grammar : List Switch) (switch : Switch) : Text → Reading
  | [] => if switch.takesValue then attached switch [] else .unwantedValue
  | c :: rest =>
    if switch.takesValue then attached switch (c :: rest)
    else
      match grammar.find? fun s => s.letter? = some c with
      | none => .unwantedValue
      | some next => (if rest.isEmpty then alone next else ofLetter grammar next rest).after switch

/-- The options behind one dash. An equals sign behind the first letter is no part of what is
attached to it. -/
def ofLetters (grammar : List Switch) (first : Switch) : Text → Reading
  | [] => alone first
  | '=' :: rest => ofLetter grammar first rest
  | rest => ofLetter grammar first rest

/-- What an argument with dashes is when it is no option: blanks are allowed in operands only. -/
def ofOther (argument : Text) : Reading := if argument.contains ' ' then .operand else stray

/-- The option behind two dashes, where `argument` is the whole argument. -/
def ofWord (grammar : List Switch) (argument rest : Text) : Reading :=
  let name := rest.takeWhile (· ≠ '=')
  match grammar.filter fun s => name.isPrefixOf s.word with
  | [] => ofOther argument
  | [switch] =>
    match switch.takesValue, rest.dropWhile (· ≠ '=') with
    | _, [] => alone switch
    | true, _ :: value => attached switch value
    | false, _ :: _ => .unwantedValue
  | _ => .ambiguous

def isDigits (t : Text) : Bool := !t.isEmpty && t.all fun c => (Text.decimalValue? c).isSome

/-- The digits of a negative number, with or without a point. A line feed at the end is no harm. -/
def isNumber (t : Text) : Bool :=
  let t := if t.getLast? = some '\n' then t.dropLast else t
  let whole := t.takeWhile (· ≠ '.')
  match t.dropWhile (· ≠ '.') with
  | [] => isDigits whole
  | _ :: fraction => (whole.isEmpty || isDigits whole) && isDigits fraction

def ofArgument (grammar : List Switch) (argument : Text) : Reading :=
  match argument with
  | '-' :: '-' :: rest => ofWord grammar argument rest
  | '-' :: c :: rest =>
    match grammar.find? fun s => s.letter? = some c with
    | some switch => ofLetters grammar switch rest
    | none => if isNumber (c :: rest) then .operand else ofOther argument
  | _ => .operand

end Reading

end HclTidy.CommandLine
