import HclTidy.Text.Numeral

/-!
# Escapes in quoted strings

Block labels are read by `decode` and written by `encode`. A backslash introduces the simple
escapes, `\u` with four and `\U` with eight characters that form a hexadecimal numeral; a doubled
marker stands for the marker itself. An escape that is not recognised, or names no character,
stands for itself, and a surrogate is none. A numeral beyond the range of code numbers is an error.
-/

set_option autoImplicit false

namespace HclTidy.Escape

inductive DecodeError where
  /-- The numeral exceeds 2^31 - 1. -/
  | codeTooLarge
deriving Repr, DecidableEq

/-- What the characters after a backslash stand for. -/
inductive Reading where
  /-- One character, written with `length` characters after the backslash. -/
  | character (c : Char) (length : Nat)
  | tooLarge
  | unrecognised
deriving Repr, DecidableEq

def simple? : Char → Option Char
  | 'n' => some '\n'
  | 'r' => some '\r'
  | 't' => some '\t'
  | '"' => some '"'
  | '\\' => some '\\'
  | _ => none

/-- The character with a given code number, read from `length` characters. -/
def Reading.ofCode (length : Nat) : Option Int → Reading
  | none => .unrecognised
  | some code =>
    if 0x7FFFFFFF < code then .tooLarge
    else if h : 0 ≤ code ∧ code.toNat.isValidChar then .character (Char.ofNatAux code.toNat h.2) length
    else .unrecognised

/-- A numeral of exactly `width` characters after the letter that announces it. -/
def Reading.ofNumeral (width : Nat) (text : Text) : Reading :=
  if text.length < width then .unrecognised
  else .ofCode (width + 1) (Text.integer? 16 (text.take width))

def Reading.ofText : Text → Reading
  | [] => .unrecognised
  | c :: rest =>
    match simple? c with
    | some d => .character d 1
    | none =>
      if c = 'u' then .ofNumeral 4 rest
      else if c = 'U' then .ofNumeral 8 rest
      else .unrecognised

/-- Decodes after skipping the characters that an escape has already used. -/
def decodeFrom : Nat → Text → Except DecodeError Text
  | _, [] => .ok []
  | skip + 1, _ :: rest => decodeFrom skip rest
  | 0, c :: rest =>
    if c = '\\' then
      match Reading.ofText rest with
      | .character d length => (decodeFrom length rest).map (d :: ·)
      | .tooLarge => .error .codeTooLarge
      | .unrecognised => (decodeFrom 0 rest).map (c :: ·)
    else if (c = '$' || c = '%') && [c, '{'].isPrefixOf rest then
      (decodeFrom 2 rest).map (c :: '{' :: ·)
    else (decodeFrom 0 rest).map (c :: ·)

def decode (text : Text) : Except DecodeError Text := decodeFrom 0 text

def encode : Text → Text
  | [] => []
  | c :: rest =>
    let written : Text :=
      if c = '\\' || c = '"' then ['\\', c]
      else if c = '\n' then ['\\', 'n']
      else if c = '\r' then ['\\', 'r']
      else if c = '\t' then ['\\', 't']
      else if (c = '$' || c = '%') && rest.head? = some '{' then [c, c]
      else [c]
    written ++ encode rest

end HclTidy.Escape
