import Argot.Text.Printable

set_option autoImplicit false

/-!
# Quoted text

A text between double quotes, written so that it can be read at a glance: printable
characters stand for themselves, the quote and the backslash are escaped, the common
control characters have one-letter escapes, and everything else is written in
hexadecimal.

Normative source: SPEC_FULL §13 (printer: strings).
-/

namespace Argot.Quoted

/-- The letter that escapes a control character, where there is one. -/
def letter? (n : Nat) : Option Char :=
  match n with
  | 0x07 => some 'a'
  | 0x08 => some 'b'
  | 0x0C => some 'f'
  | 0x0A => some 'n'
  | 0x0D => some 'r'
  | 0x09 => some 't'
  | 0x0B => some 'v'
  | _ => none

/-- A character in hexadecimal: two digits for an ASCII control character, four in the
basic plane and eight beyond it. -/
def hexEscape (n : Nat) : Text :=
  if n < 0x20 ∨ n = 0x7F then Text.ofAscii ['\\', 'x'] ++ Text.ofHex 2 n
  else if n < 0x10000 then Text.ofAscii ['\\', 'u'] ++ Text.ofHex 4 n
  else Text.ofAscii ['\\', 'U'] ++ Text.ofHex 8 n

/-- One rune as it stands between the quotes. -/
def escape : Rune → Text
  | .stray b => Text.ofAscii ['\\', 'x'] ++ Text.ofHex 2 b.toNat
  | .char c =>
    if c = '"' ∨ c = '\\' then Text.ofAscii ['\\', c]
    else if (Rune.char c).isPrintable then (Rune.char c).encode
    else
      match letter? c.toNat with
      | some l => Text.ofAscii ['\\', l]
      | none => hexEscape c.toNat

end Argot.Quoted

namespace Argot

/-- The text between double quotes, with escapes where it needs them. -/
def Text.quoted (t : Text) : Text :=
  Text.byte '"' :: (t.runes.flatMap Quoted.escape ++ [Text.byte '"'])

end Argot
