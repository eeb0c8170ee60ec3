import Argot.Text.Rune

set_option autoImplicit false

/-!
# Whitespace

Which characters separate words, and the two operations that look at nothing else:
cutting a text into its words (`Text.fields`) and taking the whitespace off its ends
(`Text.trim`).

Normative source: SPEC_FULL §4.1 (splitting at whitespace).
-/

namespace Argot

/-- The characters with the Unicode property White_Space.  A stray byte is none. -/
def Rune.isSpace : Rune → Bool
  | .stray _ => false
  | .char c =>
    let n := c.toNat
    (0x09 ≤ n && n ≤ 0x0D) || n == 0x20 || n == 0x85 || n == 0xA0 || n == 0x1680 ||
      (0x2000 ≤ n && n ≤ 0x200A) || n == 0x2028 || n == 0x2029 || n == 0x202F ||
      n == 0x205F || n == 0x3000

namespace Text

/-- The word that is still open at the front, and the complete words after it. -/
def openField : List Rune → Text × List Text
  | [] => ([], [])
  | r :: rs =>
    let (word, rest) := openField rs
    if r.isSpace then ([], if word.isEmpty then rest else word :: rest)
    else (r.encode ++ word, rest)

/-- The words of a text: its maximal runs of characters that are not whitespace. -/
def fields (t : Text) : List Text :=
  let (word, rest) := openField t.runes
  if word.isEmpty then rest else word :: rest

/-- Takes the whitespace off both ends. -/
def trim (t : Text) : Text :=
  let inner := (t.runes.dropWhile Rune.isSpace).reverse.dropWhile Rune.isSpace
  inner.reverse.flatMap Rune.encode

/-- Whether some character of the text is whitespace. -/
def hasSpace (t : Text) : Bool := t.runes.any Rune.isSpace

end Text
end Argot
