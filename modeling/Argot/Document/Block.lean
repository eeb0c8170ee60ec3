import Argot.Document.Token

set_option autoImplicit false

/-!
# Text over several lines

A draft is the text collected for the next token.  Most often it is a plain scalar.  A
block scalar is collected in the same way, but under rules of its own: its first line
fixes how far it is indented, its head says what becomes of the breaks at its end, and a
folded one reads a break between two lines as a space.

Normative source: SPEC_FULL §12 (vocabulary files).
-/

namespace Argot.Document

/-! ## Drafts -/

/-- The text collected for the next token, and the source it was collected from, both
latest character first.  The latest `slack` characters do not count unless more text
follows. -/
structure Draft where
  chars : List Char
  slack : Nat
  source : List Char
  deriving Repr, Inhabited

namespace Draft

/-- Nothing collected. -/
def empty : Draft := ⟨[], 0, []⟩

/-- Takes note of a character of the source. -/
def note (d : Draft) (c : Char) : Draft := { d with source := c :: d.source }

/-- Adds a character to the text.  Blanks in front do not count, nor do those at the end. -/
def add (d : Draft) (c : Char) : Draft :=
  if d.chars.isEmpty && isBlank c then d
  else { d with chars := c :: d.chars, slack := if isBlank c then d.slack + 1 else 0 }

/-- Adds a character, with tabs as good as any. -/
def addSolid (d : Draft) (c : Char) : Draft :=
  if d.chars.isEmpty && c == ' ' then d
  else { d with chars := c :: d.chars, slack := if c == ' ' then d.slack + 1 else 0 }

/-- Adds a space that counts. -/
def addIndent (d : Draft) : Draft := { d with chars := ' ' :: d.chars, slack := 0 }

/-- The text without its slack. -/
def text (d : Draft) : List Char := (d.chars.drop d.slack).reverse

/-- Whether there is any text. -/
def isEmpty (d : Draft) : Bool := d.chars.length ≤ d.slack

/-- Without the blanks at the end of the source. -/
def trim (d : Draft) : Draft :=
  match d.source with
  | [] => d
  | c :: _ =>
    if isBlank c then ⟨d.chars.drop d.slack, 0, d.source.dropWhile isBlank⟩ else d

/-- A line break in a plain scalar: a space, or a break after an empty line. -/
def breakLine (d : Draft) (fresh : Bool) : Draft :=
  if !d.isEmpty && fresh then
    match d.chars with
    | ' ' :: chars => { d with chars := '\n' :: chars }
    | chars => { d with chars := '\n' :: chars, slack := d.slack + 1 }
  else d.add ' '

end Draft

/-! ## Block scalars -/

/-- How the lines of a block scalar are put together.  A plain scalar that goes on with a
dash on a later line is collected as a block from there on. -/
inductive BlockStyle where
  | literal
  | folded
  | dashed
  deriving DecidableEq, Repr, Inhabited

/-- What the head of a block scalar says after its mark: what becomes of the breaks at
the end, and by how much the text is indented (zero if that is left to the first line). -/
structure BlockHead where
  strip : Bool
  keep : Bool
  indent : Nat
  deriving DecidableEq, Repr, Inhabited

namespace BlockHead

/-- Without one sign in front and one behind. -/
def digits (option : List Char) : List Char :=
  let drop (c : Char) (t : List Char) : List Char := if t.head? = some c then t.tail else t
  let front := drop '+' (drop '-' option)
  (drop '+' (drop '-' front.reverse)).reverse

/-- Reads the option; the indentation is a number from one to nine. -/
def ofOption? (option : List Char) : Option BlockHead :=
  let signed (c : Char) : Bool := option.head? == some c || option.getLast? == some c
  let head (indent : Nat) : BlockHead := ⟨signed '-', signed '+', indent⟩
  match digits option with
  | [] => some (head 0)
  | ds =>
    let n := ds.foldl (fun n c => n * 10 + (c.toNat - 48)) 0
    if ds.all Char.isDigit ∧ n ≤ 9 ∧ ds ≠ ['0'] then some (head n) else none

end BlockHead

/-- Reading a block scalar.  Columns are zero while they are not known: the column where
the first line of text starts, the line at hand, the line before and the last line with
text, and the end of the longest line of blanks in front. -/
structure Block where
  style : BlockStyle
  head : BlockHead
  first : Nat
  line : Nat
  previous : Nat
  lastText : Nat
  blank : Nat
  broken : Bool
  deriving Repr, Inhabited

namespace Block

/-- A block scalar below a key at a column. -/
def start (style : BlockStyle) (head : BlockHead) (keyColumn : Nat) : Block :=
  ⟨style, head, if head.indent = 0 then 0 else keyColumn + head.indent, 0, 0, 0, 0, false⟩

/-- Text stands at a column. -/
def atColumn (b : Block) (column : Nat) : Block :=
  { b with
    first := if b.first = 0 then column else b.first
    line := if b.line = 0 then column else b.line }

/-- A line ends at a column. -/
def endLine (b : Block) (column : Nat) : Block :=
  { b with
    blank := if b.first = 0 then column else b.blank
    previous := b.line
    lastText := if b.line = 0 then b.lastText else b.line
    broken := true
    line := 0 }

/-- Whether the line at hand is indented as the head asks for. -/
def fits (b : Block) : Bool := b.head.indent == 0 || decide (b.first ≤ b.line)

/-- Whether a column belongs to the indentation. -/
def isIndent (b : Block) (column : Nat) : Bool :=
  if b.first = 0 then column == 1 else decide (column < b.first)

/-- A space at the start of a line. -/
def addSpace (b : Block) (column : Nat) (d : Draft) : Block × Draft :=
  if b.first = 0 ∨ column < b.first then (b, d)
  else ({ b with broken := b.broken && b.style == .literal }, d.addIndent)

/-- Text after a break: a folded scalar reads the break between two lines of the same
indentation as a space, and drops one of the breaks around empty lines. -/
def fold (b : Block) (column : Nat) (d : Draft) : Block × Draft :=
  if b.style = .literal ∨ !b.broken then (b, d)
  else
    let folded : Draft :=
      if b.line = b.previous then
        match d.chars with
        | '\n' :: chars => { d with chars := ' ' :: chars }
        | _ => d
      else if b.previous = 0 ∧ b.lastText = column then
        match d.chars with
        | '\n' :: '\n' :: chars => { d with chars := '\n' :: chars, slack := 0 }
        | _ => d
      else d
    ({ b with broken := false }, folded)

/-- The text of a block scalar: all breaks at its end are kept, or one, or none. -/
def chomp (b : Block) (text : List Char) : List Char :=
  let body := (text.reverse.dropWhile (· == '\n')).reverse
  let strip := b.head.strip || b.style == .dashed
  let chomped :=
    if strip then (body.reverse.dropWhile (· == ' ')).reverse
    else if b.head.keep then text
    else if body.length < text.length then body ++ ['\n']
    else body
  let chomped := if chomped = ['\n'] then [] else chomped
  if b.head.keep && chomped.isEmpty then ['\n'] else chomped

end Block
end Argot.Document
