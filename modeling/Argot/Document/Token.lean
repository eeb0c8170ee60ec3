import Argot.Document.Scalar

set_option autoImplicit false

/-!
# Tokens of documents

A token knows where it starts and how it was written, because the structure of a document
depends on both.

Normative source: SPEC_FULL §12 (vocabulary files).
-/

namespace Argot.Document

/-- A place in a document; lines and columns count from one. -/
structure Position where
  line : Nat
  column : Nat
  deriving DecidableEq, Repr, Inhabited

namespace Position

/-- Some columns further right. -/
def right (p : Position) (n : Nat) : Position := { p with column := p.column + n }

/-- The start of the next line. -/
def nextLine (p : Position) : Position := ⟨p.line + 1, 1⟩

end Position

/-- The kinds of tokens. -/
inductive Kind where
  | documentStart
  | documentEnd
  | directive
  | comment
  | dash
  | question
  | colon
  | comma
  | openList
  | closeList
  | openMap
  | closeMap
  | merge
  | anchor
  | alias
  | tag
  /-- the head of a block scalar -/
  | block
  | plain (s : Scalar)
  | quoted
  deriving DecidableEq, Repr, Inhabited

/-- A token: its text, and its source with whatever was skipped in front of it. -/
structure Token where
  kind : Kind
  text : List Char
  source : List Char
  position : Position
  deriving DecidableEq, Repr, Inhabited

namespace Token

/-- The scalar that a token is. -/
def scalar? (t : Token) : Option Scalar :=
  match t.kind with
  | .plain s => some s
  | .quoted => some (.text (encode t.text))
  | _ => none

end Token

/-! ## Characters -/

/-- Whether a character ends a line. -/
def isBreak (c : Char) : Bool := c == '\n' || c == '\r'

/-- Spaces and tabs. -/
def isBlank (c : Char) : Bool := c == ' ' || c == '\t'

/-- Whether a line that starts here separates documents. -/
def startsSeparator (cs : List Char) : Bool :=
  let mark := (((cs.take 4).reverse.dropWhile fun c => isBlank c || isBreak c)).reverse
  mark == "---".toList || mark == "...".toList

end Argot.Document
