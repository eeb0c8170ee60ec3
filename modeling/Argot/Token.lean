import Argot.Text.Space
import Argot.Vocabulary.Basic

set_option autoImplicit false

/-!
# Tokens

A program is cut into tokens in two steps: the delimiters of the vocabulary are set off
by spaces, and the text is then cut into words.  Cutting never fails; what a word means
is decided when it is read.

The balance of a token sequence tells whether more input is wanted before it can be
read.

Normative source: SPEC_FULL §4.1 (tokenizer) and §13 (prompt: continuation).
-/

namespace Argot

/-! ## Cutting a text into tokens -/

/-- The first of the delimiters that stands at the front of a text.  An empty delimiter
stands nowhere. -/
def leadingDelimiter? (delimiters : List Text) (t : Text) : Option Text :=
  delimiters.find? fun d => !d.isEmpty && (Text.after? d t).isSome

/-- The text from `skip` bytes on, with a space on both sides of every delimiter.
Delimiters are looked for from left to right and do not overlap.  An empty delimiter sets
every byte off from the one before it. -/
def setOffFrom (delimiters : List Text) : (skip : Nat) → Text → Text
  | _, [] => []
  | skip + 1, _ :: t => setOffFrom delimiters skip t
  | 0, b :: t =>
    match leadingDelimiter? delimiters (b :: t) with
    | some d => Text.space ++ d ++ Text.space ++ setOffFrom delimiters (d.length - 1) t
    | none =>
      let gap := if delimiters.any List.isEmpty then Text.space else []
      gap ++ b :: setOffFrom delimiters 0 t

/-- The text with a space on both sides of every delimiter. -/
def setOff (delimiters : List Text) (t : Text) : Text := setOffFrom delimiters 0 t

/-- The tokens of a program. -/
def tokenize (v : Vocabulary) (t : Text) : List Text := (setOff v.delimiters t).fields

/-! ## Balance -/

/-- How many lists a token sequence leaves open, and whether it ends in a quote mark that
waits for its form.  The depth is negative when a list is closed that was not open. -/
structure Balance where
  depth : Int
  dangling : Bool
  deriving DecidableEq, Repr

/-- The balance of a token sequence that starts inside `depth` lists. -/
def balanceFrom (v : Vocabulary) (depth : Nat) : (last : Option Text) → List Text → Balance
  | last, [] => ⟨depth, last == some v.quoteMark⟩
  | _, tok :: rest =>
    if tok = v.listOpen then balanceFrom v (depth + 1) (some tok) rest
    else if tok = v.listClose then
      match depth with
      | 0 => ⟨-1, false⟩
      | depth + 1 => balanceFrom v depth (some tok) rest
    else balanceFrom v depth (some tok) rest

/-- The balance of a token sequence. -/
def balance (v : Vocabulary) (tokens : List Text) : Balance := balanceFrom v 0 none tokens

/-- Whether the tokens end inside an open list or right after a quote mark. -/
def needsMore (v : Vocabulary) (tokens : List Text) : Bool :=
  let b := balance v tokens
  decide (0 < b.depth) || b.dangling

end Argot
