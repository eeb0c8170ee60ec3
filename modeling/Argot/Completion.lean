import Argot.Command
import Argot.Completion.Ranking
import Argot.Interpreter.Basic

set_option autoImplicit false

/-!
# Completion

Completing a line replaces the word at its end by the names that match it: those visible
from the global scope and the special forms, or the commands if the line is nothing but
the beginning of one.

Normative source: SPEC_FULL §13 (prompt: completion).
-/

namespace Argot

/-- Where the last word of a line starts: after the last blank and the last delimiter. -/
def wordStart (v : Vocabulary) (line : Text) : Nat :=
  let ends := (Text.space :: [0x09] :: v.delimiters).filterMap fun d =>
    (Text.lastOffset? d line).map (· + d.length)
  ends.foldl max 0

/-- The names that may complete a word. -/
def Machine.candidates (m : Machine) (atStart : Bool) (word : Text) : List Text :=
  if atStart && startsWithPoint word then Command.all.map Command.word
  else
    m.commons.store.visibleNames m.interpreter.global ++ m.interpreter.vocabulary.specialForms

/-- The ways to complete a line, the best first. -/
def Machine.completions (m : Machine) (line : Text) : List Text :=
  let start := wordStart m.interpreter.vocabulary line
  let lead := line.take start
  let word := line.drop start
  if word.isEmpty then []
  else (Ranking.rank word (m.candidates (start = 0) word)).map (lead ++ ·)

end Argot
