import Argot.Text.Space

set_option autoImplicit false

/-!
# Commands

At the prompt, a line that starts with a point is a command to the prompt itself and not
a program.

Normative source: SPEC_FULL §13 (prompt: commands).
-/

namespace Argot

/-- The commands. -/
inductive Command where
  | ast
  | cache
  | clear
  | ls
  | quit
  | trace
  | verb
  deriving DecidableEq, Repr, Inhabited

namespace Command

/-- The word that gives a command. -/
def word : Command → Text
  | .ast => ".ast"
  | .cache => ".cache"
  | .clear => ".clear"
  | .ls => ".ls"
  | .quit => ".quit"
  | .trace => ".trace"
  | .verb => ".verb"

/-- All commands, in the order of their words. -/
def all : List Command := [.ast, .cache, .clear, .ls, .quit, .trace, .verb]

/-- The command that a word gives. -/
def ofWord? (word : Text) : Option Command := all.find? (·.word = word)

@[simp] theorem ofWord?_word (c : Command) : ofWord? c.word = some c := by
  cases c <;> decide

end Command

/-- Whether a text starts with a point. -/
def startsWithPoint (t : Text) : Bool := t.head? == some (Text.byte '.')

/-- What is entered at the prompt. -/
inductive Entry where
  | blank
  | command (word rest : Text)
  | program (text : Text)
  deriving DecidableEq, Repr, Inhabited

/-- Sorts out what was entered.  The word of a command is the first word of the entry,
and the rest is what follows it. -/
def Entry.ofText (t : Text) : Entry :=
  match t.fields with
  | [] => .blank
  | word :: _ =>
    if startsWithPoint word then
      let body := t.trim
      .command word ((Text.after? word body).getD body).trim
    else .program t

end Argot
