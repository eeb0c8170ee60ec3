import Argot.Command
import Argot.Outline
import Argot.Output

set_option autoImplicit false

/-!
# The prompt

A dialogue reads lines and answers them.  A line that leaves a list open, or ends in a
quote mark, is continued by the lines after it until it does not, and what has come
together then is one *entry*.  A command is never continued.  An entry that still wants
more when the input ends is dropped.

The dialogue proceeds line by line (`Machine.hear`); `Machine.converse` takes all lines
of an input, with a prompt before each.

Normative source: SPEC_FULL §13 (prompt).
-/

namespace Argot

/-- How a dialogue is led. -/
structure Dialogue where
  prompt : Text
  format : Format
  deriving DecidableEq, Repr, Inhabited

namespace Dialogue

/-- The prompt of a dialogue that has none of its own. -/
def defaultPrompt : Text := "nylisp> "

/-- The prompt for a line that continues an entry. -/
def continuationPrompt : Text := "... "

/-- A dialogue with these settings, where no prompt means the usual one. -/
def ofSettings (prompt : Text) (format : Format) : Dialogue :=
  ⟨if prompt.isEmpty then defaultPrompt else prompt, format⟩

end Dialogue

/-- What a dialogue is waiting for. -/
inductive Turn where
  /-- a new entry -/
  | entry
  /-- more of an entry of which this is the beginning -/
  | more (beginning : Text)
  /-- nothing -/
  | over
  deriving DecidableEq, Repr, Inhabited

/-- The prompt before a line. -/
def Dialogue.promptAt (d : Dialogue) : Turn → Text
  | .more _ => continuationPrompt
  | _ => d.prompt

/-- The entry so far, with another line. -/
def Turn.extend : Turn → Text → Text
  | .more beginning, line => beginning ++ Text.newline ++ line
  | _, line => line

/-- Whether an entry is to be continued. -/
def Interpreter.continues (i : Interpreter) (entry : Text) : Bool :=
  !startsWithPoint entry.trim && i.needsMore entry

/-! ## Commands -/

/-- The outlines of forms up to the first that cannot be read. -/
def outlineLines (v : Vocabulary) : List (Except ReadError Value) → List Emission
  | [] => []
  | .ok x :: rest => .outLine (x.outline 0) :: outlineLines v rest
  | .error e :: _ => [.outLine ((Refusal.malformed e).complaint v).line]

/-- The outlines of the forms of a text. -/
def Interpreter.outlines (i : Interpreter) (text : Text) : List Emission :=
  let tokens := i.tokenize text
  if tokens.isEmpty then [.outLine (Refusal.noInput.complaint i.vocabulary).line]
  else outlineLines i.vocabulary (readAll i.vocabulary tokens)

/-- A switch and its new position. -/
def switchLine (name : Text) (on : Bool) : Emission :=
  .outLine (name ++ Text.ofString ": " ++ Text.ofString (if on then "true" else "false") ++
    Text.ofString ".")

/-- The statistics of a cache. -/
def ParseCache.summary (c : ParseCache) : Text :=
  Text.ofString "parse cache: " ++ Text.ofNat c.size ++ Text.ofString " entries, " ++
    Text.ofNat c.hits ++ Text.ofString " hits, " ++ Text.ofNat c.misses ++
    Text.ofString " misses."

namespace Machine

/-- Obeys a command. -/
def obey (c : Command) (rest : Text) (m : Machine) : List Emission × Machine :=
  match c with
  | .ls => ([.out (m.renderGlobal "global")], m)
  | .ast => (m.interpreter.outlines rest, m)
  | .clear => ([.outLine "global scope reset."], m.clear)
  | .trace =>
    let on := !m.interpreter.tracing
    ([switchLine "trace" on], m.setTracing on)
  | .verb =>
    let on := !m.commons.verbose
    ([switchLine "verbose" on], { m with commons := { m.commons with verbose := on } })
  | .cache => ([.outLine m.interpreter.cache.summary], m)
  | .quit => ([], m)

/-! ## Lines -/

/-- Answers a complete entry. -/
def answer (fuel : Nat) (d : Dialogue) (entry : Text) : Act (List Emission × Turn) := do
  match Entry.ofText entry with
  | .blank => return ([], .entry)
  | .command word rest =>
    match Command.ofWord? word with
    | none => return ([.outLine (Text.ofString "unknown command " ++ word)], .entry)
    | some .quit => return ([], .over)
    | some c => return (← modifyGet (obey c rest), .entry)
  | .program text =>
    let lines := displayed (← runOutput fuel d.format text)
    let trace ← takeTrace
    return (trace ++ lines.map .outLine, .entry)

/-- Takes in a line. -/
def hear (fuel : Nat) (d : Dialogue) (turn : Turn) (line : Text) :
    Act (List Emission × Turn) := do
  let entry := turn.extend line
  if (← get).interpreter.continues entry then return ([], .more entry)
  else answer fuel d entry

/-- A dialogue over the lines of an input. -/
def converse (fuel : Nat) (d : Dialogue) : Turn → List Text → Act (List Emission)
  | .over, _ => return []
  | turn, [] => return [.out (d.promptAt turn), .out Text.newline]
  | turn, line :: rest => do
    let (said, next) ← hear fuel d turn line
    let later ← converse fuel d next rest
    return .out (d.promptAt turn) :: (said ++ later)

end Machine

/-- The lines of an input, without what ends them. -/
def inputLines (input : Text) : List Text :=
  input.lines.map (Text.dropEndWhile fun b => b == 0x0D || b == 0x0A)

/-- A dialogue over an input. -/
def Machine.repl (fuel : Nat) (d : Dialogue) (input : Text) : Act (List Emission) :=
  converse fuel d .entry (inputLines input)

end Argot
