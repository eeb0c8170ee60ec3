import Argot.Datum.Codec
import Argot.Datum.Json
import Argot.Interpreter.Basic
import Argot.MessagePack.Value

set_option autoImplicit false

/-!
# Output

What a user is shown of a run: one line for each form in the chosen format, or a single
line that names the stage at which the run failed.  The format has no influence on the
run itself.

Normative source: SPEC_FULL §13 (host output).
-/

namespace Argot

/-! ## Formats -/

/-- The formats of results. -/
inductive Format where
  | text
  | json
  | messagePack
  | unknown (name : Text)
  deriving DecidableEq, Repr, Inhabited

namespace Format

/-- The format of a name; without a name it is text. -/
def ofName (name : Text) : Format :=
  if name = [] ∨ name = Text.ofString "text" then .text
  else if name = Text.ofString "json" then .json
  else if name = Text.ofString "msgpack" then .messagePack
  else .unknown name

/-- The name of a format. -/
def name : Format → Text
  | .text => "text"
  | .json => "json"
  | .messagePack => "msgpack"
  | .unknown name => name

/-- What is said about a format that nobody knows. -/
def unknownMessage (name : Text) : Text :=
  Text.ofString "unknown format '" ++ name ++ Text.ofString "'"

/-- A value in a format. -/
def render (v : Vocabulary) (x : Value) : Format → Except Report Text
  | .text => .ok (x.print v)
  | .json =>
    match x.toDatum with
    | .ok d => .ok d.toJson
    | .error e => .error e.report
  | .messagePack => .ok x.toMessagePack.hexDump
  | .unknown name => .error (.plain (unknownMessage name))

end Format

/-! ## Runs on display -/

/-- The stages of a run. -/
inductive Stage where
  | tokenizer
  | parser
  | evaluator
  deriving DecidableEq, Repr, Inhabited

/-- The name of a stage. -/
def Stage.name : Stage → Text
  | .tokenizer => "tokenizer"
  | .parser => "parser"
  | .evaluator => "evaluator"

/-- The failure of a run, as a user is told about it. -/
structure Complaint where
  stage : Stage
  message : Text
  deriving DecidableEq, Repr, Inhabited

/-- The line of a complaint. -/
def Complaint.line (c : Complaint) : Text :=
  Text.ofString "ERR<" ++ c.stage.name ++ Text.ofString ">: " ++ c.message

/-- A text that is refused is so by the tokenizer if it has no tokens and by the parser
otherwise. -/
def Refusal.complaint (v : Vocabulary) (r : Refusal) : Complaint :=
  let stage :=
    match r with
    | .noInput => .tokenizer
    | .malformed _ => .parser
  ⟨stage, (r.report v).message⟩

/-- The line of one result. -/
def Outcome.line (v : Vocabulary) (f : Format) : Outcome → Except Complaint Text
  | .error e => .error ⟨.evaluator, e.message v⟩
  | .ok x =>
    match f.render v x with
    | .ok line => .ok line
    | .error report => .error ⟨.evaluator, report.message⟩

/-- The lines of all results, or the first complaint. -/
def outcomeLines (v : Vocabulary) (f : Format) : List Outcome → Except Complaint (List Text)
  | [] => .ok []
  | y :: ys => do
    let line ← Outcome.line v f y
    let lines ← outcomeLines v f ys
    .ok (line :: lines)

/-- The lines of a run. -/
def runLines (v : Vocabulary) (f : Format) :
    Except Refusal (List Outcome) → Except Complaint (List Text)
  | .error r => .error (r.complaint v)
  | .ok outcomes => outcomeLines v f outcomes

/-- What is displayed: the lines of the results, or the one of the complaint. -/
def displayed : Except Complaint (List Text) → List Text
  | .ok lines => lines
  | .error c => [c.line]

/-- Runs a text for display. -/
def Machine.runOutput (fuel : Nat) (f : Format) (text : Text) :
    Act (Except Complaint (List Text)) := do
  let result ← Machine.run fuel text
  return runLines (← get).interpreter.vocabulary f result

/-! ## Emissions -/

/-- Something that appears while a program is at work. -/
inductive Emission where
  | out (t : Text)
  | err (t : Text)
  | trace (e : TraceEvent)
  deriving Repr, Inhabited

/-- A line on the standard output. -/
def Emission.outLine (t : Text) : Emission := .out (t ++ Text.newline)

/-- A line on the standard error. -/
def Emission.errLine (t : Text) : Emission := .err (t ++ Text.newline)

/-- Takes out the lines of the trace that nobody has collected yet. -/
def Machine.takeTrace : Act (List Emission) :=
  modifyGet fun ⟨i, c⟩ => (c.trace.reverse.map .trace, ⟨i, { c with trace := [] }⟩)

end Argot
