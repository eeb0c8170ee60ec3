import Argot.CommandLine.Config
import Argot.Version

set_option autoImplicit false

/-!
# The program

With a command, the program evaluates it and ends.  With a script, it runs the script and
ends if all went well, or if it has been told to end in any case; otherwise, and without
either, it starts a dialogue.

Normative source: SPEC_FULL §10 (command-line driver) and §11.1 (configuration).
-/

namespace Argot

/-- What is said at the start of a dialogue. -/
def Config.banner (c : Config) (b : Build) : List Emission :=
  if c.options.quiet then []
  else
    [.outLine (Text.ofString "nylisp version " ++ b.version),
      .outLine "press tab to get completion suggestions. Ctrl-d to exit."]

/-- What the program does before a dialogue, if it comes to one. -/
inductive Opening where
  /-- the program ends with an exit code -/
  | done (said : List Emission) (code : Nat)
  /-- a dialogue follows -/
  | dialogue (said : List Emission)
  deriving Repr, Inhabited

namespace Machine

/-- Evaluates a command. -/
def runCommand (fuel : Nat) (c : Config) : Act Opening := do
  let result ← runOutput fuel c.format c.options.command
  let trace ← takeTrace
  match result with
  | .ok lines => return .done (trace ++ lines.map .outLine) 0
  | .error complaint => return .done (trace ++ [.errLine complaint.line]) 1

/-- Runs a script. -/
def runScript (fuel : Nat) (c : Config) (files : Files) (name : Text) : Act Opening := do
  let (said, ok) ←
    match files name with
    | none => pure ([.outLine (missingFile name)], false)
    | some text => do
      let result ← runOutput fuel c.format text
      let trace ← takeTrace
      pure (trace ++ (displayed result).map .outLine, result.isOk)
  if ok then return .done said 0
  else if c.options.exitOnFail then return .done said 1
  else return .dialogue said

/-- Everything up to the first prompt. -/
def opening (fuel : Nat) (c : Config) (files : Files) (b : Build) : Act Opening := do
  if c.options.command ≠ [] then runCommand fuel c
  else
    match c.options.arguments with
    | [] => return .dialogue (c.banner b)
    | name :: _ =>
      match ← runScript fuel c files name with
      | .done said code => return .done said code
      | .dialogue said => return .dialogue (said ++ c.banner b)

/-- The program with all of its input: what appears, and the exit code. -/
def program (fuel : Nat) (c : Config) (files : Files) (b : Build) (input : Text) :
    Act (List Emission × Nat) := do
  match ← opening fuel c files b with
  | .done said code => return (said, code)
  | .dialogue said =>
    let answers ← repl fuel c.dialogue input
    return (said ++ answers, 0)

end Machine

/-- Runs the program. -/
def Config.run (fuel : Nat) (c : Config) (files : Files) (b : Build) (input : Text) :
    Option (List Emission × Nat) :=
  ((Machine.program fuel c files b input).run (Machine.create c.settings ∅)).map Prod.fst

end Argot
