import Argot.Program

set_option autoImplicit false

/-!
# The command line

Reads the arguments, the files they name and the standard input, and writes what the
program says.

Normative source: SPEC_FULL §10 (command-line driver).
-/

namespace Argot.CommandLine

/-- How deep evaluations may nest. -/
def fuel : Nat := 1000000000

/-- Writes a text as it is. -/
def put (stream : IO.FS.Stream) (t : Text) : IO Unit := do
  stream.write ⟨t.toArray⟩
  stream.flush

/-- Lets something appear. -/
def emit (v : Vocabulary) : Emission → IO Unit
  | .out t => do put (← IO.getStdout) t
  | .err t => do put (← IO.getStderr) t
  | .trace e => do put (← IO.getStdout) (e.render v)

/-- The contents of a file, if it can be read. -/
def readFile (name : Text) : IO (Option Text) := do
  match String.fromUTF8? ⟨name.toArray⟩ with
  | none => return none
  | some path =>
    try return some (← IO.FS.readBinFile path).data.toList
    catch _ => return none

/-- The files of these names. -/
def readFiles (names : List Text) : IO Files := do
  let contents ← names.mapM fun name => do return (name, ← readFile name)
  return fun name => (contents.find? (·.1 == name)).bind Prod.snd

/-- A line of input, byte by byte, without the line feed at its end. -/
partial def readLine (input : IO.FS.Stream) (line : Array UInt8) : IO (Option Text) := do
  match (← input.read 1).data.toList with
  | [] => return if line.isEmpty then none else some line.toList
  | b :: _ => if b = 0x0A then return some line.toList else readLine input (line.push b)

/-- Leads a dialogue until it is over or the input ends. -/
partial def converse (c : Config) (input : IO.FS.Stream) (turn : Turn) (m : Machine) :
    IO UInt32 := do
  if turn = .over then return 0
  emit c.vocabulary (.out (c.dialogue.promptAt turn))
  match ← readLine input #[] with
  | none =>
    emit c.vocabulary (.out Text.newline)
    return 0
  | some line =>
    let line := Text.dropEndWhile (fun b => b == 0x0D || b == 0x0A) line
    match Machine.hear fuel c.dialogue turn line m with
    | none => return 2
    | some ((said, next), m) =>
      said.forM (emit c.vocabulary)
      converse c input next m

/-- Runs the program in a configuration. -/
def run (c : Config) (files : Files) : IO UInt32 := do
  match Machine.opening fuel c files Build.development (Machine.create c.settings ∅) with
  | none => return 2
  | some (.done said code, _) =>
    said.forM (emit c.vocabulary)
    return UInt32.ofNat code
  | some (.dialogue said, m) =>
    said.forM (emit c.vocabulary)
    converse c (← IO.getStdin) .entry m

/-- Understands the arguments and runs the program. -/
def start (args : List String) : IO UInt32 := do
  match Options.default.parse (args.map Text.ofString) with
  | .error e =>
    let usage := Text.ofString "Usage of nylisp:\n" ++ flagHelp
    if e = .helpRequested then
      put (← IO.getStderr) usage
      return 0
    else
      put (← IO.getStderr) (e.message ++ Text.newline ++ usage)
      return 2
  | .ok o =>
    let files ← readFiles (o.vocabularyFile :: o.arguments.take 1)
    match o.validate files with
    | .error e =>
      put (← IO.getStderr)
        (Text.ofString "nylisp command line error: '" ++ e.message ++ Text.ofString "'\n")
      put (← IO.getStdout) "nylisp command line help:\n"
      put (← IO.getStderr) flagHelp
      return 1
    | .ok c => run (c.seeded (← IO.monoNanosNow)) files

end Argot.CommandLine

/-- The program. -/
def main (args : List String) : IO UInt32 := Argot.CommandLine.start args
