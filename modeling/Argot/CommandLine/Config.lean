import Argot.CommandLine.Flags
import Argot.Interpreter.Basic
import Argot.Output
import Argot.Repl
import Argot.Vocabulary.Document

set_option autoImplicit false

/-!
# Configurations

Options are put in order before they are used: what is missing gets its usual value, the
file of the vocabulary is read, and what cannot be is refused.  Files are given as a
function from their names to their contents.

Normative source: SPEC_FULL §11.1 (configuration).
-/

namespace Argot

/-- The contents of the files that exist. -/
abbrev Files : Type := Text → Option Text

/-- What the system says about a file that does not exist. -/
def missingFile (name : Text) : Text :=
  Text.ofString "open " ++ name ++ Text.ofString ": no such file or directory"

/-- Why options are refused. -/
inductive ConfigError where
  | unknownFormat (name : Text)
  | unknownProfile (mode : Text)
  | negativeCache
  | noFile (name : Text)
  | malformedDocument
  | vocabulary (e : VocabularyError)
  deriving DecidableEq, Repr, Inhabited

/-- What an error says. -/
def ConfigError.message : ConfigError → Text
  | .unknownFormat name => Format.unknownMessage name
  | .unknownProfile mode =>
    Text.ofString "unknown profile mode '" ++ mode ++ Text.ofString "'"
  | .negativeCache => "parsecache must not be negative"
  | .noFile name => missingFile name
  | .malformedDocument => "vocabulary: malformed document"
  | .vocabulary e => e.message

/-- A configuration that can be used. -/
structure Config where
  /-- the options, with their prompt and their format filled in -/
  options : Options
  format : Format
  vocabulary : Vocabulary
  cacheCapacity : Nat
  deriving Inhabited

/-- The modes of profiling. -/
def profileModes : List Text :=
  ["cpu", "mem", "block", "mutex", "goroutine", "trace"].map Text.ofString

namespace Options

/-- The format that the options name. -/
def format? (o : Options) : Except ConfigError Format :=
  match Format.ofName o.format with
  | .unknown name => .error (.unknownFormat name)
  | f => .ok f

/-- The vocabulary that the options ask for. -/
def vocabulary? (files : Files) (o : Options) : Except ConfigError Vocabulary :=
  if o.vocabularyFile.isEmpty then
    let v := o.vocabulary.getD .pictures
    match v.validate with
    | .ok () => .ok v
    | .error e => .error (.vocabulary e)
  else
    match files o.vocabularyFile with
    | none => .error (.noFile o.vocabularyFile)
    | some t =>
      match Vocabulary.parseDocument t with
      | .ok v => .ok v
      | .error .malformed => .error .malformedDocument
      | .error (.invalid e) => .error (.vocabulary e)

/-- Puts options in order. -/
def validate (files : Files) (o : Options) : Except ConfigError Config := do
  let format ← o.format?
  if !o.profile.isEmpty && !profileModes.contains o.profile then .error (.unknownProfile o.profile)
  else if o.cacheSize < 0 then .error .negativeCache
  else
    let v ← o.vocabulary? files
    let prompt := if o.prompt.isEmpty then Dialogue.defaultPrompt else o.prompt
    .ok
      { options := { o with prompt, format := format.name }
        format
        vocabulary := v
        cacheCapacity := o.cacheSize.toNat }

end Options

namespace Config

/-- The settings of the interpreter that a configuration asks for. -/
def settings (c : Config) : Settings :=
  { Settings.standard c.vocabulary with
    lexical := c.options.lexical
    eagerIf := c.options.eagerIf
    tracing := c.options.tracing
    seed := c.options.seed
    cacheCapacity := c.cacheCapacity }

/-- The dialogue that a configuration asks for. -/
def dialogue (c : Config) : Dialogue := Dialogue.ofSettings c.options.prompt c.format

/-- A seed of zero leaves the choice of the seed to somebody else. -/
def seeded (c : Config) (seed : Int) : Config :=
  if c.options.seed = 0 then { c with options := { c.options with seed } } else c

end Config
end Argot
