import Argot.Number.Integer
import Argot.Text.Quoted
import Argot.Vocabulary.Basic

set_option autoImplicit false

/-!
# Flags

Options are set by flags in front of the other arguments.  A flag starts with one or two
dashes; its value follows after an equals sign or is the next argument, except that a
switch needs none and never takes the next argument.  The first argument that is not a
flag ends the flags, and so does a bare `--`, which is dropped.  If a flag occurs more
than once, the last setting counts.

Normative source: SPEC_FULL §11.1 (configuration).
-/

namespace Argot

/-- What the program is told to do. -/
structure Options where
  command : Text
  exitOnFail : Bool
  quiet : Bool
  tracing : Bool
  plainInput : Bool
  prompt : Text
  vocabularyFile : Text
  vocabulary : Option Vocabulary
  format : Text
  lexical : Bool
  eagerIf : Bool
  seed : Int
  cacheSize : Int
  profile : Text
  profilePath : Text
  arguments : List Text
  deriving Inhabited

/-- The options that nobody sets. -/
def Options.default : Options where
  command := []
  exitOnFail := false
  quiet := false
  tracing := false
  plainInput := false
  prompt := []
  vocabularyFile := []
  vocabulary := none
  format := "text"
  lexical := false
  eagerIf := false
  seed := 0
  cacheSize := 64
  profile := []
  profilePath := []
  arguments := []

/-- The flags. -/
inductive Flag where
  | command
  | exitOnFail
  | quiet
  | tracing
  | plainInput
  | vocabulary
  | format
  | lexical
  | eagerIf
  | seed
  | cacheSize
  | profile
  | profilePath
  deriving DecidableEq, Repr, Inhabited

namespace Flag

/-- The name of a flag. -/
def name : Flag → Text
  | .command => "c"
  | .exitOnFail => "exitonfail"
  | .quiet => "quiet"
  | .tracing => "trace"
  | .plainInput => "noliner"
  | .vocabulary => "vocab"
  | .format => "format"
  | .lexical => "lexical"
  | .eagerIf => "eagerif"
  | .seed => "seed"
  | .cacheSize => "parsecache"
  | .profile => "profile"
  | .profilePath => "profilepath"

/-- What a flag is for. -/
def purpose : Flag → Text
  | .command => "expressions to evaluate"
  | .exitOnFail => "exit on failure instead of starting repl"
  | .quiet => "start repl without printing the version banner"
  | .tracing => "trace every evaluation step (very verbose)"
  | .plainInput => "read plain lines from stdin instead of using line editing"
  | .vocabulary => "yaml file replacing the reserved tokens"
  | .format => "result format: text, json or msgpack"
  | .lexical => "closures capture their defining scope"
  | .eagerIf => "evaluate both branches of if"
  | .seed => "seed for random (0 means time based)"
  | .cacheSize => "number of parsed inputs to remember"
  | .profile => "profile mode: cpu, mem, block, mutex, goroutine, trace"
  | .profilePath => "directory for profile output"

/-- All flags, in the order of their names. -/
def all : List Flag :=
  [.command, .eagerIf, .exitOnFail, .format, .lexical, .plainInput, .cacheSize, .profile,
    .profilePath, .quiet, .seed, .tracing, .vocabulary]

/-- The flag of a name. -/
def ofName? (name : Text) : Option Flag := all.find? (·.name = name)

@[simp] theorem ofName?_name (f : Flag) : ofName? f.name = some f := by
  cases f <;> decide

/-- Whether a flag is a switch, which is on unless its value says otherwise. -/
def isSwitch : Flag → Bool
  | .exitOnFail | .quiet | .tracing | .plainInput | .lexical | .eagerIf => true
  | _ => false

/-- The type of a flag's value, and the value it has unless it is set, where they are
worth mentioning. -/
def hints : Flag → Text × Text
  | .format => ("string", " (default \"text\")")
  | .cacheSize => ("int", " (default 64)")
  | .seed => ("int", [])
  | f => if f.isSwitch then ([], []) else ("string", [])

/-- What is said about a flag on request. -/
def help (f : Flag) : Text :=
  let (type, preset) := f.hints
  Text.ofString "  -" ++ f.name ++ (if type.isEmpty then [] else Text.space ++ type) ++
    Text.ofString "\n    \t" ++ f.purpose ++ preset ++ Text.newline

end Flag

/-- What is said about all flags on request. -/
def flagHelp : Text := Flag.all.flatMap Flag.help

/-- Why the arguments cannot be understood. -/
inductive FlagError where
  | badSyntax (arg : Text)
  | helpRequested
  | undefined (name : Text)
  | noArgument (name : Text)
  | badSwitch (value name : Text)
  | badValue (value name : Text) (fault : IntegerFault)
  deriving DecidableEq, Repr, Inhabited

/-- What is said about an integer that is none. -/
def IntegerFault.message : IntegerFault → Text
  | .malformed => "parse error"
  | .outOfRange => "value out of range"

/-- What an error says. -/
def FlagError.message : FlagError → Text
  | .badSyntax arg => Text.ofString "bad flag syntax: " ++ arg
  | .helpRequested => "flag: help requested"
  | .undefined name => Text.ofString "flag provided but not defined: -" ++ name
  | .noArgument name => Text.ofString "flag needs an argument: -" ++ name
  | .badSwitch value name =>
    Text.ofString "invalid boolean value " ++ value.quoted ++ Text.ofString " for -" ++ name ++
      Text.ofString ": parse error"
  | .badValue value name fault =>
    Text.ofString "invalid value " ++ value.quoted ++ Text.ofString " for flag -" ++ name ++
      Text.ofString ": " ++ fault.message

/-! ## Values -/

/-- The words for the positions of a switch. -/
def switchPosition? (value : Text) : Option Bool :=
  if (["1", "t", "T", "true", "TRUE", "True"].map Text.ofString).contains value then some true
  else if (["0", "f", "F", "false", "FALSE", "False"].map Text.ofString).contains value then
    some false
  else none

/-- Sets a switch. -/
def Options.switch (o : Options) (on : Bool) : Flag → Options
  | .exitOnFail => { o with exitOnFail := on }
  | .quiet => { o with quiet := on }
  | .tracing => { o with tracing := on }
  | .plainInput => { o with plainInput := on }
  | .lexical => { o with lexical := on }
  | .eagerIf => { o with eagerIf := on }
  | _ => o

/-- Sets an option that takes a text or a number. -/
def Options.assign (o : Options) (value : Text) : Flag → Except IntegerFault Options
  | .command => .ok { o with command := value }
  | .vocabulary => .ok { o with vocabularyFile := value }
  | .format => .ok { o with format := value }
  | .profile => .ok { o with profile := value }
  | .profilePath => .ok { o with profilePath := value }
  | .seed => do
    let i ← Integer.parse value
    .ok { o with seed := i }
  | .cacheSize => do
    let i ← Integer.parse value
    .ok { o with cacheSize := i }
  | _ => .ok o

/-- Sets the option of a flag to a value. -/
def Options.set (o : Options) (f : Flag) (value : Text) : Except FlagError Options :=
  if f.isSwitch then
    match switchPosition? value with
    | some on => .ok (o.switch on f)
    | none => .error (.badSwitch value f.name)
  else
    match o.assign value f with
    | .ok o => .ok o
    | .error fault => .error (.badValue value f.name fault)

/-! ## Arguments -/

/-- What an argument is. -/
inductive Argument where
  /-- the first of those that are not flags -/
  | other
  /-- the end of the flags -/
  | terminator
  /-- a flag that is spelled badly -/
  | malformed
  /-- a flag with or without a value -/
  | flag (name : Text) (value : Option Text)
  deriving DecidableEq, Repr, Inhabited

/-- A flag's name, and its value if there is an equals sign. -/
def splitFlag (t : Text) : Text × Option Text :=
  match t.dropWhile (· != Text.byte '=') with
  | [] => (t, none)
  | _ :: value => (t.takeWhile (· != Text.byte '='), some value)

/-- Tells what an argument is. -/
def Argument.ofText (arg : Text) : Argument :=
  match arg with
  | dash :: b :: rest =>
    if dash ≠ Text.byte '-' then .other
    else if b = Text.byte '-' ∧ rest.isEmpty then .terminator
    else
      let body := if b = Text.byte '-' then rest else b :: rest
      if body.head? = some (Text.byte '-') ∨ body.head? = some (Text.byte '=') then .malformed
      else
        let (name, value) := splitFlag body
        .flag name value
  | _ => .other

/-- A flag that nobody knows. -/
def unknownFlag (name : Text) : FlagError :=
  if name = Text.ofString "help" ∨ name = Text.ofString "h" then .helpRequested
  else .undefined name

/-- Sets the options that the arguments name, from left to right. -/
def Options.parse (o : Options) : List Text → Except FlagError Options
  | [] => .ok { o with arguments := [] }
  | arg :: rest =>
    match Argument.ofText arg with
    | .other => .ok { o with arguments := arg :: rest }
    | .terminator => .ok { o with arguments := rest }
    | .malformed => .error (.badSyntax arg)
    | .flag name value =>
      match Flag.ofName? name with
      | none => .error (unknownFlag name)
      | some f =>
        match value with
        | some value => do
          let o ← o.set f value
          o.parse rest
        | none =>
          if f.isSwitch then (o.switch true f).parse rest
          else
            match rest with
            | [] => .error (.noArgument name)
            | value :: rest => do
              let o ← o.set f value
              o.parse rest

end Argot
