import Argot.Eval.Basic
import Argot.Reader
import Argot.ParseCache
import Argot.Vocabulary.Validity
import Argot.Digest

set_option autoImplicit false

/-!
# Interpreters

An interpreter has a vocabulary, a global scope that outlives each program it runs, the
primitives registered in it, a generator of random numbers and a cache of parsed texts.
Several interpreters can live over one store of scopes; what they share is the
`Commons`.

Running a text is refused when it has no tokens or when some of it cannot be read; then
nothing is evaluated.  Otherwise every form gets a result of its own, and a form that
fails does not keep the later ones from being evaluated.

Normative source: SPEC_FULL §6 (entry points) and §13 (interpreter).
-/

namespace Argot

/-- What all interpreters share: the scopes, whether debugging output is wanted, and the
lines of the trace that nobody has collected yet, latest first. -/
structure Commons where
  store : Store
  verbose : Bool
  trace : List TraceEvent
  deriving Inhabited

/-- Nothing has happened yet. -/
def Commons.empty : Commons := ⟨∅, false, []⟩

instance : EmptyCollection Commons := ⟨Commons.empty⟩

/-- An interpreter. -/
structure Interpreter where
  vocabulary : Vocabulary
  lexical : Bool
  eagerIf : Bool
  tracing : Bool
  host : Host
  hash : Text → UInt64
  global : Nat
  primitives : NameMap Primitive
  generator : Generator
  cache : ParseCache

/-- How this interpreter evaluates. -/
def Interpreter.rules (i : Interpreter) : Rules :=
  ⟨i.vocabulary, i.lexical, i.eagerIf, i.tracing, i.host⟩

/-- An interpreter at work. -/
structure Machine where
  interpreter : Interpreter
  commons : Commons

/-- Something an interpreter does; it has no answer when an evaluation takes too long. -/
abbrev Act (α : Type) : Type := StateT Machine Option α

/-- Why a text is not run. -/
inductive Refusal where
  | noInput
  | malformed (error : ReadError)
  deriving DecidableEq, Repr, Inhabited

/-- The refusal as a host program is told about it. -/
def Refusal.report (v : Vocabulary) : Refusal → Report
  | .noInput => .diagnosis .noInput "no input"
  | .malformed e => .diagnosis .parse (e.message v)

/-- The result of one form. -/
abbrev Outcome : Type := Except Failure Value

/-! ## Global scopes -/

/-- Adds a global scope that binds primitives under a registration of their own. -/
def Store.pushGlobal (s : Store) (primitives : NameMap Primitive) : Store :=
  let (registration, s) := s.register
  s.push { Store.globalFrame with bindings := registered registration primitives }

namespace Machine

/-- Forgets every global binding and binds the registered primitives anew. -/
def clear (m : Machine) : Machine :=
  let ⟨i, c⟩ := m
  let store := c.store.pushGlobal i.primitives
  ⟨{ i with global := store.size - 1 }, { c with store }⟩

/-- Binds a name in the global scope. -/
def addGlobal (name : Text) (x : Value) (m : Machine) : Machine :=
  let ⟨i, c⟩ := m
  ⟨i, { c with store := c.store.bind i.global name x }⟩

/-- Registers a function of the host under a name; it outlives clearing. -/
def addFunction (name : Text) (slot : Nat) (m : Machine) : Machine :=
  let ⟨i, c⟩ := m
  let (registration, store) := c.store.register
  let i := { i with primitives := i.primitives.insert name (.host slot) }
  addGlobal name (.builtin ⟨registration, name, .host slot⟩) ⟨i, { c with store }⟩

/-- What a name means globally. -/
def find? (name : Text) (m : Machine) : Option Value :=
  m.commons.store.lookup m.interpreter.global name

/-- Turns tracing on or off. -/
def setTracing (on : Bool) (m : Machine) : Machine :=
  { m with interpreter := { m.interpreter with tracing := on } }

/-- The names bound in the global scope. -/
def globalNames (m : Machine) : List Text := m.commons.store.names m.interpreter.global

/-- The global scope on display. -/
def renderGlobal (label : Text) (m : Machine) : Text :=
  m.commons.store.render m.interpreter.vocabulary label m.interpreter.global

end Machine

/-! ## Reading -/

namespace Interpreter

/-- The tokens of a text. -/
def tokenize (i : Interpreter) (text : Text) : List Text := Argot.tokenize i.vocabulary text

/-- Whether a text ends inside an open list or right after a quote mark. -/
def needsMore (i : Interpreter) (text : Text) : Bool :=
  Argot.needsMore i.vocabulary (i.tokenize text)

end Interpreter

/-- All forms, or the first error. -/
def allForms : List (Except ReadError Value) → Except ReadError (List Value)
  | [] => .ok []
  | .ok x :: rest => return x :: (← allForms rest)
  | .error e :: _ => .error e

/-- The forms of a text in a vocabulary. -/
def readText (v : Vocabulary) (text : Text) : Except Refusal (List Value) :=
  let tokens := tokenize v text
  if tokens.isEmpty then .error .noInput
  else
    match allForms (readAll v tokens) with
    | .ok xs => .ok xs
    | .error e => .error (.malformed e)

/-- The forms of a text, from the cache if it has them.  A text that can be read is
remembered. -/
def Interpreter.read (text : Text) (i : Interpreter) :
    Except Refusal (List Value) × Interpreter :=
  match i.cache.get i.hash text with
  | (some xs, cache) => (.ok xs, { i with cache })
  | (none, cache) =>
    match readText i.vocabulary text with
    | .error e => (.error e, { i with cache })
    | .ok xs => (.ok xs, { i with cache := cache.put i.hash text xs })

/-! ## Running -/

namespace Machine

/-- Evaluates an expression in a scope. -/
def eval (fuel : Nat) (x : Value) (scope : Nat) : Act Outcome := fun m =>
  let ⟨i, ⟨store, verbose, trace⟩⟩ := m
  match Argot.eval i.rules fuel x scope 0 ⟨store, i.generator, trace⟩ with
  | none => none
  | some (outcome, ⟨store, generator, trace⟩) =>
    some (outcome, ⟨{ i with generator }, ⟨store, verbose, trace⟩⟩)

/-- Evaluates expressions one after another in a scope. -/
def evalAll (fuel : Nat) (scope : Nat) : List Value → Act (List Outcome)
  | [] => pure []
  | x :: xs => do
    let y ← eval fuel x scope
    let ys ← evalAll fuel scope xs
    pure (y :: ys)

/-- Reads a text and evaluates its forms in the global scope. -/
def run (fuel : Nat) (text : Text) : Act (Except Refusal (List Outcome)) := do
  let forms ← modifyGet fun ⟨i, c⟩ =>
    let (forms, i) := i.read text
    (forms, ⟨i, c⟩)
  match forms with
  | .error e => pure (.error e)
  | .ok xs => return .ok (← evalAll fuel (← get).interpreter.global xs)

end Machine

/-- The value of the last form, or the first failure.  There is no value without forms. -/
def lastValue : (last : Value) → List Outcome → Outcome
  | last, [] => .ok last
  | _, .ok x :: rest => lastValue x rest
  | _, .error e :: _ => .error e

/-- Runs a text for the value of its last form. -/
def Machine.evalText (fuel : Nat) (text : Text) : Act (Except Report Value) := do
  let v := (← get).interpreter.vocabulary
  match ← run fuel text with
  | .error e => pure (.error (e.report v))
  | .ok outcomes =>
    match lastValue .nil outcomes with
    | .ok x => pure (.ok x)
    | .error e => pure (.error (e.report v))

/-! ## Making interpreters -/

/-- What an interpreter is made with. -/
structure Settings where
  vocabulary : Vocabulary
  lexical : Bool
  eagerIf : Bool
  tracing : Bool
  seed : Int
  cacheCapacity : Nat
  host : Host

/-- How many texts an interpreter remembers unless it is told otherwise. -/
def defaultCacheCapacity : Nat := 64

/-- No host functions. -/
def Host.none : Host := fun _ _ _ => .error (.host .unknown [])

/-- The settings that nobody changed, in a vocabulary. -/
def Settings.standard (v : Vocabulary) : Settings where
  vocabulary := v
  lexical := false
  eagerIf := false
  tracing := false
  seed := 1
  cacheCapacity := defaultCacheCapacity
  host := Host.none

/-- A new interpreter over a store, with nothing but the builtins in its global scope. -/
def Machine.create (s : Settings) (c : Commons) : Machine :=
  Machine.clear
    ⟨{  vocabulary := s.vocabulary
        lexical := s.lexical
        eagerIf := s.eagerIf
        tracing := s.tracing
        host := s.host
        hash := digest
        global := 0
        primitives := s.vocabulary.primitives
        generator := Generator.ofSeed s.seed
        cache := ParseCache.ofCapacity s.cacheCapacity }, c⟩

/-- Evaluates expressions in a scope of the caller's, with an interpreter made for the
purpose.  If the vocabulary is not valid, every expression gets that as its result. -/
def evaluateAll (fuel : Nat) (settings : Settings) (xs : List Value) (scope : Nat)
    (c : Commons) : Option (List (Except Report Value) × Commons) :=
  match settings.vocabulary.validate with
  | .error e => some (xs.map fun _ => .error (.plain e.message), c)
  | .ok () =>
    match Machine.evalAll fuel scope xs (Machine.create settings c) with
    | none => none
    | some (outcomes, m) =>
      some (outcomes.map fun
        | .ok x => .ok x
        | .error e => .error (e.report settings.vocabulary), m.commons)

end Argot
