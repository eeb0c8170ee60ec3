import Argot.Scope
import Argot.Builtin

set_option autoImplicit false

/-!
# The world of an evaluation

What an evaluation reads without changing it, the `Rules`, and what it changes, the
`World`: the scopes, the generator of random numbers, and the trace.  A run ends with a
value or with a failure, and in a world either way; it has no answer at all when the
evaluation goes on for longer than it was allowed to.

Normative source: SPEC_FULL §4.5 (evaluator) and §11.3 (tracing).
-/

namespace Argot

/-! ## Traces -/

/-- One line of a trace, with the depth at which it was written. -/
inductive TraceEvent where
  | eval (depth : Nat) (x : Value)
  | call (depth : Nat) (name : Text) (args : Nat)
  | enter (depth : Nat) (params : Value)
  deriving Repr, Inhabited

namespace TraceEvent

/-- What happened. -/
def describe (v : Vocabulary) : TraceEvent → Text
  | .eval _ x => Text.ofString "eval " ++ x.print v
  | .call _ name args =>
    Text.ofString "call " ++ name ++ Text.ofString " with " ++ Text.ofNat args ++
      Text.ofString " args"
  | .enter _ params => Text.ofString "enter closure " ++ params.print v

/-- How deep it happened. -/
def depth : TraceEvent → Nat
  | .eval d _ => d
  | .call d _ _ => d
  | .enter d _ => d

/-- The line of a trace, indented by its depth. -/
def render (v : Vocabulary) (e : TraceEvent) : Text :=
  Text.ofString "trace " ++ List.replicate (2 * e.depth) 0x20 ++ e.describe v ++ Text.newline

end TraceEvent

/-! ## Rules and worlds -/

/-- How expressions are evaluated.  With `lexical`, closures remember the scope they are
made in; with `eagerIf`, both branches of a choice are evaluated. -/
structure Rules where
  vocabulary : Vocabulary
  lexical : Bool
  eagerIf : Bool
  tracing : Bool
  host : Host

/-- What an evaluation may change.  The trace has its latest line first. -/
structure World where
  store : Store
  generator : Generator
  trace : List TraceEvent
  deriving Inhabited

/-- An evaluation: nothing when it takes too long, otherwise a value or a failure, and
the world it leaves behind. -/
abbrev Run (α : Type) : Type := ExceptT Failure (StateT World Option) α

namespace Run

/-- No answer. -/
def exhausted {α : Type} : Run α := fun _ => none

/-- Writes a line of the trace when tracing is on. -/
def record (r : Rules) (e : TraceEvent) : Run Unit :=
  if r.tracing then modify fun w => { w with trace := e :: w.trace } else pure ()

/-- Adds a scope and answers its number. -/
def pushFrame (f : Frame) : Run Nat :=
  modifyGet fun w => (w.store.size, { w with store := w.store.push f })

/-- Binds a name in a scope. -/
def bind (scope : Nat) (name : Text) (x : Value) : Run Unit :=
  modify fun w => { w with store := w.store.bind scope name x }

/-- What a name means in a scope. -/
def lookup (scope : Nat) (name : Text) : Run Value := do
  match (← get).store.lookup scope name with
  | some x => pure x
  | none => throw (.unboundSymbol name)

/-- Calls a builtin with evaluated arguments. -/
def callBuiltin (r : Rules) (b : Builtin) (args : List Value) : Run Value := do
  let answer ← modifyGet fun w =>
    let (answer, g) := b.op.apply r.host b.name args w.generator
    (answer, { w with generator := g })
  match answer with
  | .ok x => pure x
  | .error e => throw e

end Run
end Argot
