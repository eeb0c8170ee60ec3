import Argot.Eval.World

set_option autoImplicit false

/-!
# Evaluation

`evalStep` says how an expression is evaluated, given a way to evaluate the expressions
inside it; each special form is a definition of its own.  `eval` ties the knot: it lets
evaluations nest up to a given number of times and has no answer beyond.

Normative source: SPEC_FULL §4.5 (dispatch), §4.5.1 (special forms), §4.5.2 (call frames)
and §14 (closures, `if`).
-/

namespace Argot

/-- A way to evaluate an expression in a scope, at a depth of the trace. -/
abbrev Evaluator : Type := Value → (scope : Nat) → (depth : Nat) → Run Value

/-- Fails because there are not exactly `wanted` arguments. -/
def wrongArity {α : Type} (name : Text) (wanted : Nat) (args : List Value) : Run α :=
  throw (.formArity name wanted args.length)

/-- Evaluates arguments from left to right, one level deeper. -/
def evalArgs (ev : Evaluator) (scope depth : Nat) : List Value → Run (List Value)
  | [] => pure []
  | x :: xs => do
    let y ← ev x scope (depth + 1)
    let ys ← evalArgs ev scope depth xs
    pure (y :: ys)

/-! ## Special forms -/

/-- The special forms. -/
inductive Form where
  | choice
  | definition
  | abstraction
  | block
  deriving DecidableEq, Repr, Inhabited

/-- The special form that a name stands for.  Should two forms have the same name, the
later one of choice, definition, abstraction and block has it. -/
def Vocabulary.form? (v : Vocabulary) (name : Text) : Option Form :=
  if name = v.letForm then some .block
  else if name = v.closureForm then some .abstraction
  else if name = v.varForm then some .definition
  else if name = v.ifForm then some .choice
  else none

/-- The branch that a condition picks. -/
def chooseBranch {α : Type} (name : Text) (condition : Value) (whenTrue whenFalse : Run α) :
    Run α :=
  match condition with
  | .boolean true => whenTrue
  | .boolean false => whenFalse
  | x => throw (.conditionNotBoolean name x)

/-- Choice: a condition and two branches.  Only the branch that the condition picks is
evaluated, unless the rules ask for both. -/
def evalChoice (r : Rules) (ev : Evaluator) (name : Text) (scope depth : Nat) :
    List Value → Run Value
  | [condition, yes, no] => do
    let c ← ev condition scope (depth + 1)
    if r.eagerIf then
      let y ← ev yes scope (depth + 1)
      let n ← ev no scope (depth + 1)
      chooseBranch name c (pure y) (pure n)
    else
      chooseBranch name c (ev yes scope (depth + 1)) (ev no scope (depth + 1))
  | args => wrongArity name 3 args

/-- Definition: binds a symbol in the scope at hand and answers the record of it. -/
def evalDefinition (ev : Evaluator) (name : Text) (scope depth : Nat) : List Value → Run Value
  | [.symbol n, x] => do
    let y ← ev x scope (depth + 1)
    Run.bind scope n y
    pure (.list [.symbol n, y, .boolean true])
  | [target, _] => throw (.targetNotSymbol name target)
  | args => wrongArity name 2 args

/-- Abstraction: a closure of its two arguments, neither of which is evaluated. -/
def evalAbstraction (r : Rules) (name : Text) (scope : Nat) : List Value → Run Value
  | [params, body] => pure (.closure params body (if r.lexical then some scope else none))
  | args => wrongArity name 2 args

/-- The names and values of a block's bindings.  All values are evaluated in the scope
around the block, so no binding sees another one. -/
def evalBindings (ev : Evaluator) (name : Text) (scope depth : Nat) :
    List Value → Run (List (Text × Value))
  | [] => pure []
  | .list [.symbol n, x] :: rest => do
    let y ← ev x scope (depth + 1)
    let ys ← evalBindings ev name scope depth rest
    pure ((n, y) :: ys)
  | .list [target, _] :: _ => throw (.bindingNotSymbol name target)
  | x :: _ => throw (.bindingNotPair name x)

/-- Block: evaluates its body in a new scope with the given bindings. -/
def evalBlock (ev : Evaluator) (name : Text) (scope depth : Nat) : List Value → Run Value
  | [.list bindings, body] => do
    let values ← evalBindings ev name scope depth bindings
    let inner ← Run.pushFrame
      { Store.childFrame name scope with bindings := NameMap.ofList values }
    ev body inner (depth + 1)
  | [x, _] => throw (.bindingsNotList name x)
  | args => wrongArity name 2 args

/-- Evaluates a special form. -/
def evalForm (r : Rules) (ev : Evaluator) (form : Form) (name : Text) (args : List Value)
    (scope depth : Nat) : Run Value :=
  match form with
  | .choice => evalChoice r ev name scope depth args
  | .definition => evalDefinition ev name scope depth args
  | .abstraction => evalAbstraction r name scope args
  | .block => evalBlock ev name scope depth args

/-! ## Calls -/

/-- The name of a symbol. -/
def Value.symbolName? : Value → Option Text
  | .symbol n => some n
  | _ => none

/-- The names of a closure's parameters. -/
def paramNames : Value → Except Failure (List Text)
  | .list items =>
    match items.mapM Value.symbolName? with
    | some names => .ok names
    | none => .error (.paramNotSymbol (.list items))
  | x => .error (.paramsNotList x)

/-- Calls a closure: its body is evaluated in a new scope that binds the parameters to the
arguments.  The new scope is under the one that the closure remembers, or else under the
one it is called from. -/
def callClosure (r : Rules) (ev : Evaluator) (params body : Value) (home : Option Nat)
    (args : List Value) (scope depth : Nat) : Run Value :=
  match paramNames params with
  | .error e => throw e
  | .ok names =>
    if names.length = args.length then do
      let values ← evalArgs ev scope depth args
      let inner ← Run.pushFrame
        { Store.childFrame r.vocabulary.closureForm (home.getD scope) with
          bindings := NameMap.ofList (names.zip values) }
      Run.record r (.enter depth params)
      ev body inner (depth + 1)
    else throw (.closureArity names.length args.length)

/-- Calls a function with arguments that are not evaluated yet. -/
def call (r : Rules) (ev : Evaluator) (head function : Value) (args : List Value)
    (scope depth : Nat) : Run Value :=
  match function with
  | .builtin b => do
    let values ← evalArgs ev scope depth args
    Run.record r (.call depth b.name values.length)
    Run.callBuiltin r b values
  | .closure params body home => callClosure r ev params body home args scope depth
  | _ => throw (.notCallable head)

/-- The special form that the head of a list names. -/
def headForm? (v : Vocabulary) : Value → Option (Form × Text)
  | .symbol n => (v.form? n).map (·, n)
  | _ => none

/-! ## Expressions -/

/-- Evaluates an expression, given a way to evaluate the expressions inside it. -/
def evalStep (r : Rules) (ev : Evaluator) : Evaluator := fun x scope depth => do
  Run.record r (.eval depth x)
  match x with
  | .quote form => pure form
  | .number _ | .boolean _ | .string _ | .builtin _ | .closure _ _ _ => pure x
  | .symbol name => Run.lookup scope name
  | .list [] => pure (.boolean false)
  | .list (head :: args) =>
    match headForm? r.vocabulary head with
    | some (form, name) => evalForm r ev form name args scope depth
    | none => do
      let function ← ev head scope (depth + 1)
      call r ev head function args scope depth
  | .nil => throw .nilExpression
  | .scopedLet _ _ => throw (.unsupported x)

/-- Evaluates an expression in a scope, with evaluations nested at most `fuel` deep. -/
def eval (r : Rules) : (fuel : Nat) → Evaluator
  | 0 => fun _ _ _ => Run.exhausted
  | fuel + 1 => evalStep r (eval r fuel)

end Argot
