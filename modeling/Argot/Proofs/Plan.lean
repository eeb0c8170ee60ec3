import Mathlib.Data.List.Forall2
import Argot.Proofs.Parts
import Argot.Proofs.Run

set_option autoImplicit false

/-!
# The plan of a step

Evaluating an expression takes the values of some expressions inside it, one after the other and
in the scope at hand, and then does a single thing.  A `Plan` is that course: it is a tree that
branches on the values it is given, and at its leaves stands a `Move`.  `Value.plan` reads the plan
off an expression, and a step of evaluation is the run of the plan (`evalStep_eq`).

What holds of every step is then shown along plans: an induction on the tree, with one case for
each move.  The special forms are gone through when a plan is made, and not again for every
invariant.
-/

namespace Argot

/-! ## Moves and plans -/

/-- What a step does in the end. -/
inductive Move where
  /-- answers a value -/
  | answer (x : Value)
  /-- fails -/
  | fail (e : Failure)
  /-- answers what a name means -/
  | lookup (name : Text)
  /-- binds a name and answers the record of it -/
  | define (name : Text) (x : Value)
  /-- answers a closure -/
  | close (params body : Value)
  /-- calls a builtin -/
  | call (b : Builtin) (args : List Value)
  /-- evaluates the body of a block -/
  | block (name : Text) (bindings : List (Text × Value)) (body : Value)
  /-- evaluates the body of a closure -/
  | enter (params body : Value) (home : Option Nat) (bindings : List (Text × Value))

/-- The course of a step. -/
inductive Plan where
  /-- does what is to be done in the end -/
  | move (a : Move)
  /-- evaluates an expression and goes on with its value -/
  | eval (x : Value) (next : Value → Plan)

namespace Plan

/-- Fails. -/
def fail (e : Failure) : Plan := .move (.fail e)

/-- Evaluates an expression and answers its value. -/
def goOn (x : Value) : Plan := .eval x fun y => .move (.answer y)

/-- Fails because there are not exactly `wanted` arguments. -/
def wrongArity (name : Text) (wanted : Nat) (args : List Value) : Plan :=
  fail (.formArity name wanted args.length)

/-- Evaluates arguments from left to right and goes on with their values. -/
def evalAll (next : List Value → Plan) : List Value → Plan
  | [] => next []
  | x :: xs => .eval x fun y => evalAll (fun ys => next (y :: ys)) xs

/-- The plan that a condition picks. -/
def branch (name : Text) (condition : Value) (yes no : Plan) : Plan :=
  match condition.boolean? with
  | some true => yes
  | some false => no
  | none => fail (.conditionNotBoolean name condition)

/-- Choice, with both branches evaluated if it is eager. -/
def choice (eager : Bool) (name : Text) : List Value → Plan
  | [condition, yes, no] => .eval condition fun c =>
    match eager with
    | true => .eval yes fun y => .eval no fun n =>
      branch name c (.move (.answer y)) (.move (.answer n))
    | false => branch name c (goOn yes) (goOn no)
  | args => wrongArity name 3 args

/-- Definition. -/
def definition (name : Text) : List Value → Plan
  | [target, x] =>
    match target.symbolName? with
    | some n => .eval x fun y => .move (.define n y)
    | none => fail (.targetNotSymbol name target)
  | args => wrongArity name 2 args

/-- Abstraction. -/
def abstraction (name : Text) : List Value → Plan
  | [params, body] => .move (.close params body)
  | args => wrongArity name 2 args

/-- Evaluates a block's bindings and goes on with their names and values. -/
def bindings (name : Text) (next : List (Text × Value) → Plan) : List Value → Plan
  | [] => next []
  | binding :: rest =>
    match binding.list? with
    | some [target, x] =>
      match target.symbolName? with
      | some n => .eval x fun y => bindings name (fun ys => next ((n, y) :: ys)) rest
      | none => fail (.bindingNotSymbol name target)
    | _ => fail (.bindingNotPair name binding)

/-- Block. -/
def block (name : Text) : List Value → Plan
  | [items, body] =>
    match items.list? with
    | some items => bindings name (fun values => .move (.block name values body)) items
    | none => fail (.bindingsNotList name items)
  | args => wrongArity name 2 args

/-- A special form. -/
def ofForm (eager : Bool) (form : Form) (name : Text) (args : List Value) : Plan :=
  match form with
  | .choice => choice eager name args
  | .definition => definition name args
  | .abstraction => abstraction name args
  | .block => block name args

/-- Calls a closure. -/
def callClosure (params body : Value) (home : Option Nat) (args : List Value) : Plan :=
  match paramNames params with
  | .error e => fail e
  | .ok names =>
    if names.length = args.length then
      evalAll (fun values => .move (.enter params body home (names.zip values))) args
    else fail (.closureArity names.length args.length)

/-- Calls a function with arguments that are not evaluated yet. -/
def call (head function : Value) (args : List Value) : Plan :=
  match function with
  | .builtin b => evalAll (fun values => .move (.call b values)) args
  | .closure params body home => callClosure params body home args
  | _ => fail (.notCallable head)

end Plan

/-- The course of evaluating an expression. -/
def Value.plan (v : Vocabulary) (eager : Bool) : Value → Plan
  | .quote form => .move (.answer form)
  | .symbol name => .move (.lookup name)
  | .list [] => .move (.answer (.boolean false))
  | .list (head :: args) =>
    match headForm? v head with
    | some (form, name) => Plan.ofForm eager form name args
    | none => .eval head fun function => Plan.call head function args
  | .nil => Plan.fail .nilExpression
  | .scopedLet bindings body => Plan.fail (.unsupported (.scopedLet bindings body))
  | x => .move (.answer x)

/-- Only the plan of a choice depends on whether choices are eager. -/
theorem Value.plan_eq_or_choice (v : Vocabulary) (x : Value) :
    x.plan v true = x.plan v false ∨
      ∃ head args name, x = .list (head :: args) ∧
        ∀ eager, x.plan v eager = Plan.choice eager name args := by
  cases x with
  | list items =>
    cases items with
    | nil => exact .inl rfl
    | cons head args =>
      dsimp only [Value.plan]
      cases headForm? v head with
      | none => exact .inl rfl
      | some named =>
        obtain ⟨form, name⟩ := named
        cases form with
        | choice => exact .inr ⟨head, args, name, rfl, fun _ => rfl⟩
        | _ => exact .inl rfl
  | _ => exact .inl rfl

/-! ## Steps as plans -/

/-- Does it, given a way to evaluate expressions. -/
def Move.run (r : Rules) (ev : Evaluator) (scope depth : Nat) : Move → Run Value
  | .answer x => pure x
  | .fail e => throw e
  | .lookup name => Run.lookup scope name
  | .define name x => do
    Run.bind scope name x
    pure (.list [.symbol name, x, .boolean true])
  | .close params body => pure (.closure params body (if r.lexical then some scope else none))
  | .call b args => do
    Run.record r (.call depth b.name args.length)
    Run.callBuiltin r b args
  | .block name bindings body => do
    let inner ← Run.pushFrame
      { Store.childFrame name scope with bindings := NameMap.ofList bindings }
    ev body inner (depth + 1)
  | .enter params body home bindings => do
    let inner ← Run.pushFrame
      { Store.childFrame r.vocabulary.closureForm (home.getD scope) with
        bindings := NameMap.ofList bindings }
    Run.record r (.enter depth params)
    ev body inner (depth + 1)

namespace Plan

/-- Follows a plan, where `ev` evaluates the expressions in it and `make` makes the move. -/
def follow {M : Type → Type} [Monad M] (ev : Value → M Value) (make : Move → M Value) :
    Plan → M Value
  | .move a => make a
  | .eval x next => do
    let y ← ev x
    (next y).follow ev make

/-- The run of a plan. -/
def run (r : Rules) (ev : Evaluator) (scope depth : Nat) : Plan → Run Value :=
  follow (fun x => ev x scope (depth + 1)) (Move.run r ev scope depth)

section Run

variable (r : Rules) (ev : Evaluator) (name : Text) (scope depth : Nat)

@[simp] theorem run_move (a : Move) : (Plan.move a).run r ev scope depth = a.run r ev scope depth :=
  rfl

@[simp] theorem run_eval (x : Value) (next : Value → Plan) :
    (Plan.eval x next).run r ev scope depth =
      ev x scope (depth + 1) >>= fun y => (next y).run r ev scope depth := rfl

@[simp] theorem run_goOn (x : Value) :
    (goOn x).run r ev scope depth = ev x scope (depth + 1) := by
  simp [goOn, Move.run]

theorem run_evalAll (next : List Value → Plan) (args : List Value) :
    (evalAll next args).run r ev scope depth =
      evalArgs ev scope depth args >>= fun ys => (next ys).run r ev scope depth := by
  induction args generalizing next with
  | nil => simp [evalAll, evalArgs]
  | cons x xs ih => simp [evalAll, evalArgs, ih]

theorem run_branch (condition : Value) (yes no : Plan) :
    (branch name condition yes no).run r ev scope depth =
      chooseBranch name condition (yes.run r ev scope depth) (no.run r ev scope depth) := by
  cases condition with
  | boolean truth => cases truth <;> rfl
  | _ => rfl

theorem run_choice (args : List Value) :
    (choice r.eagerIf name args).run r ev scope depth = evalChoice r ev name scope depth args := by
  rcases args with _ | ⟨condition, _ | ⟨yes, _ | ⟨no, _ | ⟨_, _⟩⟩⟩⟩
  case cons.cons.cons.nil =>
    rw [choice, evalChoice, run_eval]
    refine bind_congr fun c => ?_
    cases r.eagerIf <;> simp [run_branch, Move.run]
  all_goals rfl

theorem run_definition (args : List Value) :
    (definition name args).run r ev scope depth = evalDefinition ev name scope depth args := by
  rcases args with _ | ⟨target, _ | ⟨x, _ | ⟨_, _⟩⟩⟩
  · rfl
  all_goals cases target <;> rfl

theorem run_abstraction (args : List Value) :
    (abstraction name args).run r ev scope depth = evalAbstraction r name scope args := by
  rcases args with _ | ⟨params, _ | ⟨body, _ | ⟨_, _⟩⟩⟩ <;> rfl

theorem run_bindings (next : List (Text × Value) → Plan) (items : List Value) :
    (bindings name next items).run r ev scope depth =
      evalBindings ev name scope depth items >>= fun ys => (next ys).run r ev scope depth := by
  induction items generalizing next with
  | nil => simp [bindings, evalBindings]
  | cons binding rest ih =>
    cases binding with
    | list items =>
      rcases items with _ | ⟨target, _ | ⟨x, _ | ⟨_, _⟩⟩⟩
      · rfl
      · cases target <;> rfl
      · cases target with
        | symbol n => simp [bindings, evalBindings, Value.list?, Value.symbolName?, ih]
        | _ => rfl
      · cases target <;> rfl
    | _ => rfl

theorem run_block (args : List Value) :
    (block name args).run r ev scope depth = evalBlock ev name scope depth args := by
  rcases args with _ | ⟨items, _ | ⟨body, _ | ⟨_, _⟩⟩⟩
  · rfl
  · cases items <;> rfl
  · cases items with
    | list items => exact run_bindings r ev name scope depth _ items
    | _ => rfl
  · cases items <;> rfl

theorem run_ofForm (form : Form) (args : List Value) :
    (ofForm r.eagerIf form name args).run r ev scope depth =
      evalForm r ev form name args scope depth := by
  cases form with
  | choice => exact run_choice r ev name scope depth args
  | definition => exact run_definition r ev name scope depth args
  | abstraction => exact run_abstraction r ev name scope depth args
  | block => exact run_block r ev name scope depth args

theorem run_callClosure (params body : Value) (home : Option Nat) (args : List Value) :
    (callClosure params body home args).run r ev scope depth =
      Argot.callClosure r ev params body home args scope depth := by
  unfold callClosure Argot.callClosure
  cases paramNames params with
  | error e => rfl
  | ok names =>
    dsimp only
    split
    · exact run_evalAll r ev scope depth _ args
    · rfl

theorem run_call (head function : Value) (args : List Value) :
    (call head function args).run r ev scope depth =
      Argot.call r ev head function args scope depth := by
  cases function with
  | builtin b => exact run_evalAll r ev scope depth _ args
  | closure params body home => exact run_callClosure r ev scope depth params body home args
  | _ => rfl

end Run
end Plan

/-- A step of evaluation notes the expression and follows its plan. -/
theorem evalStep_eq (r : Rules) (ev : Evaluator) (x : Value) (scope depth : Nat) :
    evalStep r ev x scope depth = (do
      Run.record r (.eval depth x)
      (x.plan r.vocabulary r.eagerIf).run r ev scope depth) := by
  refine bind_congr fun _ => ?_
  cases x with
  | list items =>
    cases items with
    | nil => rfl
    | cons head args =>
      dsimp only [Value.plan]
      cases headForm? r.vocabulary head with
      | some named => exact (Plan.run_ofForm r ev named.2 scope depth named.1 args).symm
      | none => exact bind_congr fun f => (Plan.run_call r ev scope depth head f args).symm
  | _ => rfl

end Argot
