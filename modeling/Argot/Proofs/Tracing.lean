import Mathlib.Data.List.Chain
import Argot.Proofs.Acts
import Argot.Proofs.Plan

set_option autoImplicit false

/-!
# What a trace tells

A trace is written line by line while an expression is evaluated.  `survey` is an evaluator that
has no trace and knows no depth: it keeps the tree of its steps (`Deed`).  A step is the evaluation
of one expression, and in it there are the steps for the expressions inside, the calls of builtins
and the closures that are entered, in the order in which they happened, and as far as the step
came if it failed.

Every evaluation tells a survey (`eval_tells`): it gives the same answer, leaves the same scopes and
the same generator behind, and if there is a trace, then what it adds to the trace are the lines of
the tree (`Deed.lines`), each at its depth in the tree.  So evaluation is the same with a trace and
without, and how deep the lines of a trace can be is a question about trees.
-/

namespace Argot

/-! ## Trees of steps -/

/-- Something that happens in an evaluation. -/
inductive Deed where
  /-- a step: an expression is evaluated, and this is what happens in doing so -/
  | step (x : Value) (inside : List Deed)
  /-- a builtin is called with this number of arguments -/
  | call (name : Text) (args : Nat)
  /-- a closure with these parameters is entered -/
  | enter (params : Value)

namespace Deed

mutual

/-- The steps of a tree, each before those inside it, with their depths. -/
def preorder (depth : Nat) : Deed → List (Nat × Value)
  | .step x inside => (depth, x) :: preorderOfAll (depth + 1) inside
  | .call _ _ => []
  | .enter _ => []

/-- The steps of several trees. -/
def preorderOfAll (depth : Nat) : List Deed → List (Nat × Value)
  | [] => []
  | deed :: deeds => preorder depth deed ++ preorderOfAll depth deeds

end

mutual

/-- The lines of a tree in a trace, with its steps at the given depth.  What is not a step belongs
to the step around it, and has the depth of that. -/
def lines (depth : Nat) : Deed → List TraceEvent
  | .step x inside => .eval depth x :: linesOfAll (depth + 1) inside
  | .call name args => [.call (depth - 1) name args]
  | .enter params => [.enter (depth - 1) params]

/-- The lines of several trees. -/
def linesOfAll (depth : Nat) : List Deed → List TraceEvent
  | [] => []
  | deed :: deeds => lines depth deed ++ linesOfAll depth deeds

end

theorem linesOfAll_append (depth : Nat) (before after : List Deed) :
    linesOfAll depth (before ++ after) = linesOfAll depth before ++ linesOfAll depth after := by
  induction before with
  | nil => rfl
  | cons deed before ih => rw [List.cons_append, linesOfAll, ih, linesOfAll, List.append_assoc]

end Deed

/-- The step that a line of a trace tells of, with its depth. -/
def TraceEvent.step? : TraceEvent → Option (Nat × Value)
  | .eval depth x => some (depth, x)
  | .call _ _ _ => none
  | .enter _ _ => none

/-! ### Lines and depths -/

namespace Deed

mutual

/-- The steps that the lines of a tree tell of are its steps. -/
theorem filterMap_lines (depth : Nat) :
    (deed : Deed) → (lines depth deed).filterMap TraceEvent.step? = preorder depth deed
  | .step x inside => by
    rw [lines, preorder, ← filterMap_linesOfAll (depth + 1) inside]
    rfl
  | .call name args => rfl
  | .enter params => rfl

theorem filterMap_linesOfAll (depth : Nat) :
    (deeds : List Deed) →
      (linesOfAll depth deeds).filterMap TraceEvent.step? = preorderOfAll depth deeds
  | [] => rfl
  | deed :: deeds => by
    rw [linesOfAll, preorderOfAll, List.filterMap_append, filterMap_lines depth deed,
      filterMap_linesOfAll depth deeds]

end

mutual

/-- No step of a tree is above the tree. -/
theorem le_of_mem_preorder {depth : Nat} {entry : Nat × Value} :
    (deed : Deed) → entry ∈ preorder depth deed → depth ≤ entry.1
  | .step x inside, member => by
    rw [preorder, List.mem_cons] at member
    rcases member with rfl | member
    · exact Nat.le_refl depth
    · exact Nat.le_of_succ_le (le_of_mem_preorderOfAll inside member)
  | .call _ _, member => absurd member List.not_mem_nil
  | .enter _, member => absurd member List.not_mem_nil

theorem le_of_mem_preorderOfAll {depth : Nat} {entry : Nat × Value} :
    (deeds : List Deed) → entry ∈ preorderOfAll depth deeds → depth ≤ entry.1
  | [], member => absurd member List.not_mem_nil
  | deed :: deeds, member => by
    rw [preorderOfAll, List.mem_append] at member
    rcases member with member | member
    · exact le_of_mem_preorder deed member
    · exact le_of_mem_preorderOfAll deeds member

end

mutual

/-- No line of a tree is above the step around it. -/
theorem le_of_mem_lines {depth : Nat} {e : TraceEvent} :
    (deed : Deed) → e ∈ lines depth deed → depth - 1 ≤ e.depth
  | .step x inside, member => by
    rw [lines, List.mem_cons] at member
    rcases member with rfl | member
    · exact Nat.sub_le depth 1
    · have deeper := le_of_mem_linesOfAll inside member
      omega
  | .call _ _, member => by
    rw [lines, List.mem_singleton] at member
    exact member ▸ Nat.le_refl _
  | .enter _, member => by
    rw [lines, List.mem_singleton] at member
    exact member ▸ Nat.le_refl _

theorem le_of_mem_linesOfAll {depth : Nat} {e : TraceEvent} :
    (deeds : List Deed) → e ∈ linesOfAll depth deeds → depth - 1 ≤ e.depth
  | [], member => absurd member List.not_mem_nil
  | deed :: deeds, member => by
    rw [linesOfAll, List.mem_append] at member
    rcases member with member | member
    · exact le_of_mem_lines deed member
    · exact le_of_mem_linesOfAll deeds member

end

/-- Each step is at most one deeper than the one before it. -/
def Descends (steps : List (Nat × Value)) : Prop := steps.IsChain fun a b => b.1 ≤ a.1 + 1

theorem Descends.append {depth : Nat} {entry : Nat × Value} {before after : List (Nat × Value)}
    (first : Descends (entry :: before)) (low : ∀ a ∈ entry :: before, depth ≤ a.1 + 1)
    (later : ∀ a : Nat × Value, depth ≤ a.1 + 1 → Descends (a :: after)) :
    Descends (entry :: (before ++ after)) := by
  induction before generalizing entry with
  | nil => exact later entry (low entry List.mem_cons_self)
  | cons b before ih =>
    obtain ⟨here, rest⟩ := List.isChain_cons_cons.1 first
    exact List.isChain_cons_cons.2
      ⟨here, ih rest fun a member => low a (List.mem_cons_of_mem entry member)⟩

mutual

/-- Behind a step that is not too far above it, a tree goes down one level at a time. -/
theorem descends_preorder {depth : Nat} {entry : Nat × Value} (near : depth ≤ entry.1 + 1) :
    (deed : Deed) → Descends (entry :: preorder depth deed)
  | .step x inside => by
    rw [preorder]
    exact List.isChain_cons_cons.2 ⟨near, descends_preorderOfAll (Nat.le_refl _) inside⟩
  | .call _ _ => List.isChain_singleton _
  | .enter _ => List.isChain_singleton _

theorem descends_preorderOfAll {depth : Nat} {entry : Nat × Value} (near : depth ≤ entry.1 + 1) :
    (deeds : List Deed) → Descends (entry :: preorderOfAll depth deeds)
  | [] => List.isChain_singleton _
  | deed :: deeds => by
    rw [preorderOfAll]
    refine (descends_preorder near deed).append ?_ fun a near => descends_preorderOfAll near deeds
    intro a member
    rcases List.mem_cons.1 member with rfl | member
    · exact near
    · exact Nat.le_succ_of_le (le_of_mem_preorder deed member)

end

end Deed

/-! ## Surveys -/

/-- What an evaluation works on. -/
structure Scene where
  store : Store
  generator : Generator

/-- What is known at the end of a survey. -/
structure Surveyed (α : Type) where
  deeds : List Deed
  answer : Except Failure α
  scene : Scene

/-- An evaluation that keeps what happens in it. -/
def Survey (α : Type) : Type := Scene → Option (Surveyed α)

namespace Survey

variable {α β : Type}

/-- Goes on with an answer.  What has happened is kept, also when there is a failure. -/
def andThen (m : Survey α) (f : α → Survey β) : Survey β := fun scene =>
  match m scene with
  | none => none
  | some ⟨deeds, .error e, scene'⟩ => some ⟨deeds, .error e, scene'⟩
  | some ⟨deeds, .ok x, scene'⟩ =>
    (f x scene').map fun out => { out with deeds := deeds ++ out.deeds }

instance : Monad Survey where
  pure x := fun scene => some ⟨[], .ok x, scene⟩
  bind := andThen

/-- No answer. -/
def exhausted : Survey α := fun _ => none

/-- Fails. -/
def fail (e : Failure) : Survey α := fun scene => some ⟨[], .error e, scene⟩

/-- Keeps a deed. -/
def keep (deed : Deed) : Survey Unit := fun scene => some ⟨[deed], .ok (), scene⟩

/-- Makes all that happens a step. -/
def asStep (x : Value) (m : Survey α) : Survey α := fun scene =>
  (m scene).map fun out => { out with deeds := [.step x out.deeds] }

/-- Adds a scope and answers its number. -/
def pushFrame (f : Frame) : Survey Nat := fun scene =>
  some ⟨[], .ok scene.store.size, { scene with store := scene.store.push f }⟩

/-- Binds a name in a scope. -/
def define (scope : Nat) (name : Text) (x : Value) : Survey Unit := fun scene =>
  some ⟨[], .ok (), { scene with store := scene.store.bind scope name x }⟩

/-- What a name means in a scope. -/
def lookup (scope : Nat) (name : Text) : Survey Value := fun scene =>
  match scene.store.lookup scope name with
  | some x => some ⟨[], .ok x, scene⟩
  | none => some ⟨[], .error (.unboundSymbol name), scene⟩

/-- Calls a builtin with evaluated arguments. -/
def callBuiltin (r : Rules) (b : Builtin) (args : List Value) : Survey Value := fun scene =>
  let (answer, g) := b.op.apply r.host b.name args scene.generator
  some ⟨[], answer, { scene with generator := g }⟩

end Survey

/-- A way to survey the evaluation of an expression in a scope. -/
abbrev Surveyor : Type := Value → (scope : Nat) → Survey Value

/-- Arguments from left to right. -/
def surveyArgs (sv : Surveyor) (scope : Nat) : List Value → Survey (List Value)
  | [] => pure []
  | x :: xs => do
    let y ← sv x scope
    let ys ← surveyArgs sv scope xs
    pure (y :: ys)

/-- The branch that a condition picks. -/
def surveyBranch {α : Type} (name : Text) (condition : Value) (yes no : Survey α) : Survey α :=
  match condition with
  | .boolean true => yes
  | .boolean false => no
  | x => .fail (.conditionNotBoolean name x)

/-- A condition and two branches, both of which are evaluated if the rules ask for it. -/
def surveyChoice (r : Rules) (sv : Surveyor) (name : Text) (scope : Nat) :
    List Value → Survey Value
  | [condition, yes, no] => do
    let c ← sv condition scope
    if r.eagerIf then
      let y ← sv yes scope
      let n ← sv no scope
      surveyBranch name c (pure y) (pure n)
    else surveyBranch name c (sv yes scope) (sv no scope)
  | args => .fail (.formArity name 3 args.length)

/-- Binds a symbol and answers the record of it. -/
def surveyDefinition (sv : Surveyor) (name : Text) (scope : Nat) : List Value → Survey Value
  | [.symbol n, x] => do
    let y ← sv x scope
    Survey.define scope n y
    pure (.list [.symbol n, y, .boolean true])
  | [target, _] => .fail (.targetNotSymbol name target)
  | args => .fail (.formArity name 2 args.length)

/-- A closure. -/
def surveyAbstraction (r : Rules) (name : Text) (scope : Nat) : List Value → Survey Value
  | [params, body] => pure (.closure params body (if r.lexical then some scope else none))
  | args => .fail (.formArity name 2 args.length)

/-- The names and values of a block's bindings. -/
def surveyBindings (sv : Surveyor) (name : Text) (scope : Nat) :
    List Value → Survey (List (Text × Value))
  | [] => pure []
  | .list [.symbol n, x] :: rest => do
    let y ← sv x scope
    let ys ← surveyBindings sv name scope rest
    pure ((n, y) :: ys)
  | .list [target, _] :: _ => .fail (.bindingNotSymbol name target)
  | x :: _ => .fail (.bindingNotPair name x)

/-- A body in a new scope with bindings of its own. -/
def surveyBlock (sv : Surveyor) (name : Text) (scope : Nat) : List Value → Survey Value
  | [.list bindings, body] => do
    let values ← surveyBindings sv name scope bindings
    let inner ← Survey.pushFrame
      { Store.childFrame name scope with bindings := NameMap.ofList values }
    sv body inner
  | [x, _] => .fail (.bindingsNotList name x)
  | args => .fail (.formArity name 2 args.length)

/-- A special form. -/
def surveyForm (r : Rules) (sv : Surveyor) (form : Form) (name : Text) (args : List Value)
    (scope : Nat) : Survey Value :=
  match form with
  | .choice => surveyChoice r sv name scope args
  | .definition => surveyDefinition sv name scope args
  | .abstraction => surveyAbstraction r name scope args
  | .block => surveyBlock sv name scope args

/-- A closure is entered when its arguments are evaluated. -/
def surveyCallClosure (r : Rules) (sv : Surveyor) (params body : Value) (home : Option Nat)
    (args : List Value) (scope : Nat) : Survey Value :=
  match paramNames params with
  | .error e => .fail e
  | .ok names =>
    if names.length = args.length then do
      let values ← surveyArgs sv scope args
      let inner ← Survey.pushFrame
        { Store.childFrame r.vocabulary.closureForm (home.getD scope) with
          bindings := NameMap.ofList (names.zip values) }
      Survey.keep (.enter params)
      sv body inner
    else .fail (.closureArity names.length args.length)

/-- A call with arguments that are not evaluated yet. -/
def surveyCall (r : Rules) (sv : Surveyor) (head function : Value) (args : List Value)
    (scope : Nat) : Survey Value :=
  match function with
  | .builtin b => do
    let values ← surveyArgs sv scope args
    Survey.keep (.call b.name values.length)
    Survey.callBuiltin r b values
  | .closure params body home => surveyCallClosure r sv params body home args scope
  | _ => .fail (.notCallable head)

/-- What happens inside the step for an expression. -/
def surveyInside (r : Rules) (sv : Surveyor) : Surveyor := fun x scope =>
  match x with
  | .quote form => pure form
  | .number _ | .boolean _ | .string _ | .builtin _ | .closure _ _ _ => pure x
  | .symbol name => Survey.lookup scope name
  | .list [] => pure (.boolean false)
  | .list (head :: args) =>
    match headForm? r.vocabulary head with
    | some (form, name) => surveyForm r sv form name args scope
    | none => do
      let function ← sv head scope
      surveyCall r sv head function args scope
  | .nil => .fail .nilExpression
  | .scopedLet _ _ => .fail (.unsupported x)

/-- Evaluates an expression in a scope and keeps the tree of steps, with steps nested at most
`fuel` deep. -/
def survey (r : Rules) : (fuel : Nat) → Surveyor
  | 0 => fun _ _ => Survey.exhausted
  | fuel + 1 => fun x scope => (surveyInside r (survey r fuel) x scope).asStep x

/-! ## Surveys of plans -/

namespace Survey

variable {α β γ : Type}

theorem andThen_pure (m : Survey α) : m.andThen pure = m := by
  funext scene
  unfold andThen
  rcases m scene with _ | ⟨deeds, e | x, scene'⟩
  · rfl
  · rfl
  · simp [Pure.pure]

theorem andThen_andThen (m : Survey α) (f : α → Survey β) (g : β → Survey γ) :
    (m.andThen f).andThen g = m.andThen fun x => (f x).andThen g := by
  funext scene
  unfold andThen
  rcases m scene with _ | ⟨deeds, e | x, scene'⟩
  · rfl
  · rfl
  · dsimp only
    rcases f x scene' with _ | ⟨deeds', e | y, scene''⟩
    · rfl
    · rfl
    · simp [Function.comp_def]

instance : LawfulMonad Survey := LawfulMonad.mk' Survey andThen_pure
  (fun x f => by
    funext scene
    show (f x scene).map _ = f x scene
    cases f x scene <;> rfl)
  andThen_andThen

end Survey

/-- Makes a move. -/
def Move.survey (r : Rules) (sv : Surveyor) (scope : Nat) : Move → Survey Value
  | .answer x => pure x
  | .fail e => .fail e
  | .lookup name => .lookup scope name
  | .define name x => do
    Survey.define scope name x
    pure (.list [.symbol name, x, .boolean true])
  | .close params body => pure (.closure params body (if r.lexical then some scope else none))
  | .call b args => do
    Survey.keep (.call b.name args.length)
    Survey.callBuiltin r b args
  | .block name bindings body => do
    let inner ← Survey.pushFrame
      { Store.childFrame name scope with bindings := NameMap.ofList bindings }
    sv body inner
  | .enter params body home bindings => do
    let inner ← Survey.pushFrame
      { Store.childFrame r.vocabulary.closureForm (home.getD scope) with
        bindings := NameMap.ofList bindings }
    Survey.keep (.enter params)
    sv body inner

namespace Plan

/-- The survey of a plan. -/
def survey (r : Rules) (sv : Surveyor) (scope : Nat) : Plan → Survey Value :=
  follow (sv · scope) (Move.survey r sv scope)

section Survey

variable (r : Rules) (sv : Surveyor) (name : Text) (scope : Nat)

@[simp] theorem survey_eval (x : Value) (next : Value → Plan) :
    (Plan.eval x next).survey r sv scope =
      sv x scope >>= fun y => (next y).survey r sv scope := rfl

theorem survey_evalAll (next : List Value → Plan) (args : List Value) :
    (evalAll next args).survey r sv scope =
      surveyArgs sv scope args >>= fun ys => (next ys).survey r sv scope := by
  induction args generalizing next with
  | nil => simp [evalAll, surveyArgs]
  | cons x xs ih => simp [evalAll, surveyArgs, ih]

theorem survey_branch (condition : Value) (yes no : Plan) :
    (branch name condition yes no).survey r sv scope =
      surveyBranch name condition (yes.survey r sv scope) (no.survey r sv scope) := by
  cases condition with
  | boolean truth => cases truth <;> rfl
  | _ => rfl

theorem survey_goOn (x : Value) : (goOn x).survey r sv scope = sv x scope := bind_pure (sv x scope)

theorem survey_choice (args : List Value) :
    (choice r.eagerIf name args).survey r sv scope = surveyChoice r sv name scope args := by
  rcases args with _ | ⟨condition, _ | ⟨yes, _ | ⟨no, _ | ⟨_, _⟩⟩⟩⟩
  case cons.cons.cons.nil =>
    refine bind_congr fun c => ?_
    cases r.eagerIf with
    | true => exact bind_congr fun y => bind_congr fun n => survey_branch r sv name scope c _ _
    | false =>
      rw [← survey_goOn r sv scope yes, ← survey_goOn r sv scope no]
      exact survey_branch r sv name scope c _ _
  all_goals rfl

theorem survey_bindings (next : List (Text × Value) → Plan) (items : List Value) :
    (bindings name next items).survey r sv scope =
      surveyBindings sv name scope items >>= fun ys => (next ys).survey r sv scope := by
  induction items generalizing next with
  | nil => simp [bindings, surveyBindings]
  | cons binding rest ih =>
    cases binding with
    | list items =>
      rcases items with _ | ⟨target, _ | ⟨x, _ | ⟨_, _⟩⟩⟩
      · rfl
      · cases target <;> rfl
      · cases target with
        | symbol n => simp [bindings, surveyBindings, Value.list?, Value.symbolName?, ih]
        | _ => rfl
      · cases target <;> rfl
    | _ => rfl

theorem survey_ofForm (form : Form) (args : List Value) :
    (ofForm r.eagerIf form name args).survey r sv scope =
      surveyForm r sv form name args scope := by
  cases form with
  | choice => exact survey_choice r sv name scope args
  | definition =>
    rcases args with _ | ⟨target, _ | ⟨x, _ | ⟨_, _⟩⟩⟩
    · rfl
    all_goals cases target <;> rfl
  | abstraction => rcases args with _ | ⟨params, _ | ⟨body, _ | ⟨_, _⟩⟩⟩ <;> rfl
  | block =>
    rcases args with _ | ⟨items, _ | ⟨body, _ | ⟨_, _⟩⟩⟩
    · rfl
    · cases items <;> rfl
    · cases items with
      | list items => exact survey_bindings r sv name scope _ items
      | _ => rfl
    · cases items <;> rfl

theorem survey_call (head function : Value) (args : List Value) :
    (call head function args).survey r sv scope = surveyCall r sv head function args scope := by
  cases function with
  | builtin b => exact survey_evalAll r sv scope _ args
  | closure params body home =>
    show (callClosure params body home args).survey r sv scope =
      surveyCallClosure r sv params body home args scope
    unfold callClosure surveyCallClosure
    cases paramNames params with
    | error e => rfl
    | ok names =>
      dsimp only
      split
      · exact survey_evalAll r sv scope _ args
      · rfl
  | _ => rfl

end Survey
end Plan

/-- What happens inside a step follows the plan of the expression. -/
theorem surveyInside_eq (r : Rules) (sv : Surveyor) (x : Value) (scope : Nat) :
    surveyInside r sv x scope = (x.plan r.vocabulary r.eagerIf).survey r sv scope := by
  cases x with
  | list items =>
    cases items with
    | nil => rfl
    | cons head args =>
      dsimp only [surveyInside, Value.plan]
      cases headForm? r.vocabulary head with
      | some named => exact (Plan.survey_ofForm r sv named.2 scope named.1 args).symm
      | none => exact bind_congr fun f => (Plan.survey_call r sv scope head f args).symm
  | _ => rfl

/-! ## Telling a survey -/

namespace Survey

variable {α β : Type}

/-- The run that a survey tells of, with a trace if one is wanted. -/
def told (tracing : Bool) (depth : Nat) (m : Survey α) : Run α := fun w =>
  (m ⟨w.store, w.generator⟩).map fun out =>
    (out.answer, ⟨out.scene.store, out.scene.generator,
      if tracing then (Deed.linesOfAll depth out.deeds).reverse ++ w.trace else w.trace⟩)

/-- A run that does what a survey says, and writes what happened if there is a trace. -/
def Tells (r : Rules) (depth : Nat) (run : Run α) (m : Survey α) : Prop :=
  run = m.told r.tracing depth

namespace Tells

variable {r : Rules} {depth : Nat}

theorem exhausted : Tells r depth (Run.exhausted : Run α) .exhausted := rfl

/-- What nothing happens in adds nothing to the trace. -/
theorem of_apply {run : Run α} {m : Survey α} (answer : Scene → Except Failure α)
    (after : Scene → Scene) (surveyed : ∀ scene, m scene = some ⟨[], answer scene, after scene⟩)
    (ran : ∀ w : World, run w =
      some (answer ⟨w.store, w.generator⟩,
        { w with
          store := (after ⟨w.store, w.generator⟩).store
          generator := (after ⟨w.store, w.generator⟩).generator })) :
    Tells r depth run m := by
  funext w
  rw [ran, told, surveyed]
  cases r.tracing <;> rfl

theorem pure (x : α) : Tells r depth (Pure.pure x) (Pure.pure x) :=
  of_apply (fun _ => .ok x) id (fun _ => rfl) (Run.pure_apply x)

theorem throw (e : Failure) : Tells r depth (MonadExcept.throw e : Run α) (.fail e) :=
  of_apply (fun _ => .error e) id (fun _ => rfl) (Run.throw_apply e)

theorem pushFrame (f : Frame) : Tells r depth (Run.pushFrame f) (.pushFrame f) :=
  of_apply (fun scene => .ok scene.store.size)
    (fun scene => { scene with store := scene.store.push f }) (fun _ => rfl)
    (Run.pushFrame_apply f)

theorem define (scope : Nat) (name : Text) (x : Value) :
    Tells r depth (Run.bind scope name x) (.define scope name x) :=
  of_apply (fun _ => .ok ()) (fun scene => { scene with store := scene.store.bind scope name x })
    (fun _ => rfl) (Run.bind_apply scope name x)

theorem lookup (scope : Nat) (name : Text) :
    Tells r depth (Run.lookup scope name) (.lookup scope name) := by
  refine of_apply
    (fun scene => (scene.store.lookup scope name).elim (.error (.unboundSymbol name)) .ok) id
    (fun scene => ?_) (Run.lookup_apply scope name)
  unfold Survey.lookup
  cases scene.store.lookup scope name <;> rfl

theorem callBuiltin (b : Builtin) (args : List Value) :
    Tells r depth (Run.callBuiltin r b args) (.callBuiltin r b args) :=
  of_apply (fun scene => (b.op.apply r.host b.name args scene.generator).1)
    (fun scene =>
      { scene with generator := (b.op.apply r.host b.name args scene.generator).2 })
    (fun _ => rfl) (Run.callBuiltin_apply r b args)

/-- The lines of what happens first are written first. -/
theorem andThen {run : Run α} {m : Survey α} {next : α → Run β} {f : α → Survey β}
    (first : Tells r depth run m) (later : ∀ x, Tells r depth (next x) (f x)) :
    Tells r depth (run >>= next) (m >>= f) := by
  funext w
  have surveyed : (m >>= f) ⟨w.store, w.generator⟩ = m.andThen f ⟨w.store, w.generator⟩ := rfl
  rw [Run.andThen_apply, first, told, told, surveyed, Survey.andThen]
  rcases m ⟨w.store, w.generator⟩ with _ | ⟨deeds, e | x, scene⟩
  · rfl
  · rfl
  · simp only [Option.map_some, Option.map_map]
    rw [later, told]
    cases f x scene with
    | none => rfl
    | some out =>
      cases r.tracing with
      | false => rfl
      | true => simp [Deed.linesOfAll_append]

/-- A step writes its own line and then those of what happens in it. -/
theorem asStep {run : Run α} {m : Survey α} (x : Value)
    (inside : Tells r (depth + 1) run m) :
    Tells r depth (Run.record r (.eval depth x) >>= fun _ => run) (m.asStep x) := by
  funext w
  rw [Run.andThen_apply, Run.record_apply, inside]
  simp only [told, Survey.asStep, Option.map_map]
  cases m ⟨w.store, w.generator⟩ with
  | none => rfl
  | some out =>
    cases r.tracing with
    | false => rfl
    | true => simp [Deed.linesOfAll, Deed.lines]

/-- What belongs to a step is written at its depth. -/
theorem call (name : Text) (args : Nat) :
    Tells r (depth + 1) (Run.record r (.call depth name args)) (.keep (.call name args)) := by
  funext w
  rw [Run.record_apply, told]
  cases r.tracing <;> rfl

theorem enter (params : Value) :
    Tells r (depth + 1) (Run.record r (.enter depth params)) (.keep (.enter params)) := by
  funext w
  rw [Run.record_apply, told]
  cases r.tracing <;> rfl

end Tells

end Survey

/-! ## Steps -/

/-- The evaluator tells what the surveyor says, at every depth. -/
def Evaluator.Tells (r : Rules) (ev : Evaluator) (sv : Surveyor) : Prop :=
  ∀ x scope depth, Survey.Tells r depth (ev x scope depth) (sv x scope)

section Steps

variable {r : Rules} {ev : Evaluator} {sv : Surveyor} (tells : ev.Tells r sv) (scope depth : Nat)

include tells

theorem Move.tells_run (a : Move) :
    Survey.Tells r (depth + 1) (a.run r ev scope depth) (a.survey r sv scope) := by
  cases a with
  | answer x => exact .pure x
  | fail e => exact .throw e
  | lookup name => exact .lookup scope name
  | define name x => exact (Survey.Tells.define scope name x).andThen fun _ => .pure _
  | close params body => exact .pure _
  | call b args =>
    exact (Survey.Tells.call b.name args.length).andThen fun _ => .callBuiltin b args
  | block name bindings body =>
    exact (Survey.Tells.pushFrame _).andThen fun inner => tells body inner (depth + 1)
  | enter params body home bindings =>
    exact (Survey.Tells.pushFrame _).andThen fun inner =>
      (Survey.Tells.enter params).andThen fun _ => tells body inner (depth + 1)

theorem Plan.tells_run (p : Plan) :
    Survey.Tells r (depth + 1) (p.run r ev scope depth) (p.survey r sv scope) := by
  induction p with
  | move a => exact a.tells_run tells scope depth
  | eval x next ih => exact (tells x scope (depth + 1)).andThen ih

theorem tells_evalStep :
    (evalStep r ev).Tells r fun x scope => (surveyInside r sv x scope).asStep x := by
  intro x scope depth
  dsimp only
  rw [evalStep_eq, surveyInside_eq]
  exact .asStep x (Plan.tells_run tells scope depth _)

end Steps

/-- **Every evaluation tells what its survey says**, with or without a trace. -/
theorem eval_tells (r : Rules) (fuel : Nat) : (eval r fuel).Tells r (survey r fuel) := by
  induction fuel with
  | zero => exact fun _ _ _ => .exhausted
  | succ fuel ih => exact tells_evalStep ih

/-- A survey does not look at whether there is a trace. -/
theorem survey_tracing (r : Rules) (tracing : Bool) (fuel : Nat) :
    survey { r with tracing } fuel = survey r fuel := by
  induction fuel with
  | zero => rfl
  | succ fuel ih =>
    rw [survey, survey, ih]
    rfl

/-- A survey makes one step of all that happens. -/
theorem deeds_survey {r : Rules} {fuel : Nat} {x : Value} {scope : Nat} {scene : Scene}
    {out : Surveyed Value} (ends : survey r fuel x scope scene = some out) :
    ∃ inside, out.deeds = [.step x inside] := by
  cases fuel with
  | zero => cases ends
  | succ fuel =>
    obtain ⟨within, _, rfl⟩ := Option.map_eq_some_iff.1 ends
    exact ⟨within.deeds, rfl⟩

/-- **A trace changes nothing and lists the steps.**  An expression is evaluated with a trace and
without one to the same answer, with the same scopes and the same generator left behind; without a
trace none is written.  With one, what is written when the evaluation ends, by an answer or by a
failure, are the lines of the tree of its steps, and so

* the first line is the one of the step itself, at the depth where it started;
* the lines that tell of steps are the steps of the tree in preorder, with their depths;
* every other step is deeper than the first, and at most one deeper than the one before it;
* the lines for calls and for closures that are entered are not above the first. -/
theorem trace_is_the_preorder_of_the_steps (r : Rules) (fuel : Nat) (x : Value)
    (scope depth : Nat) (w : World) :
    (eval { r with tracing := true } fuel x scope depth w).map
        (fun out => (out.1, out.2.store, out.2.generator)) =
      (eval { r with tracing := false } fuel x scope depth w).map
        (fun out => (out.1, out.2.store, out.2.generator)) ∧
    (∀ answer w', eval { r with tracing := false } fuel x scope depth w = some (answer, w') →
      w'.trace = w.trace) ∧
    ∀ answer w', eval { r with tracing := true } fuel x scope depth w = some (answer, w') →
      ∃ inside rest,
        survey r fuel x scope ⟨w.store, w.generator⟩ =
          some ⟨[.step x inside], answer, ⟨w'.store, w'.generator⟩⟩ ∧
        w'.trace = (.eval depth x :: rest).reverse ++ w.trace ∧
        (.eval depth x :: rest : List TraceEvent).filterMap TraceEvent.step? =
          (Deed.step x inside).preorder depth ∧
        (∀ step ∈ rest.filterMap TraceEvent.step?, depth + 1 ≤ step.1) ∧
        Deed.Descends ((depth, x) :: rest.filterMap TraceEvent.step?) ∧
        ∀ e ∈ rest, depth ≤ e.depth := by
  have told (tracing : Bool) : eval { r with tracing } fuel x scope depth =
      (survey r fuel x scope).told tracing depth := by
    rw [← survey_tracing r tracing fuel]
    exact eval_tells { r with tracing } fuel x scope depth
  have known (tracing : Bool) :
      eval { r with tracing } fuel x scope depth w = _ := congrFun (told tracing) w
  refine ⟨?_, ?_, ?_⟩
  · rw [known, known, Survey.told, Survey.told, Option.map_map, Option.map_map]
    rfl
  · intro answer w' ends
    rw [known, Survey.told] at ends
    obtain ⟨out, -, same⟩ := Option.map_eq_some_iff.1 ends
    cases same
    rfl
  · intro answer w' ends
    rw [known, Survey.told] at ends
    obtain ⟨out, surveyed, same⟩ := Option.map_eq_some_iff.1 ends
    obtain ⟨inside, deeds⟩ := deeds_survey surveyed
    obtain ⟨deeds', answer', scene⟩ := out
    cases deeds
    cases same
    refine ⟨inside, Deed.linesOfAll (depth + 1) inside, surveyed, ?_, ?_, ?_, ?_, ?_⟩
    · simp [Deed.linesOfAll, Deed.lines]
    · exact Deed.filterMap_lines depth (.step x inside)
    · intro step member
      rw [Deed.filterMap_linesOfAll] at member
      exact Deed.le_of_mem_preorderOfAll inside member
    · rw [Deed.filterMap_linesOfAll]
      exact Deed.descends_preorderOfAll (Nat.le_refl _) inside
    · exact fun e member => Deed.le_of_mem_linesOfAll inside member

/-- A closure is called with a builtin, and fails when its body comes to a name without a
meaning. -/
theorem failing_call_is_traced :
    let m := Machine.create (Settings.standard Vocabulary.words) ∅
    let r := m.interpreter.rules
    let x : Value := .list [.list [.symbol "closure", .list [.symbol "f"],
      .list [.symbol "f", .symbol "y"]], .symbol "not"]
    ∃ inside w',
      eval { r with tracing := true } 4 x 0 0 m.world = some (.error (.unboundSymbol "y"), w') ∧
      survey r 4 x 0 ⟨m.world.store, m.world.generator⟩ =
        some ⟨[.step x inside], .error (.unboundSymbol "y"), ⟨w'.store, w'.generator⟩⟩ ∧
      w'.trace.reverse.map TraceEvent.depth = [0, 1, 1, 0, 1, 2, 2] := by
  intro m r x
  have known : (eval { r with tracing := true } 4 x 0 0 m.world).map
      (fun out => (out.1, out.2.trace.reverse.map TraceEvent.depth)) =
        some (.error (.unboundSymbol "y"), [0, 1, 1, 0, 1, 2, 2]) := by
    rfl
  obtain ⟨⟨answer, w'⟩, ends, same⟩ := Option.map_eq_some_iff.1 known
  obtain ⟨rfl, depths⟩ := Prod.mk.inj same
  obtain ⟨inside, rest, surveyed, -⟩ :=
    (trace_is_the_preorder_of_the_steps r 4 x 0 0 m.world).2.2 _ w' ends
  exact ⟨inside, w', ends, surveyed, depths⟩

end Argot
