import Argot.Proofs.Visibility
import Argot.Proofs.Parts

set_option autoImplicit false

/-!
# Evaluation without scopes

With dynamic closures, the chain of scopes is only a way to share names.  `flatEval` is an
evaluator that has none: its environment is one map of all names, the body of a closure or
a block runs in a copy of the caller's map with the new bindings added, and the copy is
thrown away afterwards.

The two evaluators agree, step for step, from every scope to which no closure with a
scope of its own is visible (`eval_mirrors_flatEval`).  What makes them agree is that no
evaluation writes to a scope around its own (`eval_keeps`): while the body runs, the
caller's scope stands still, and so it is the same afterwards as a map that was put aside.
-/

namespace Argot

/-! ## The flat evaluator -/

/-- What a flat evaluation may change: the meaning of names, and the generator. -/
structure FlatWorld where
  names : NameMap Value
  generator : Generator

/-- A flat evaluation, with the same ways to end as any other. -/
abbrev FlatRun (α : Type) : Type := ExceptT Failure (StateT FlatWorld Option) α

namespace FlatRun

/-- No answer. -/
def exhausted {α : Type} : FlatRun α := fun _ => none

/-- What a name means. -/
def lookup (name : Text) : FlatRun Value := fun w =>
  match w.names.find? name with
  | some x => some (.ok x, w)
  | none => some (.error (.unboundSymbol name), w)

/-- Gives a name a meaning. -/
def define (name : Text) (x : Value) : FlatRun Unit := fun w =>
  some (.ok (), { w with names := w.names.insert name x })

/-- Calls a builtin with evaluated arguments. -/
def callBuiltin (r : Rules) (b : Builtin) (args : List Value) : FlatRun Value := fun w =>
  let (answer, g) := b.op.apply r.host b.name args w.generator
  some (answer, { w with generator := g })

/-- Runs in a copy of the names with bindings added, and throws the copy away. -/
def inCopy {α : Type} (bindings : List (Text × Value)) (m : FlatRun α) : FlatRun α := fun w =>
  match m { w with names := (NameMap.ofList bindings).overlay w.names } with
  | none => none
  | some (answer, w') => some (answer, { w' with names := w.names })

end FlatRun

/-- A way to evaluate an expression. -/
abbrev FlatEvaluator : Type := Value → FlatRun Value

/-- Evaluates arguments from left to right. -/
def flatArgs (ev : FlatEvaluator) : List Value → FlatRun (List Value)
  | [] => pure []
  | x :: xs => do
    let y ← ev x
    let ys ← flatArgs ev xs
    pure (y :: ys)

/-- The branch that a condition picks. -/
def flatBranch {α : Type} (name : Text) (condition : Value) (yes no : FlatRun α) : FlatRun α :=
  match condition with
  | .boolean true => yes
  | .boolean false => no
  | x => throw (.conditionNotBoolean name x)

/-- A condition and two branches, both of which are evaluated if the rules ask for it. -/
def flatChoice (r : Rules) (ev : FlatEvaluator) (name : Text) : List Value → FlatRun Value
  | [condition, yes, no] => do
    let c ← ev condition
    if r.eagerIf then
      let y ← ev yes
      let n ← ev no
      flatBranch name c (pure y) (pure n)
    else flatBranch name c (ev yes) (ev no)
  | args => throw (.formArity name 3 args.length)

/-- Gives a symbol a meaning and answers the record of it. -/
def flatDefinition (ev : FlatEvaluator) (name : Text) : List Value → FlatRun Value
  | [.symbol n, x] => do
    let y ← ev x
    FlatRun.define n y
    pure (.list [.symbol n, y, .boolean true])
  | [target, _] => throw (.targetNotSymbol name target)
  | args => throw (.formArity name 2 args.length)

/-- A closure that remembers nothing. -/
def flatAbstraction (name : Text) : List Value → FlatRun Value
  | [params, body] => pure (.closure params body none)
  | args => throw (.formArity name 2 args.length)

/-- The names and values of a block's bindings. -/
def flatBindings (ev : FlatEvaluator) (name : Text) : List Value → FlatRun (List (Text × Value))
  | [] => pure []
  | .list [.symbol n, x] :: rest => do
    let y ← ev x
    let ys ← flatBindings ev name rest
    pure ((n, y) :: ys)
  | .list [target, _] :: _ => throw (.bindingNotSymbol name target)
  | x :: _ => throw (.bindingNotPair name x)

/-- Evaluates a body with bindings of its own. -/
def flatBlock (ev : FlatEvaluator) (name : Text) : List Value → FlatRun Value
  | [.list bindings, body] => do
    let values ← flatBindings ev name bindings
    FlatRun.inCopy values (ev body)
  | [x, _] => throw (.bindingsNotList name x)
  | args => throw (.formArity name 2 args.length)

/-- Calls a closure: its body is evaluated with the parameters bound to the arguments. -/
def flatCallClosure (ev : FlatEvaluator) (params body : Value) (args : List Value) :
    FlatRun Value :=
  match paramNames params with
  | .error e => throw e
  | .ok names =>
    if names.length = args.length then do
      let values ← flatArgs ev args
      FlatRun.inCopy (names.zip values) (ev body)
    else throw (.closureArity names.length args.length)

/-- Calls a function with arguments that are not evaluated yet. -/
def flatCall (r : Rules) (ev : FlatEvaluator) (head function : Value) (args : List Value) :
    FlatRun Value :=
  match function with
  | .builtin b => do
    let values ← flatArgs ev args
    FlatRun.callBuiltin r b values
  | .closure params body _ => flatCallClosure ev params body args
  | _ => throw (.notCallable head)

/-- Evaluates an expression, given a way to evaluate the expressions inside it. -/
def flatStep (r : Rules) (ev : FlatEvaluator) : FlatEvaluator
  | .quote form => pure form
  | .symbol name => FlatRun.lookup name
  | .list [] => pure (.boolean false)
  | .list (head :: args) =>
    match headForm? r.vocabulary head with
    | some (.choice, name) => flatChoice r ev name args
    | some (.definition, name) => flatDefinition ev name args
    | some (.abstraction, name) => flatAbstraction name args
    | some (.block, name) => flatBlock ev name args
    | none => do
      let function ← ev head
      flatCall r ev head function args
  | .nil => throw .nilExpression
  | .scopedLet bindings body => throw (.unsupported (.scopedLet bindings body))
  | x => pure x

/-- Evaluates an expression, with evaluations nested at most `fuel` deep. -/
def flatEval (r : Rules) : (fuel : Nat) → FlatEvaluator
  | 0 => fun _ => FlatRun.exhausted
  | fuel + 1 => flatStep r (flatEval r fuel)

/-! ## Plans without scopes -/

/-- Makes a move. -/
def Move.flat (r : Rules) (ev : FlatEvaluator) : Move → FlatRun Value
  | .answer x => pure x
  | .fail e => throw e
  | .lookup name => FlatRun.lookup name
  | .define name x => do
    FlatRun.define name x
    pure (.list [.symbol name, x, .boolean true])
  | .close params body => pure (.closure params body none)
  | .call b args => FlatRun.callBuiltin r b args
  | .block _ bindings body | .enter _ body _ bindings => FlatRun.inCopy bindings (ev body)

namespace Plan

/-- The flat run of a plan. -/
def flat (r : Rules) (ev : FlatEvaluator) : Plan → FlatRun Value := follow ev (Move.flat r ev)

section Flat

variable (r : Rules) (ev : FlatEvaluator) (name : Text)

@[simp] theorem flat_eval (x : Value) (next : Value → Plan) :
    (Plan.eval x next).flat r ev = ev x >>= fun y => (next y).flat r ev := rfl

theorem flat_goOn (x : Value) : (goOn x).flat r ev = ev x := bind_pure (ev x)

theorem flat_evalAll (next : List Value → Plan) (args : List Value) :
    (evalAll next args).flat r ev = flatArgs ev args >>= fun ys => (next ys).flat r ev := by
  induction args generalizing next with
  | nil => simp [evalAll, flatArgs]
  | cons x xs ih => simp [evalAll, flatArgs, ih]

theorem flat_branch (condition : Value) (yes no : Plan) :
    (branch name condition yes no).flat r ev =
      flatBranch name condition (yes.flat r ev) (no.flat r ev) := by
  cases condition with
  | boolean truth => cases truth <;> rfl
  | _ => rfl

theorem flat_choice (args : List Value) :
    (choice r.eagerIf name args).flat r ev = flatChoice r ev name args := by
  rcases args with _ | ⟨condition, _ | ⟨yes, _ | ⟨no, _ | ⟨_, _⟩⟩⟩⟩
  case cons.cons.cons.nil =>
    refine bind_congr fun c => ?_
    cases r.eagerIf with
    | true => exact bind_congr fun y => bind_congr fun n => flat_branch r ev name c _ _
    | false =>
      rw [← flat_goOn r ev yes, ← flat_goOn r ev no]
      exact flat_branch r ev name c _ _
  all_goals rfl

theorem flat_definition (args : List Value) :
    (definition name args).flat r ev = flatDefinition ev name args := by
  rcases args with _ | ⟨target, _ | ⟨x, _ | ⟨_, _⟩⟩⟩
  · rfl
  all_goals cases target <;> rfl

theorem flat_abstraction (args : List Value) :
    (abstraction name args).flat r ev = flatAbstraction name args := by
  rcases args with _ | ⟨params, _ | ⟨body, _ | ⟨_, _⟩⟩⟩ <;> rfl

theorem flat_bindings (next : List (Text × Value) → Plan) (items : List Value) :
    (bindings name next items).flat r ev =
      flatBindings ev name items >>= fun ys => (next ys).flat r ev := by
  induction items generalizing next with
  | nil => simp [bindings, flatBindings]
  | cons binding rest ih =>
    cases binding with
    | list items =>
      rcases items with _ | ⟨target, _ | ⟨x, _ | ⟨_, _⟩⟩⟩
      · rfl
      · cases target <;> rfl
      · cases target with
        | symbol n => simp [bindings, flatBindings, Value.list?, Value.symbolName?, ih]
        | _ => rfl
      · cases target <;> rfl
    | _ => rfl

theorem flat_block (args : List Value) : (block name args).flat r ev = flatBlock ev name args := by
  rcases args with _ | ⟨items, _ | ⟨body, _ | ⟨_, _⟩⟩⟩
  · rfl
  · cases items <;> rfl
  · cases items with
    | list items => exact flat_bindings r ev name _ items
    | _ => rfl
  · cases items <;> rfl

theorem flat_call (head function : Value) (args : List Value) :
    (call head function args).flat r ev = flatCall r ev head function args := by
  cases function with
  | builtin b => exact flat_evalAll r ev _ args
  | closure params body home =>
    show (callClosure params body home args).flat r ev = flatCallClosure ev params body args
    unfold callClosure flatCallClosure
    cases paramNames params with
    | error e => rfl
    | ok names =>
      dsimp only
      split
      · exact flat_evalAll r ev _ args
      · rfl
  | _ => rfl

end Flat
end Plan

/-- A step of flat evaluation follows the same plan. -/
theorem flatStep_eq (r : Rules) (ev : FlatEvaluator) (x : Value) :
    flatStep r ev x = (x.plan r.vocabulary r.eagerIf).flat r ev := by
  cases x with
  | list items =>
    cases items with
    | nil => rfl
    | cons head args =>
      rw [flatStep, Value.plan]
      cases headForm? r.vocabulary head with
      | none => exact bind_congr fun f => (Plan.flat_call r ev head f args).symm
      | some named =>
        obtain ⟨form, name⟩ := named
        cases form with
        | choice => exact (Plan.flat_choice r ev name args).symm
        | definition => exact (Plan.flat_definition r ev name args).symm
        | abstraction => exact (Plan.flat_abstraction r ev name args).symm
        | block => exact (Plan.flat_block r ev name args).symm
  | _ => rfl

/-! ## Values that remember no scope -/

mutual

/-- Whether no closure in a value remembers a scope. -/
def Value.homeless : Value → Bool
  | .quote x => x.homeless
  | .list items => Value.allHomeless items
  | .closure params body home => home.isNone && params.homeless && body.homeless
  | .scopedLet bindings body => bindings.homeless && body.homeless
  | _ => true

/-- Whether no closure in the values remembers a scope. -/
def Value.allHomeless : List Value → Bool
  | [] => true
  | x :: xs => x.homeless && Value.allHomeless xs

end

theorem Value.allHomeless_iff {xs : List Value} :
    Value.allHomeless xs = true ↔ ∀ x ∈ xs, x.homeless = true := by
  induction xs with
  | nil => simp [Value.allHomeless]
  | cons x xs ih => simp [Value.allHomeless, ih]

theorem Value.homeless_list {xs : List Value} :
    (Value.list xs).homeless = true ↔ ∀ x ∈ xs, x.homeless = true := by
  rw [Value.homeless, Value.allHomeless_iff]

/-- A host function that is given no closure with a scope answers none. -/
def Host.Homeless (host : Host) : Prop :=
  ∀ slot name args y, (∀ x ∈ args, x.homeless = true) → host slot name args = .ok y →
    y.homeless = true

theorem Value.inherited_homeless : Value.Inherited fun x => x.homeless = true where
  number _ := rfl
  boolean _ := rfl
  list := Value.homeless_list

/-- Builtins make no closures: what they answer is new and has none in it, or is a part of
an argument. -/
theorem Primitive.homeless_apply {host : Host} (plain : host.Homeless) {op : Primitive}
    {name : Text} {args : List Value} {g : Generator} {y : Value}
    (plainArgs : ∀ x ∈ args, x.homeless = true) (h : (op.apply host name args g).1 = .ok y) :
    y.homeless = true := by
  have meets := Primitive.meets_apply Value.inherited_homeless (fun _ _ => trivial) plainArgs op
    (fun slot _ => meets_of_answer fun y => plain slot name args y plainArgs) g
  rw [h] at meets
  exact meets

/-! ## Running side by side -/

/-- The world of a scope without its scopes. -/
def World.flat (w : World) (scope : Nat) : FlatWorld := ⟨w.store.visible scope, w.generator⟩

/-- The scope exists, and no closure that can be seen from it remembers a scope. -/
structure Settled (scope : Nat) (w : World) : Prop where
  present : scope < w.store.size
  homeless : ∀ name y, w.store.lookup scope name = some y → y.homeless = true

/-- From every settled world the run and the flat run give the same answer, or none, and
leave the same names and generator behind.  The world is settled afterwards, and an answer
has the property `P`. -/
structure Mirrors {α : Type} (scope : Nat) (P : α → Prop) (m : Run α) (f : FlatRun α) : Prop where
  same : ∀ w, Settled scope w →
    (m w).map (fun out => (out.1, out.2.flat scope)) = f (w.flat scope)
  settled : ∀ w, Settled scope w →
    m.Ends w fun answer w' => Settled scope w' ∧ ∀ x, answer = .ok x → P x

section Mirrors

open Run

variable {α β : Type} {scope : Nat} {P : α → Prop} {Q : β → Prop}

/-- A run with a known result, beside a flat run with a known result. -/
theorem Mirrors.of_apply {m : Run α} {f : FlatRun α} (result : World → Except Failure α × World)
    (run : ∀ w, m w = some (result w))
    (flat : ∀ w, Settled scope w →
      f (w.flat scope) = some ((result w).1, (result w).2.flat scope))
    (settled : ∀ w, Settled scope w →
      Settled scope (result w).2 ∧ ∀ x, (result w).1 = .ok x → P x) : Mirrors scope P m f := by
  constructor
  · intro w start
    rw [run, flat w start]
    rfl
  · intro w start
    exact .of_apply (run w) (settled w start)

theorem Mirrors.pure {x : α} (h : P x) : Mirrors scope P (pure x) (pure x) := by
  refine .of_apply (fun w => (.ok x, w)) (fun _ => rfl) (fun _ _ => rfl) ?_
  intro w start
  refine ⟨start, ?_⟩
  intro y same
  cases same
  exact h

theorem Mirrors.throw (e : Failure) : Mirrors scope P (throw e) (throw e) := by
  refine .of_apply (fun w => (.error e, w)) (fun _ => rfl) (fun _ _ => rfl) ?_
  intro w start
  refine ⟨start, ?_⟩
  intro y impossible
  cases impossible

theorem Mirrors.exhausted : Mirrors scope P exhausted FlatRun.exhausted :=
  ⟨fun _ _ => rfl, fun _ _ => .exhausted⟩

theorem Mirrors.andThen {m : Run α} {f : FlatRun α} {k : α → Run β} {g : α → FlatRun β}
    (h : Mirrors scope P m f) (h' : ∀ x, P x → Mirrors scope Q (k x) (g x)) :
    Mirrors scope Q (m >>= k) (f >>= g) := by
  constructor
  · intro w start
    rw [andThen_apply, andThen_apply, ← h.same w start]
    cases first : m w with
    | none => rfl
    | some out =>
      obtain ⟨answer, w₁⟩ := out
      obtain ⟨middle, good⟩ := h.settled w start answer w₁ first
      cases answer with
      | error e => rfl
      | ok x => exact (h' x (good x rfl)).same w₁ middle
  · intro w start
    refine .andThen ((h.settled w start).mono ?_)
    intro answer w₁ ⟨middle, good⟩
    constructor
    · intro e _
      refine ⟨middle, ?_⟩
      intro x impossible
      cases impossible
    · intro x answered
      exact (h' x (good x answered)).settled w₁ middle

/-- A line of the trace is not seen in the flat world. -/
theorem Mirrors.record (r : Rules) (e : TraceEvent) {m : Run α} {f : FlatRun α}
    (h : Mirrors scope P m f) : Mirrors scope P (Run.record r e >>= fun _ => m) f := by
  constructor
  · intro w start
    rw [andThen_apply, record_apply]
    exact h.same _ ⟨start.present, start.homeless⟩
  · intro w start
    refine .andThen (.of_apply (record_apply r e w) ⟨?_, ?_⟩)
    · intro _ impossible
      cases impossible
    · intro _ _
      exact h.settled _ ⟨start.present, start.homeless⟩

theorem Mirrors.lookup (name : Text) :
    Mirrors scope (fun x => x.homeless = true) (Run.lookup scope name) (FlatRun.lookup name) := by
  refine .of_apply
    (fun w => ((w.store.lookup scope name).elim (.error (.unboundSymbol name)) .ok, w))
    (lookup_apply scope name) ?_ ?_
  · intro w _
    unfold FlatRun.lookup World.flat
    rw [Store.find?_visible]
    cases w.store.lookup scope name <;> rfl
  · intro w start
    refine ⟨start, ?_⟩
    intro x answered
    cases found : w.store.lookup scope name with
    | none =>
      simp only [found] at answered
      cases answered
    | some y =>
      simp only [found] at answered
      cases answered
      exact start.homeless name _ found

theorem Mirrors.define (name : Text) {x : Value} (plain : x.homeless = true) :
    Mirrors scope (fun _ => True) (Run.bind scope name x) (FlatRun.define name x) := by
  refine .of_apply (fun w => (.ok (), { w with store := w.store.bind scope name x }))
    (bind_apply scope name x) ?_ ?_
  · intro w start
    have names : (w.store.bind scope name x).visible scope =
        (w.store.visible scope).insert name x := by
      apply NameMap.ext_find?
      intro n
      rw [Store.find?_visible, Store.lookup_bind_self start.present, NameMap.find?_insert,
        Store.find?_visible]
    simp only [FlatRun.define, World.flat, names]
  · intro w start
    refine ⟨⟨?_, ?_⟩, fun _ _ => trivial⟩
    · rw [Store.size_bind]
      exact start.present
    · intro n y found
      rw [Store.lookup_bind_self start.present] at found
      split at found
      · cases found
        exact plain
      · exact start.homeless n y found

theorem Mirrors.callBuiltin {r : Rules} (host : r.host.Homeless) (b : Builtin) {args : List Value}
    (plain : ∀ x ∈ args, x.homeless = true) :
    Mirrors scope (fun x => x.homeless = true) (Run.callBuiltin r b args)
      (FlatRun.callBuiltin r b args) := by
  refine .of_apply _ (callBuiltin_apply r b args) (fun _ _ => rfl) ?_
  intro w start
  refine ⟨⟨start.present, start.homeless⟩, ?_⟩
  intro x answered
  exact Primitive.homeless_apply host plain answered

/-- A body in a new scope runs beside the same body in a copy of the names.  Since the body
keeps to the new scope, what is visible from the scope around it stays as it was. -/
theorem Mirrors.inner (name : Text) {bindings : List (Text × Value)} {k : Nat → Run α}
    {g : FlatRun α} (plain : ∀ e ∈ bindings, e.2.homeless = true)
    (h : ∀ i, Mirrors i P (k i) g)
    (keeps : ∀ i, Stays (fun w w' => w.store.Keeps i w'.store) (k i)) :
    Mirrors scope P
      (Run.pushFrame { Store.childFrame name scope with bindings := NameMap.ofList bindings } >>= k)
      (FlatRun.inCopy bindings g) := by
  generalize frameEq :
    ({ Store.childFrame name scope with bindings := NameMap.ofList bindings } : Frame) = f
  have under : f.parent = some scope := by rw [← frameEq]; rfl
  have binds : f.bindings = NameMap.ofList bindings := by rw [← frameEq]
  -- the world in which the body starts
  have enters : ∀ w, (Run.pushFrame f >>= k) w =
      k w.store.size { w with store := w.store.push f } := by
    intro w
    rw [andThen_apply, pushFrame_apply]
  have lookups : ∀ w, Settled scope w → ∀ n, (w.store.push f).lookup w.store.size n =
      ((NameMap.ofList bindings).find? n).or (w.store.lookup scope n) := by
    intro w start n
    rw [Store.lookup_push under start.present, binds]
  have starts : ∀ w, Settled scope w →
      Settled w.store.size { w with store := w.store.push f } := by
    intro w start
    refine ⟨by rw [Store.size_push]; omega, ?_⟩
    intro n y found
    rw [lookups w start] at found
    rcases Option.or_eq_some_iff.1 found with own | ⟨_, outer⟩
    · exact plain _ (NameMap.find?_ofList_eq_some own)
    · exact start.homeless n y outer
  have flatInner : ∀ w, Settled scope w →
      World.flat { w with store := w.store.push f } w.store.size =
        ⟨(NameMap.ofList bindings).overlay (w.store.visible scope), w.generator⟩ := by
    intro w start
    refine congrArg (FlatWorld.mk · w.generator) (NameMap.ext_find? fun n => ?_)
    rw [Store.find?_visible, lookups w start, NameMap.find?_overlay, Store.find?_visible]
  -- the scope around the body, afterwards
  have untouched : ∀ w, Settled scope w → ∀ answer w',
      k w.store.size { w with store := w.store.push f } = some (answer, w') →
        w.store.Untouched w'.store :=
    fun w _ answer w' ends => (keeps _ _ answer w' ends).untouched_of_push
  constructor
  · intro w start
    have body := (h _).same _ (starts w start)
    rw [flatInner w start] at body
    rw [enters, FlatRun.inCopy]
    show _ = match g ⟨(NameMap.ofList bindings).overlay (w.store.visible scope), w.generator⟩ with
      | none => none
      | some (answer, w') => some (answer, { w' with names := w.store.visible scope })
    rw [← body]
    cases result : k w.store.size { w with store := w.store.push f } with
    | none => rfl
    | some out =>
      obtain ⟨answer, w'⟩ := out
      have same : w'.store.visible scope = w.store.visible scope := by
        apply NameMap.ext_find?
        intro n
        rw [Store.find?_visible, Store.find?_visible,
          (untouched w start answer w' result).lookup start.present]
      simp only [Option.map_some, World.flat, same]
  · intro w start answer w' ends
    rw [enters] at ends
    obtain ⟨_, good⟩ := (h _).settled _ (starts w start) answer w' ends
    have kept := untouched w start answer w' ends
    refine ⟨⟨Nat.lt_of_lt_of_le start.present kept.size_le, ?_⟩, good⟩
    intro n y found
    rw [kept.lookup start.present] at found
    exact start.homeless n y found

/-! ## Steps -/

variable {ev : Evaluator} {fev : FlatEvaluator}

/-- The two ways to evaluate agree on expressions without homes, in every scope. -/
def EvaluatorsAgree (ev : Evaluator) (fev : FlatEvaluator) : Prop :=
  ∀ x, x.homeless = true → ∀ scope depth,
    Mirrors scope (fun y => y.homeless = true) (ev x scope depth) (fev x)

/-- Neither an expression nor its value remembers a scope. -/
def Traits.homeless : Traits Unit :=
  lasting (fun x => x.homeless = true) (fun x => x.homeless = true) (fun _ => True) fun _ => True

theorem Traits.sound_homeless : Traits.homeless.Sound :=
  sound_lasting Value.homeless_list.1 (fun _ => rfl) fun _ _ => trivial

theorem Traits.whole_homeless {v : Vocabulary} {x : Value} (plain : x.homeless = true) :
    Traits.homeless.Whole v () x := by
  cases x with
  | list xs => exact ⟨Value.homeless_list.1 plain, fun _ _ => trivial⟩
  | nil | symbol | scopedLet => trivial
  | _ => exact plain

theorem Move.mirrors_run (agree : EvaluatorsAgree ev fev)
    (keeps : ∀ x i d, Stays (fun w w' => w.store.Keeps i w'.store) (ev x i d)) {r : Rules}
    (dynamic : r.lexical = false) (host : r.host.Homeless) (depth : Nat) {a : Move} {c : Unit}
    (plain : a.Holds .homeless c) :
    Mirrors scope (fun y => y.homeless = true) (a.run r ev scope depth) (a.flat r fev) := by
  cases a with
  | answer x => exact .pure plain
  | fail e => exact .throw e
  | lookup name => exact .lookup name
  | define name x =>
    refine .andThen (.define name plain.2) fun _ _ => .pure (Value.homeless_list.2 ?_)
    have value : x.homeless = true := plain.2
    simp [value, Value.homeless]
  | close params body =>
    obtain ⟨-, plainParams, plainBody⟩ := plain
    rw [run, dynamic]
    refine .pure ?_
    simpa [Value.homeless] using ⟨plainParams, plainBody⟩
  | call b args => exact .record r _ (.callBuiltin host b plain.2)
  | block name bindings body =>
    exact .inner name plain.1 (fun i => agree body plain.2 i (depth + 1))
      fun i => keeps body i (depth + 1)
  | enter params body home bindings =>
    obtain ⟨plainFunction, plainValues⟩ := plain
    have parts : (home = none ∧ params.homeless = true) ∧ body.homeless = true := by
      simpa [Value.homeless, Traits.homeless, Traits.lasting] using plainFunction
    obtain ⟨⟨rfl, -⟩, plainBody⟩ := parts
    refine .inner r.vocabulary.closureForm plainValues
      (fun i => .record r _ (agree body plainBody i (depth + 1))) fun i => ?_
    exact .andThen (keeps_confines i).toIsPath (stays_record (keeps_confines i) r _)
      fun _ => keeps body i (depth + 1)

theorem Plan.mirrors_run (agree : EvaluatorsAgree ev fev)
    (keeps : ∀ x i d, Stays (fun w w' => w.store.Keeps i w'.store) (ev x i d)) {r : Rules}
    (dynamic : r.lexical = false) (host : r.host.Homeless) (depth : Nat) {p : Plan} {c : Unit}
    (plain : p.Holds .homeless c) :
    Mirrors scope (fun y => y.homeless = true) (p.run r ev scope depth) (p.flat r fev) := by
  induction plain with
  | move moves => exact Move.mirrors_run agree keeps dynamic host depth moves
  | eval text _ ih => exact .andThen (agree _ text scope _) fun y plainY => ih rfl plainY

theorem mirrors_evalStep (agree : EvaluatorsAgree ev fev)
    (keeps : ∀ x i d, Stays (fun w w' => w.store.Keeps i w'.store) (ev x i d)) {r : Rules}
    (dynamic : r.lexical = false) (host : r.host.Homeless) :
    EvaluatorsAgree (evalStep r ev) (flatStep r fev) := by
  intro x plain scope depth
  rw [evalStep_eq, flatStep_eq]
  refine .record r _ ?_
  exact Plan.mirrors_run agree keeps dynamic host depth
    (Traits.sound_homeless.holds_plan (Traits.whole_homeless plain) _)

end Mirrors

/-! ## Whole evaluations -/

/-- Evaluation in a chain of scopes and flat evaluation run side by side. -/
theorem eval_mirrors_flatEval {r : Rules} (dynamic : r.lexical = false) (host : r.host.Homeless)
    (fuel : Nat) : EvaluatorsAgree (eval r fuel) (flatEval r fuel) := by
  induction fuel with
  | zero =>
    intro x _ scope depth
    exact .exhausted
  | succ fuel ih => exact mirrors_evalStep ih (eval_keeps r fuel) dynamic host

/-- **Evaluation with dynamic closures is flat evaluation.**  Let closures remember no
scope: neither under the rules, nor in the expression, nor in what is visible from the
scope, nor in what host functions answer when they are given none.  Evaluating the
expression in the scope then has an answer exactly when flat evaluation from the map of
everything visible has one, with evaluations nested equally deep.  The value or failure is
the same, and what is visible from the scope afterwards is the map that flat evaluation
ends with.  The map of everything visible has the visible names, each with what it means
in the scope. -/
theorem eval_refines_flat_evaluation (r : Rules) (dynamic : r.lexical = false)
    (host : r.host.Homeless) (fuel : Nat) (x : Value) (scope depth : Nat) (w : World)
    (present : scope < w.store.size) (plain : x.homeless = true)
    (plainScope : ∀ name y, w.store.lookup scope name = some y → y.homeless = true) :
    (eval r fuel x scope depth w).map
        (fun (answer, w') => (answer, w'.store.visible scope, w'.generator)) =
      (flatEval r fuel x ⟨w.store.visible scope, w.generator⟩).map
        (fun (answer, flat) => (answer, flat.names, flat.generator)) ∧
    ∀ s : Store, (s.visible scope).names = s.visibleNames scope ∧
      ∀ name, (s.visible scope).find? name = s.lookup scope name := by
  refine ⟨?_, fun s => ⟨s.names_visible scope, s.find?_visible scope⟩⟩
  have same := (eval_mirrors_flatEval dynamic host fuel x plain scope depth).same w
    ⟨present, plainScope⟩
  show _ = (flatEval r fuel x (w.flat scope)).map _
  rw [← same, Option.map_map]
  rfl

/-- A closure with a free variable, called from a scope that binds the variable anew.  Its
body defines a name, which the caller does not see. -/
theorem flat_evaluation_of_a_call :
    let rules : Rules := ⟨.words, false, true, false, fun _ _ args => .ok (.list args)⟩
    let f : Value :=
      .closure (.list [.symbol "a"]) (.list [.symbol "var", .symbol "b", .symbol "x"]) none
    let global : Frame := { Store.globalFrame with
      bindings := NameMap.ofList [("f", f), ("x", .boolean true)] }
    let child : Frame := { Store.childFrame "local" 0 with
      bindings := NameMap.ofList [("x", .boolean false)] }
    let w : World := ⟨⟨#[global, child], 0⟩, ⟨0⟩, []⟩
    let x : Value := .list [.symbol "f", .symbol "x"]
    rules.lexical = false ∧ rules.host.Homeless ∧ 1 < w.store.size ∧ x.homeless = true ∧
      (∀ name y, w.store.lookup 1 name = some y → y.homeless = true) ∧
      (eval rules 3 x 1 0 w).isSome = true ∧
      (eval rules 3 x 1 0 w).map
          (fun (answer, w') => (answer, w'.store.visible 1, w'.generator)) =
        (flatEval rules 3 x ⟨w.store.visible 1, w.generator⟩).map
          (fun (answer, flat) => (answer, flat.names, flat.generator)) := by
  intro rules f global child w x
  have host : rules.host.Homeless := by
    intro slot name args y plain answer
    cases answer
    exact Value.homeless_list.2 plain
  have allPlain : (w.store.visible 1).entries.all (fun e => e.2.homeless) = true := rfl
  have plainScope : ∀ name y, w.store.lookup 1 name = some y → y.homeless = true := by
    intro name y found
    rw [← Store.find?_visible] at found
    exact List.all_eq_true.1 allPlain _ (NameMap.mem_entries_of_find? found)
  exact ⟨rfl, host, by decide, rfl, plainScope, rfl,
    (eval_refines_flat_evaluation rules rfl host 3 x 1 0 w (by decide) rfl plainScope).1⟩

end Argot
