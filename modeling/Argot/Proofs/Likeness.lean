import Argot.Proofs.Plan

set_option autoImplicit false

/-!
# Plans that are alike

Two expressions that are alike have plans that are alike: they evaluate expressions that are alike,
and given values that are alike they come to moves that are alike.  What this means for expressions,
values and failures is a `Likeness`.  It may depend on a stage, for what is computed later may be
alike under weaker conditions.  If a likeness is coherent, that is if it respects the few things
that the evaluator looks at in an expression or a value, then it carries over to plans
(`Likeness.Coherent.alike_plan`).

A property of one evaluation is a likeness of it with itself.  `Traits` are what is asked of
expressions, values, failures and forms, and `Traits.Sound.holds_plan` is the theorem about plans
for them.
-/

namespace Argot

/-! ## Likenesses -/

/-- What counts as alike, by stages.  `text` is about expressions and `value` about what they
evaluate to; names are translated by `name`, and `allows` says which special forms may occur. -/
structure Likeness (ι : Type) where
  later : ι → ι → Prop
  name : Text → Text
  text : ι → Value → Value → Prop
  value : ι → Value → Value → Prop
  failure : ι → Failure → Failure → Prop
  allows : Form → Prop

namespace Likeness

variable {ι : Type} (k : Likeness ι) (c : ι)

/-- The entries have the same names, translated, and values that are alike. -/
def Entries : List (Text × Value) → List (Text × Value) → Prop :=
  List.Forall₂ fun e e' => e'.1 = k.name e.1 ∧ k.value c e.2 e'.2

/-- Names of parameters that are alike, or failures to name them that are. -/
inductive Params : Except Failure (List Text) → Except Failure (List Text) → Prop where
  | named (names : List Text) : Params (.ok names) (.ok (names.map k.name))
  | failed {e e' : Failure} (about : k.failure c e e') : Params (.error e) (.error e')

end Likeness

/-- Whether a value can be called. -/
def Value.isCallable : Value → Bool
  | .builtin _ | .closure _ _ _ => true
  | _ => false

/-- Values that are called alike. -/
inductive Likeness.Callable {ι : Type} (k : Likeness ι) (c : ι) : Value → Value → Prop where
  | builtin (b b' : Builtin) : Callable k c (.builtin b) (.builtin b')
  | closure {params params' : Value} (body body' : Value) (home home' : Option Nat)
      (named : k.Params c (paramNames params) (paramNames params')) :
      Callable k c (.closure params body home) (.closure params' body' home')
  | other {f f' : Value} (not : f.isCallable = false) (not' : f'.isCallable = false) :
      Callable k c f f'

/-- Failures of special forms and calls that are about things that are alike. -/
inductive Likeness.Raised {ι : Type} (k : Likeness ι) (c : ι) : Failure → Failure → Prop where
  | formArity (n : Text) (wanted given : Nat) :
      Raised k c (.formArity n wanted given) (.formArity (k.name n) wanted given)
  | conditionNotBoolean (n : Text) {x x' : Value} (about : k.value c x x') :
      Raised k c (.conditionNotBoolean n x) (.conditionNotBoolean (k.name n) x')
  | targetNotSymbol (n : Text) {x x' : Value} (about : k.text c x x') :
      Raised k c (.targetNotSymbol n x) (.targetNotSymbol (k.name n) x')
  | bindingsNotList (n : Text) {x x' : Value} (about : k.text c x x') :
      Raised k c (.bindingsNotList n x) (.bindingsNotList (k.name n) x')
  | bindingNotPair (n : Text) {x x' : Value} (about : k.text c x x') :
      Raised k c (.bindingNotPair n x) (.bindingNotPair (k.name n) x')
  | bindingNotSymbol (n : Text) {x x' : Value} (about : k.text c x x') :
      Raised k c (.bindingNotSymbol n x) (.bindingNotSymbol (k.name n) x')
  | closureArity (wanted given : Nat) :
      Raised k c (.closureArity wanted given) (.closureArity wanted given)
  | notCallable {x x' : Value} (about : k.text c x x') :
      Raised k c (.notCallable x) (.notCallable x')

/-- The likeness lasts, and it respects what the evaluator looks at. -/
structure Likeness.Coherent {ι : Type} (k : Likeness ι) (v v' : Vocabulary) : Prop where
  refl : ∀ c, k.later c c
  trans : ∀ {c₁ c₂ c₃}, k.later c₁ c₂ → k.later c₂ c₃ → k.later c₁ c₃
  text_later : ∀ {c c₁ x x'}, k.later c c₁ → k.text c x x' → k.text c₁ x x'
  value_later : ∀ {c c₁ x x'}, k.later c c₁ → k.value c x x' → k.value c₁ x x'
  form : ∀ n, v'.form? (k.name n) = v.form? n
  symbol : ∀ {c x x'}, k.text c x x' → x'.symbolName? = x.symbolName?.map k.name
  list : ∀ {c x x'}, k.text c x x' → Option.Rel (List.Forall₂ (k.text c)) x.list? x'.list?
  truth : ∀ c b, k.value c (.boolean b) (.boolean b)
  boolean : ∀ {c x x'}, k.value c x x' → x'.boolean? = x.boolean?
  callable : ∀ {c f f'}, k.value c f f' → k.Callable c f f'
  raised : ∀ {c e e'}, k.Raised c e e' → k.failure c e e'

/-! ## Moves and plans that are alike -/

/-- Moves that are alike at a stage. -/
inductive Move.Alike {ι : Type} (k : Likeness ι) (c : ι) : Move → Move → Prop where
  | answer {x x' : Value} (values : k.value c x x') : Alike k c (.answer x) (.answer x')
  | fail {e e' : Failure} (failures : k.failure c e e') : Alike k c (.fail e) (.fail e')
  | lookup (n : Text) : Alike k c (.lookup n) (.lookup (k.name n))
  | define (n : Text) {x x' : Value} (allowed : k.allows .definition) (values : k.value c x x') :
      Alike k c (.define n x) (.define (k.name n) x')
  | close {params params' body body' : Value} (allowed : k.allows .abstraction)
      (paramTexts : k.text c params params') (bodies : k.text c body body') :
      Alike k c (.close params body) (.close params' body')
  | call {b b' : Builtin} {args args' : List Value}
      (functions : k.value c (.builtin b) (.builtin b'))
      (values : List.Forall₂ (k.value c) args args') : Alike k c (.call b args) (.call b' args')
  | block (n : Text) {bindings bindings' : List (Text × Value)} {body body' : Value}
      (entries : k.Entries c bindings bindings') (bodies : k.text c body body') :
      Alike k c (.block n bindings body) (.block (k.name n) bindings' body')
  | enter {params params' body body' : Value} {home home' : Option Nat}
      {bindings bindings' : List (Text × Value)}
      (functions : k.value c (.closure params body home) (.closure params' body' home'))
      (entries : k.Entries c bindings bindings') :
      Alike k c (.enter params body home bindings) (.enter params' body' home' bindings')

/-- Plans that are alike from a stage on. -/
inductive Plan.Alike {ι : Type} (k : Likeness ι) : ι → Plan → Plan → Prop where
  | move {c : ι} {a a' : Move} (moves : a.Alike k c a') : Alike k c (.move a) (.move a')
  | eval {c : ι} {x x' : Value} {next next' : Value → Plan} (texts : k.text c x x')
      (after : ∀ {c₁ y y'}, k.later c c₁ → k.value c₁ y y' → Alike k c₁ (next y) (next' y')) :
      Alike k c (.eval x next) (.eval x' next')

namespace Likeness.Coherent

open Plan

variable {ι : Type} {k : Likeness ι} {v v' : Vocabulary} (h : k.Coherent v v') {c : ι}
  (name : Text) {args args' : List Value}

include h

theorem alike_fail {e e' : Failure} (raised : k.Raised c e e') : (fail e).Alike k c (fail e') :=
  .move (.fail (h.raised raised))

omit h in
theorem alike_goOn {x x' : Value} (texts : k.text c x x') : (goOn x).Alike k c (goOn x') :=
  .eval texts fun _ values => .move (.answer values)

theorem alike_wrongArity (wanted : Nat) (same : List.Forall₂ (k.text c) args args') :
    (Plan.wrongArity name wanted args).Alike k c
      (Plan.wrongArity (k.name name) wanted args') := by
  rw [Plan.wrongArity, Plan.wrongArity, same.length_eq]
  exact h.alike_fail (.formArity name wanted _)

theorem forall₂_later {c₁ : ι} (later : k.later c c₁) {xs xs' : List Value}
    (same : List.Forall₂ (k.text c) xs xs') : List.Forall₂ (k.text c₁) xs xs' :=
  same.imp fun _ _ => h.text_later later

theorem alike_evalAll {next next' : List Value → Plan}
    (same : List.Forall₂ (k.text c) args args')
    (after : ∀ {c₁ ys ys'}, k.later c c₁ → List.Forall₂ (k.value c₁) ys ys' →
      (next ys).Alike k c₁ (next' ys')) :
    (evalAll next args).Alike k c (evalAll next' args') := by
  induction args generalizing args' c next next' with
  | nil =>
    cases same
    exact after (h.refl c) .nil
  | cons x xs ih =>
    cases same with
    | cons first rest =>
      refine .eval first fun {c₁ y y'} later value => ?_
      refine ih (h.forall₂_later later rest) fun later' values => ?_
      exact after (h.trans later later') (.cons (h.value_later later' value) values)

theorem alike_branch {x x' : Value} {yes yes' no no' : Plan} (condition : k.value c x x')
    (whenTrue : yes.Alike k c yes') (whenFalse : no.Alike k c no') :
    (branch name x yes no).Alike k c (branch (k.name name) x' yes' no') := by
  unfold branch
  rw [h.boolean condition]
  rcases x.boolean? with _ | _ | _
  · exact h.alike_fail (.conditionNotBoolean name condition)
  · exact whenFalse
  · exact whenTrue

theorem alike_choice (eager : Bool) (same : List.Forall₂ (k.text c) args args') :
    (choice eager name args).Alike k c (choice eager (k.name name) args') := by
  have wrong := h.alike_wrongArity name 3 same
  rcases same with _ | ⟨condition, _ | ⟨yes, _ | ⟨no, _ | ⟨_, _⟩⟩⟩⟩
  · exact wrong
  · exact wrong
  · exact wrong
  · refine .eval condition fun later chosen => ?_
    have yes := h.text_later later yes
    have no := h.text_later later no
    cases eager with
    | false => exact h.alike_branch name chosen (alike_goOn yes) (alike_goOn no)
    | true =>
      refine .eval yes fun later first => .eval (h.text_later later no) fun later' second => ?_
      exact h.alike_branch name (h.value_later later' (h.value_later later chosen))
        (.move (.answer (h.value_later later' first))) (.move (.answer second))
  · exact wrong

theorem alike_definition (allowed : k.allows .definition)
    (same : List.Forall₂ (k.text c) args args') :
    (definition name args).Alike k c (definition (k.name name) args') := by
  have wrong := h.alike_wrongArity name 2 same
  rcases same with _ | ⟨target, _ | ⟨value, _ | ⟨_, _⟩⟩⟩
  · exact wrong
  · exact wrong
  · dsimp only [definition]
    rw [h.symbol target]
    rcases Value.symbolName? _ with _ | n
    · exact h.alike_fail (.targetNotSymbol name target)
    · exact .eval value fun _ computed => .move (.define n allowed computed)
  · exact wrong

theorem alike_abstraction (allowed : k.allows .abstraction)
    (same : List.Forall₂ (k.text c) args args') :
    (abstraction name args).Alike k c (abstraction (k.name name) args') := by
  have wrong := h.alike_wrongArity name 2 same
  rcases same with _ | ⟨params, _ | ⟨body, _ | ⟨_, _⟩⟩⟩
  · exact wrong
  · exact wrong
  · exact .move (.close allowed params body)
  · exact wrong

theorem alike_bindings {next next' : List (Text × Value) → Plan}
    (same : List.Forall₂ (k.text c) args args')
    (after : ∀ {c₁ es es'}, k.later c c₁ → k.Entries c₁ es es' →
      (next es).Alike k c₁ (next' es')) :
    (bindings name next args).Alike k c (bindings (k.name name) next' args') := by
  induction args generalizing args' c next next' with
  | nil =>
    cases same
    exact after (h.refl c) .nil
  | cons x xs ih =>
    rcases same with _ | ⟨first, rest⟩
    have notPair := h.alike_fail (.bindingNotPair name first)
    have items := h.list first
    unfold bindings
    generalize x.list? = pair at items
    generalize Value.list? _ = pair' at items
    cases items with
    | none => exact notPair
    | some items =>
      rcases items with _ | ⟨target, _ | ⟨value, _ | ⟨_, _⟩⟩⟩
      · exact notPair
      · exact notPair
      · dsimp only
        rw [h.symbol target]
        rcases Value.symbolName? _ with _ | n
        · exact h.alike_fail (.bindingNotSymbol name target)
        · refine .eval value fun later computed => ?_
          refine ih (h.forall₂_later later rest) fun later' entries => ?_
          exact after (h.trans later later') (.cons ⟨rfl, h.value_later later' computed⟩ entries)
      · exact notPair

theorem alike_block (same : List.Forall₂ (k.text c) args args') :
    (block name args).Alike k c (block (k.name name) args') := by
  have wrong := h.alike_wrongArity name 2 same
  rcases same with _ | ⟨items, _ | ⟨body, _ | ⟨_, _⟩⟩⟩
  · exact wrong
  · exact wrong
  · have each := h.list items
    dsimp only [block]
    generalize Value.list? _ = xs at each
    generalize Value.list? _ = xs' at each
    cases each with
    | none => exact h.alike_fail (.bindingsNotList name items)
    | some each =>
      exact h.alike_bindings name each fun later entries =>
        .move (.block name entries (h.text_later later body))
  · exact wrong

theorem alike_ofForm (eager : Bool) {form : Form} (allowed : k.allows form)
    (same : List.Forall₂ (k.text c) args args') :
    (ofForm eager form name args).Alike k c (ofForm eager form (k.name name) args') := by
  cases form with
  | choice => exact h.alike_choice name eager same
  | definition => exact h.alike_definition name allowed same
  | abstraction => exact h.alike_abstraction name allowed same
  | block => exact h.alike_block name same

omit h in
theorem entries_zip (names : List Text) {ys ys' : List Value}
    (values : List.Forall₂ (k.value c) ys ys') :
    k.Entries c (names.zip ys) ((names.map k.name).zip ys') := by
  induction names generalizing ys ys' with
  | nil => exact .nil
  | cons n names ih =>
    cases values with
    | nil => exact .nil
    | cons first rest => exact .cons ⟨rfl, first⟩ (ih rest)

theorem alike_callClosure {params params' body body' : Value} {home home' : Option Nat}
    (functions : k.value c (.closure params body home) (.closure params' body' home'))
    (named : k.Params c (paramNames params) (paramNames params'))
    (same : List.Forall₂ (k.text c) args args') :
    (Plan.callClosure params body home args).Alike k c
      (Plan.callClosure params' body' home' args') := by
  unfold Plan.callClosure
  generalize paramNames params = names at named
  generalize paramNames params' = names' at named
  cases named with
  | failed about => exact .move (.fail about)
  | named names =>
    dsimp only
    rw [List.length_map, same.length_eq]
    split
    · exact h.alike_evalAll same fun later values =>
        .move (.enter (h.value_later later functions) (entries_zip names values))
    · exact h.alike_fail (.closureArity _ _)

omit h in
theorem call_of_not_callable {f : Value} (not : f.isCallable = false) (head : Value)
    (args : List Value) : Plan.call head f args = fail (.notCallable head) := by
  cases f <;> first | rfl | cases not

theorem alike_call {head head' f f' : Value} (heads : k.text c head head')
    (functions : k.value c f f') (same : List.Forall₂ (k.text c) args args') :
    (Plan.call head f args).Alike k c (Plan.call head' f' args') := by
  cases h.callable functions with
  | builtin b b' =>
    exact h.alike_evalAll same fun later values =>
      .move (.call (h.value_later later functions) values)
  | closure body body' home home' named => exact h.alike_callClosure functions named same
  | other not not' =>
    rw [call_of_not_callable not, call_of_not_callable not']
    exact h.alike_fail (.notCallable heads)

end Likeness.Coherent

/-! ## Expressions that are alike -/

/-- Whether an expression is its own value. -/
def Value.isConstant : Value → Bool
  | .number _ | .boolean _ | .string _ | .builtin _ | .closure _ _ _ => true
  | _ => false

theorem Value.plan_of_isConstant {x : Value} (constant : x.isConstant = true) (v : Vocabulary)
    (eager : Bool) : x.plan v eager = .move (.answer x) := by
  cases x <;> first | rfl | cases constant

/-- Expressions that are alike in themselves, given that the expressions inside them are alike and
what they evaluate to without more ado is. -/
inductive Likeness.Whole {ι : Type} (k : Likeness ι) (v : Vocabulary) (c : ι) :
    Value → Value → Prop where
  | nil (failures : k.failure c .nilExpression .nilExpression) : Whole k v c .nil .nil
  | quote {x x' : Value} (values : k.value c x x') : Whole k v c (.quote x) (.quote x')
  | symbol (n : Text) : Whole k v c (.symbol n) (.symbol (k.name n))
  | constant {x x' : Value} (constant : x.isConstant = true) (constant' : x'.isConstant = true)
      (values : k.value c x x') : Whole k v c x x'
  | list {xs xs' : List Value} (items : List.Forall₂ (k.text c) xs xs')
      (forms : ∀ {head args form n}, xs = head :: args → headForm? v head = some (form, n) →
        k.allows form) :
      Whole k v c (.list xs) (.list xs')
  | scopedLet {bindings bindings' body body' : Value}
      (failures : k.failure c (.unsupported (.scopedLet bindings body))
        (.unsupported (.scopedLet bindings' body'))) :
      Whole k v c (.scopedLet bindings body) (.scopedLet bindings' body')

namespace Likeness.Coherent

variable {ι : Type} {k : Likeness ι} {v v' : Vocabulary} (h : k.Coherent v v') {c : ι}

include h

theorem headForm?_eq {head head' : Value} (heads : k.text c head head') :
    headForm? v' head' = (headForm? v head).map (Prod.map id k.name) := by
  have names := h.symbol heads
  have of_name (v : Vocabulary) (x : Value) :
      headForm? v x = x.symbolName?.bind fun n => (v.form? n).map (·, n) := by
    cases x <;> rfl
  rw [of_name, of_name, names]
  cases head.symbolName? with
  | none => rfl
  | some n =>
    rw [Option.map_some, Option.bind_some, Option.bind_some, h.form n]
    cases v.form? n <;> rfl

/-- **Expressions that are alike have plans that are alike.** -/
theorem alike_plan {x x' : Value} (whole : k.Whole v c x x') (eager : Bool) :
    (x.plan v eager).Alike k c (x'.plan v' eager) := by
  cases whole with
  | nil failures => exact .move (.fail failures)
  | quote values => exact .move (.answer values)
  | symbol n => exact .move (.lookup n)
  | constant constant constant' values =>
    rw [Value.plan_of_isConstant constant, Value.plan_of_isConstant constant']
    exact .move (.answer values)
  | list items forms =>
    cases items with
    | nil => exact .move (.answer (h.truth c false))
    | @cons head head' args args' first rest =>
      dsimp only [Value.plan]
      -- special forms are told by name before anything is evaluated
      rw [h.headForm?_eq first]
      cases named : headForm? v head with
      | some found => exact h.alike_ofForm found.2 eager (forms rfl named) rest
      | none =>
        exact .eval first fun later functions => h.alike_call (h.text_later later first) functions
          (h.forall₂_later later rest)
  | scopedLet failures => exact .move (.fail failures)

end Likeness.Coherent

/-! ## Traits -/

/-- What is asked of expressions, of what they evaluate to and of failures, by stages, and which
special forms may occur. -/
structure Traits (ι : Type) where
  later : ι → ι → Prop
  text : ι → Value → Prop
  value : ι → Value → Prop
  failure : Failure → Prop
  allows : Form → Prop

namespace Traits

variable {ι : Type} (t : Traits ι)

/-- Everything with the traits is like itself. -/
def diagonal : Likeness ι where
  later := t.later
  name := id
  text c x x' := t.text c x ∧ x = x'
  value c x x' := t.value c x ∧ x = x'
  failure _ e e' := t.failure e ∧ e = e'
  allows := t.allows

/-- The traits last, the items of a list have them, and truth values and ordinary failures do. -/
structure Sound : Prop where
  refl : ∀ c, t.later c c
  trans : ∀ {c₁ c₂ c₃}, t.later c₁ c₂ → t.later c₂ c₃ → t.later c₁ c₃
  text_later : ∀ {c c₁ x}, t.later c c₁ → t.text c x → t.text c₁ x
  value_later : ∀ {c c₁ x}, t.later c c₁ → t.value c x → t.value c₁ x
  items : ∀ {c xs}, t.text c (.list xs) → ∀ x ∈ xs, t.text c x
  truth : ∀ c b, t.value c (.boolean b)
  ordinary : ∀ e : Failure, e.isOrdinary = true → t.failure e

end Traits

/-- A move whose parts have the traits. -/
def Move.Holds {ι : Type} (t : Traits ι) (c : ι) : Move → Prop
  | .answer x => t.value c x
  | .fail e => t.failure e
  | .lookup _ => True
  | .define _ x => t.allows .definition ∧ t.value c x
  | .close params body => t.allows .abstraction ∧ t.text c params ∧ t.text c body
  | .call b args => t.value c (.builtin b) ∧ ∀ x ∈ args, t.value c x
  | .block _ bindings body => (∀ e ∈ bindings, t.value c e.2) ∧ t.text c body
  | .enter params body home bindings =>
    t.value c (.closure params body home) ∧ ∀ e ∈ bindings, t.value c e.2

/-- A plan whose expressions and moves have the traits, as long as the values it is given have. -/
inductive Plan.Holds {ι : Type} (t : Traits ι) : ι → Plan → Prop where
  | move {c : ι} {a : Move} (moves : a.Holds t c) : Holds t c (.move a)
  | eval {c : ι} {x : Value} {next : Value → Plan} (text : t.text c x)
      (after : ∀ {c₁ y}, t.later c c₁ → t.value c₁ y → Holds t c₁ (next y)) :
      Holds t c (.eval x next)

/-- An expression that has the traits in itself, given that the expressions inside it do. -/
def Traits.Whole {ι : Type} (t : Traits ι) (v : Vocabulary) (c : ι) : Value → Prop
  | .nil => t.failure .nilExpression
  | .quote x => t.value c x
  | .symbol _ => True
  | .list xs => (∀ x ∈ xs, t.text c x) ∧
    ∀ {head args form n}, xs = head :: args → headForm? v head = some (form, n) → t.allows form
  | .scopedLet bindings body => t.failure (.unsupported (.scopedLet bindings body))
  | x => t.value c x

namespace Traits

variable {ι : Type} {t : Traits ι} {c : ι}

theorem forall₂_diagonal {P : Value → Prop} {xs xs' : List Value} :
    List.Forall₂ (fun x x' => P x ∧ x = x') xs xs' ↔ (∀ x ∈ xs, P x) ∧ xs = xs' := by
  rw [List.forall₂_and_left, List.forall₂_eq_eq_eq]

theorem entries_diagonal {es es' : List (Text × Value)} (h : t.diagonal.Entries c es es') :
    ∀ e ∈ es, t.value c e.2 := by
  have each : List.Forall₂ (fun e e' => t.value c e.2 ∧ True) es es' :=
    h.imp fun _ _ both => ⟨both.2.1, trivial⟩
  exact ((List.forall₂_and_left _ _).1 each).1

theorem isOrdinary_of_paramNames {params : Value} {e : Failure}
    (failed : paramNames params = .error e) : e.isOrdinary = true := by
  unfold paramNames at failed
  split at failed
  · split at failed
    · cases failed
    · cases failed
      rfl
  · cases failed
    rfl

theorem Sound.coherent (h : t.Sound) (v : Vocabulary) : t.diagonal.Coherent v v where
  refl := h.refl
  trans := h.trans
  text_later later := And.imp_left (h.text_later later)
  value_later later := And.imp_left (h.value_later later)
  form _ := rfl
  symbol := by
    rintro c x _ ⟨-, rfl⟩
    exact Option.map_id'.symm
  list := by
    rintro c x _ ⟨text, rfl⟩
    cases x with
    | list xs => exact .some (forall₂_diagonal.2 ⟨h.items text, rfl⟩)
    | _ => exact .none
  truth c b := ⟨h.truth c b, rfl⟩
  boolean := by
    rintro c x _ ⟨-, rfl⟩
    rfl
  callable := by
    rintro c f _ ⟨-, rfl⟩
    cases f with
    | builtin b => exact .builtin b b
    | closure params body home =>
      refine .closure _ _ _ _ ?_
      cases named : paramNames params with
      | error e => exact .failed ⟨h.ordinary e (isOrdinary_of_paramNames named), rfl⟩
      | ok names =>
        have same := Likeness.Params.named (k := t.diagonal) (c := c) names
        rwa [show names.map t.diagonal.name = names from List.map_id names] at same
    | _ => exact .other rfl rfl
  raised := by
    intro c e e' raised
    cases raised with
    | formArity | closureArity => exact ⟨h.ordinary _ rfl, rfl⟩
    | notCallable about => exact ⟨h.ordinary _ rfl, congrArg _ about.2⟩
    | conditionNotBoolean n about | targetNotSymbol n about | bindingsNotList n about
    | bindingNotPair n about | bindingNotSymbol n about =>
      exact ⟨h.ordinary _ rfl, congrArg _ about.2⟩

theorem holds_move {a a' : Move} (moves : a.Alike t.diagonal c a') : a.Holds t c := by
  cases moves with
  | answer values => exact values.1
  | fail failures => exact failures.1
  | lookup n => trivial
  | define n allowed values => exact ⟨allowed, values.1⟩
  | close allowed params bodies => exact ⟨allowed, params.1, bodies.1⟩
  | call functions values => exact ⟨functions.1, (forall₂_diagonal.1 values).1⟩
  | block n entries bodies => exact ⟨entries_diagonal entries, bodies.1⟩
  | enter functions entries => exact ⟨functions.1, entries_diagonal entries⟩

theorem holds_of_alike {p p' : Plan} (plans : p.Alike t.diagonal c p') : p.Holds t c := by
  induction plans with
  | move moves => exact .move (holds_move moves)
  | eval texts _ ih => exact .eval texts.1 fun later value => ih later ⟨value, rfl⟩

/-- **The plan of an expression has the traits that the expression has.** -/
theorem Sound.holds_plan (h : t.Sound) {v : Vocabulary} {x : Value} (whole : t.Whole v c x)
    (eager : Bool) : (x.plan v eager).Holds t c := by
  have alike : t.diagonal.Whole v c x x := by
    cases x with
    | nil => exact .nil ⟨whole, rfl⟩
    | quote x => exact .quote ⟨whole, rfl⟩
    | symbol n => exact .symbol n
    | list xs => exact .list (forall₂_diagonal.2 ⟨whole.1, rfl⟩) whole.2
    | scopedLet bindings body => exact .scopedLet ⟨whole, rfl⟩
    | _ => exact .constant rfl rfl ⟨whole, rfl⟩
  exact holds_of_alike ((h.coherent v).alike_plan alike eager)

/-- Traits that are the same at every stage. -/
def lasting (text value : Value → Prop) (failure : Failure → Prop) (allows : Form → Prop) :
    Traits Unit where
  later := Eq
  text _ := text
  value _ := value
  failure := failure
  allows := allows

theorem sound_lasting {text value : Value → Prop} {failure : Failure → Prop} {allows : Form → Prop}
    (items : ∀ {xs}, text (.list xs) → ∀ x ∈ xs, text x) (truth : ∀ b, value (.boolean b))
    (ordinary : ∀ e : Failure, e.isOrdinary = true → failure e) :
    (lasting text value failure allows).Sound where
  refl _ := rfl
  trans := Eq.trans
  text_later _ := id
  value_later _ := id
  items := items
  truth _ := truth
  ordinary := ordinary

/-- Traits of expressions alone, whatever their values are. -/
def ofText (P : Value → Prop) (allows : Form → Prop) : Traits Unit :=
  lasting P (fun _ => True) (fun _ => True) allows

theorem holds_plan_ofText {P : Value → Prop} {allows : Form → Prop}
    (items : ∀ {xs}, P (.list xs) → ∀ x ∈ xs, P x) {v : Vocabulary} {x : Value} (h : P x)
    (forms : ∀ {head args form n}, x = .list (head :: args) → headForm? v head = some (form, n) →
      allows form) (eager : Bool) : (x.plan v eager).Holds (ofText P allows) () := by
  have sound : (ofText P allows).Sound :=
    sound_lasting items (fun _ => trivial) fun _ _ => trivial
  refine sound.holds_plan ?_ eager
  cases x with
  | list xs => exact ⟨items h, fun same => forms (congrArg _ same)⟩
  | _ => trivial

end Traits
end Argot
