import Argot.Proofs.FlatEvaluation
import Argot.Proofs.Fuel

set_option autoImplicit false

/-!
# Evaluating both branches

With eager choice, both branches are evaluated before one of them is picked.  A branch that
is not picked can do three things: change what later expressions see, fail, or not end.
Without definitions and random numbers the first is out of the question, so that eager
choice only has fewer values than lazy choice, and never another one
(`eager_choice_restricts_lazy_choice`).

The argument is about flat evaluation, whose world is a map of names and a generator: an
expression without definitions and random numbers that has a value leaves this world as it
was, and so the branch that is not picked can be left out (`FlatRun.Restricts`).
-/

namespace Argot

/-! ## Steady values -/

/-- Whether a part of a value is neither the keyword nor draws random numbers. -/
def Value.isSteadyPart (keyword : Text) : Value → Bool
  | .symbol n => n != keyword
  | .builtin b => b.op != .random
  | _ => true

/-- The keyword and the builtin that draws random numbers occur nowhere in the value. -/
def Value.Steady (keyword : Text) (x : Value) : Prop :=
  x.Each fun y => y.isSteadyPart keyword = true

instance (keyword : Text) : DecidablePred (Value.Steady keyword) := fun x =>
  inferInstanceAs (Decidable (x.Each fun y => y.isSteadyPart keyword = true))

/-- A host function that is given steady values answers a steady one. -/
def Host.Steady (keyword : Text) (host : Host) : Prop :=
  ∀ slot name args y, (∀ x ∈ args, Value.Steady keyword x) → host slot name args = .ok y →
    Value.Steady keyword y

theorem Value.inherited_steady (keyword : Text) : Value.Inherited (Value.Steady keyword) :=
  Value.inherited_each (fun _ => rfl) (fun _ => rfl) fun _ => rfl

/-- A form of a steady expression is no definition. -/
theorem Value.Steady.form_ne {v : Vocabulary} {head : Value} {form : Form} {name : Text}
    (steady : head.Steady v.varForm) (named : headForm? v head = some (form, name)) :
    form ≠ .definition := by
  rintro rfl
  obtain ⟨rfl, isForm⟩ := headForm?_eq_some named
  have different : name != v.varForm := steady.self
  exact bne_iff_ne.1 different (Vocabulary.form?_eq_definition isForm)

mutual

theorem Value.Steady.listStartsWith {keyword : Text} :
    (x : Value) → x.Steady keyword → x.listStartsWith keyword = false
  | .list items, steady => by
    have itemsSteady := (Value.each_list.1 steady).2
    rw [Value.listStartsWith, Value.Steady.someListStartsWith items itemsSteady, Bool.or_false]
    cases items with
    | nil => rfl
    | cons head args =>
      have different := (itemsSteady head List.mem_cons_self).self
      cases head with
      | symbol n => simpa [Value.symbolName?, Value.isSteadyPart] using different
      | _ => rfl
  | .nil, _ | .quote _, _ | .symbol _, _ | .number _, _ | .boolean _, _ | .string _, _
  | .builtin _, _ | .closure _ _ _, _ | .scopedLet _ _, _ => rfl

theorem Value.Steady.someListStartsWith {keyword : Text} :
    (xs : List Value) → (∀ x ∈ xs, x.Steady keyword) →
      Value.someListStartsWith keyword xs = false
  | [], _ => rfl
  | x :: xs, steady => by
    rw [Value.someListStartsWith,
      Value.Steady.listStartsWith x (steady x List.mem_cons_self),
      Value.Steady.someListStartsWith xs fun y member => steady y (List.mem_cons_of_mem x member)]
    rfl

end

/-! ## Leaving out what has no effect -/

namespace FlatRun

variable {α β : Type}

/-- A run with a continuation has a value only if both have. -/
theorem andThen_eq_ok {m : FlatRun α} {f : α → FlatRun β} {w w' : FlatWorld} {y : β}
    (ends : (m >>= f) w = some (.ok y, w')) :
    ∃ x w₁, m w = some (.ok x, w₁) ∧ f x w₁ = some (.ok y, w') := by
  rw [Run.andThen_apply] at ends
  cases first : m w with
  | none =>
    rw [first] at ends
    cases ends
  | some out =>
    obtain ⟨answer, w₁⟩ := out
    rw [first] at ends
    cases answer with
    | error e => cases ends
    | ok x => exact ⟨x, w₁, rfl, ends⟩

/-- Where names mean steady values: if the first run has a value, then it leaves the world
as it was, the value has the property, and the second run does the same. -/
def Restricts (keyword : Text) (P : α → Prop) (m m' : FlatRun α) : Prop :=
  ∀ w : FlatWorld, (∀ name x, w.names.find? name = some x → x.Steady keyword) →
    ∀ y w', m w = some (.ok y, w') → w' = w ∧ P y ∧ m' w = some (.ok y, w)

namespace Restricts

variable {keyword : Text} {P : α → Prop} {Q : β → Prop}

theorem pure {x : α} (h : P x) : Restricts keyword P (Pure.pure x) (Pure.pure x) := by
  intro w _ y w' ends
  cases ends
  exact ⟨rfl, h, rfl⟩

theorem throw (e : Failure) (m' : FlatRun α) : Restricts keyword P (MonadExcept.throw e) m' := by
  intro w _ y w' ends
  cases ends

theorem exhausted (m' : FlatRun α) : Restricts keyword P FlatRun.exhausted m' := by
  intro w _ y w' ends
  cases ends

theorem andThen {m m' : FlatRun α} {f f' : α → FlatRun β} (h : Restricts keyword P m m')
    (next : ∀ x, P x → Restricts keyword Q (f x) (f' x)) :
    Restricts keyword Q (m >>= f) (m' >>= f') := by
  intro w steady z w' ends
  obtain ⟨x, w₁, first, second⟩ := andThen_eq_ok ends
  obtain ⟨rfl, good, first'⟩ := h w steady x w₁ first
  obtain ⟨rfl, good', second'⟩ := next x good _ steady z w' second
  refine ⟨rfl, good', ?_⟩
  rw [Run.andThen_apply, first']
  exact second'

/-- A run in front that has a value can be left out. -/
theorem skip {m m' : FlatRun α} {f : α → FlatRun β} {k : FlatRun β}
    (h : Restricts keyword P m m') (next : ∀ x, P x → Restricts keyword Q (f x) k) :
    Restricts keyword Q (m >>= f) k := by
  intro w steady z w' ends
  obtain ⟨x, w₁, first, second⟩ := andThen_eq_ok ends
  obtain ⟨rfl, good, _⟩ := h w steady x w₁ first
  exact next x good _ steady z w' second

theorem lookup (name : Text) :
    Restricts keyword (Value.Steady keyword) (FlatRun.lookup name) (FlatRun.lookup name) := by
  intro w steady y w' ends
  have again := ends
  unfold FlatRun.lookup at ends
  split at ends
  · rename_i x found
    cases ends
    exact ⟨rfl, steady name _ found, again⟩
  · cases ends

theorem callBuiltin {r r' : Rules} (same : r'.host = r.host) (host : r.host.Steady keyword)
    {b : Builtin} (deterministic : b.op ≠ .random) {args : List Value}
    (steadyArgs : ∀ x ∈ args, x.Steady keyword) :
    Restricts keyword (Value.Steady keyword) (FlatRun.callBuiltin r b args)
      (FlatRun.callBuiltin r' b args) := by
  intro w _ y w' ends
  have meets := Primitive.meets_apply (Value.inherited_steady keyword) (fun _ _ => trivial)
    steadyArgs b.op
    (fun slot _ => meets_of_answer fun y => host slot b.name args y steadyArgs) w.generator
  have generator := Primitive.generator_apply deterministic r.host b.name args w.generator
  have result (r : Rules) : FlatRun.callBuiltin r b args w =
      some ((b.op.apply r.host b.name args w.generator).1,
        { w with generator := (b.op.apply r.host b.name args w.generator).2 }) := rfl
  rw [result, generator] at ends
  obtain ⟨answer, rfl⟩ := Prod.mk.inj (Option.some.inj ends)
  rw [answer] at meets
  refine ⟨rfl, meets, ?_⟩
  rw [result, same, generator, answer]

theorem inCopy {bindings : List (Text × Value)} {m m' : FlatRun α}
    (steadyBindings : ∀ e ∈ bindings, e.2.Steady keyword) (h : Restricts keyword P m m') :
    Restricts keyword P (FlatRun.inCopy bindings m) (FlatRun.inCopy bindings m') := by
  intro w steady y w' ends
  have inner : ∀ name x, ((NameMap.ofList bindings).overlay w.names).find? name = some x →
      x.Steady keyword := by
    intro name x found
    rw [NameMap.find?_overlay] at found
    rcases Option.or_eq_some_iff.1 found with own | ⟨_, outer⟩
    · exact steadyBindings _ (NameMap.find?_ofList_eq_some own)
    · exact steady name x outer
  unfold FlatRun.inCopy at ends ⊢
  split at ends
  · cases ends
  · rename_i answer w₁ body
    cases ends
    obtain ⟨rfl, good, body'⟩ := h _ inner y w₁ body
    rw [body']
    exact ⟨rfl, good, rfl⟩

end Restricts
end FlatRun

/-! ## Steps -/

section Steps

open FlatRun

/-- The first way to evaluate restricts the second one on steady expressions. -/
def FlatEvaluator.Restricts (keyword : Text) (ev ev' : FlatEvaluator) : Prop :=
  ∀ x, x.Steady keyword →
    FlatRun.Restricts keyword (Value.Steady keyword) (ev x) (ev' x)

variable {keyword : Text} {ev ev' : FlatEvaluator} (evs : FlatEvaluator.Restricts keyword ev ev')

include evs

/-- Both branches have a value, so the one that is not picked can be left out. -/
theorem restricts_flatChoice (r : Rules) (name : Text) {args : List Value}
    (steady : ∀ x ∈ args, x.Steady keyword) :
    Restricts keyword (Value.Steady keyword) (flatChoice { r with eagerIf := true } ev name args)
      (flatChoice { r with eagerIf := false } ev' name args) := by
  rcases args with _ | ⟨condition, _ | ⟨yes, _ | ⟨no, _ | ⟨_, _⟩⟩⟩⟩
  · exact .throw _ _
  · exact .throw _ _
  · exact .throw _ _
  · have whenTrue := evs yes (steady yes (by simp))
    have whenFalse := evs no (steady no (by simp))
    refine .andThen (evs condition (steady condition (by simp))) fun c _ => ?_
    show Restricts keyword _
      (ev yes >>= fun y => ev no >>= fun n => flatBranch name c (pure y) (pure n))
      (flatBranch name c (ev' yes) (ev' no))
    cases c with
    | boolean truth =>
      cases truth with
      | true =>
        show Restricts keyword _ (ev yes >>= fun y => ev no >>= fun _ => pure y) (ev' yes)
        rw [← bind_pure (ev' yes)]
        exact .andThen whenTrue fun y steadyY => .skip whenFalse fun _ _ => .pure steadyY
      | false =>
        show Restricts keyword _ (ev yes >>= fun _ => ev no >>= fun n => pure n) (ev' no)
        rw [← bind_pure (ev' no)]
        exact .skip whenTrue fun _ _ => .andThen whenFalse fun n steadyN => .pure steadyN
    | _ => exact .skip whenTrue fun _ _ => .skip whenFalse fun _ _ => .throw _ _
  · exact .throw _ _

/-- Neither the keyword nor random numbers occur in an expression or its value, so that it holds no
definition. -/
def Traits.steady (keyword : Text) : Traits Unit :=
  lasting (Value.Steady keyword) (Value.Steady keyword) (fun _ => True) (· ≠ .definition)

omit evs in
theorem Traits.sound_steady : (Traits.steady keyword).Sound :=
  sound_lasting (Value.inherited_steady keyword).list.1 (Value.inherited_steady keyword).boolean
    fun _ _ => trivial

omit evs in
theorem Traits.whole_steady {v : Vocabulary} {x : Value} (steady : x.Steady v.varForm) :
    (Traits.steady v.varForm).Whole v () x := by
  cases x with
  | quote x => exact (Value.each_quote.1 steady).2
  | list xs =>
    have items := (Value.each_list.1 steady).2
    refine ⟨items, ?_⟩
    rintro head args form name rfl named
    exact Value.Steady.form_ne (items head List.mem_cons_self) named
  | nil | symbol | scopedLet => trivial
  | _ => exact steady

theorem Move.restricts_flat {r r' : Rules} (same : r'.host = r.host) (host : r.host.Steady keyword)
    {a : Move} {c : Unit} (steady : a.Holds (.steady keyword) c) :
    Restricts keyword (Value.Steady keyword) (a.flat r ev) (a.flat r' ev') := by
  cases a with
  | answer x => exact .pure steady
  | fail e => exact .throw _ _
  | lookup name => exact .lookup name
  | define name x => exact absurd rfl steady.1
  | close params body => exact .pure (Value.each_closure.2 ⟨rfl, steady.2⟩)
  | call b args =>
    have deterministic : b.op != .random := Value.Each.self steady.1
    exact .callBuiltin same host (bne_iff_ne.1 deterministic) steady.2
  | block name bindings body => exact .inCopy steady.1 (evs body steady.2)
  | enter params body home bindings =>
    exact .inCopy steady.2 (evs body (Value.each_closure.1 steady.1).2.2)

theorem Plan.restricts_flat {r r' : Rules} (same : r'.host = r.host) (host : r.host.Steady keyword)
    {p : Plan} {c : Unit} (steady : p.Holds (.steady keyword) c) :
    Restricts keyword (Value.Steady keyword) (p.flat r ev) (p.flat r' ev') := by
  induction steady with
  | move moves => exact Move.restricts_flat evs same host moves
  | eval text _ ih => exact .andThen (evs _ text) fun y steadyY => ih rfl steadyY

theorem restricts_flatStep {r : Rules} (vocabulary : r.vocabulary.varForm = keyword)
    (host : r.host.Steady keyword) :
    FlatEvaluator.Restricts keyword (flatStep { r with eagerIf := true } ev)
      (flatStep { r with eagerIf := false } ev') := by
  subst vocabulary
  intro x steady
  rw [flatStep_eq, flatStep_eq]
  dsimp only
  rcases x.plan_eq_or_choice r.vocabulary with same | ⟨head, args, name, rfl, choice⟩
  · rw [same]
    exact Plan.restricts_flat evs rfl host
      (Traits.sound_steady.holds_plan (Traits.whole_steady steady) false)
  · have items := (Value.each_list.1 steady).2
    rw [choice, choice]
    have eager := Plan.flat_choice { r with eagerIf := true } ev name args
    have lazy := Plan.flat_choice { r with eagerIf := false } ev' name args
    rw [eager, lazy]
    exact restricts_flatChoice evs r name fun x member => items x (List.mem_cons_of_mem head member)

end Steps

/-! ## Whole evaluations -/

theorem flatEval_restricts {r : Rules} (host : r.host.Steady r.vocabulary.varForm) (fuel : Nat) :
    FlatEvaluator.Restricts r.vocabulary.varForm (flatEval { r with eagerIf := true } fuel)
      (flatEval { r with eagerIf := false } fuel) := by
  induction fuel with
  | zero => exact fun _ _ => .exhausted _
  | succ fuel ih => exact restricts_flatStep ih rfl host

/-- What evaluation in a chain of scopes takes over from flat evaluation: a value of eager
choice is the value of lazy choice. -/
theorem eval_lazy_of_eager {r : Rules} (dynamic : r.lexical = false) (plainHost : r.host.Homeless)
    (host : r.host.Steady r.vocabulary.varForm) {x : Value} (plain : x.homeless = true)
    (steady : x.Steady r.vocabulary.varForm) {scope : Nat} {w : World} (settled : Settled scope w)
    (steadyScope : ∀ name y, w.store.lookup scope name = some y → y.Steady r.vocabulary.varForm)
    {fuel depth : Nat} {y : Value} {w₁ : World}
    (ends : eval { r with eagerIf := true } fuel x scope depth w = some (.ok y, w₁)) :
    ∃ w₂, eval { r with eagerIf := false } fuel x scope depth w = some (.ok y, w₂) := by
  have mirrored (eager : Bool) :=
    (eval_mirrors_flatEval (r := { r with eagerIf := eager }) dynamic plainHost fuel x plain scope
      depth).same w settled
  have flatEager := mirrored true
  rw [ends] at flatEager
  have steadyNames : ∀ name z, (w.flat scope).names.find? name = some z →
      z.Steady r.vocabulary.varForm := by
    intro name z found
    exact steadyScope name z ((w.store.find?_visible scope name).symm.trans found)
  obtain ⟨_, _, flatLazy⟩ :=
    flatEval_restricts host fuel x steady (w.flat scope) steadyNames y _ flatEager.symm
  obtain ⟨⟨answer, w₂⟩, ends', same⟩ :=
    Option.map_eq_some_iff.1 ((mirrored false).trans flatLazy)
  obtain ⟨rfl, _⟩ := Prod.mk.inj same
  exact ⟨w₂, ends'⟩

/-- **Eager choice restricts lazy choice.**  Let closures remember no scope, and let the
keyword of definitions and the builtin that draws random numbers occur nowhere: neither in
the expression, nor in what is visible from the scope, nor in what host functions answer
when they are given nothing of the kind.  Then

* if evaluation has a value when both branches of every choice are evaluated, it has the
  same value when only the one that is picked is, with evaluations nested equally deep;
* either way, and however it ends, every scope that was there is as it was;
* if evaluation fails when only one branch is evaluated, then it has no value when both
  are, however deep evaluations may nest. -/
theorem eager_choice_restricts_lazy_choice (r : Rules) (dynamic : r.lexical = false)
    (plainHost : r.host.Homeless) (host : r.host.Steady r.vocabulary.varForm) (x : Value)
    (scope depth : Nat) (w : World) (present : scope < w.store.size)
    (plain : x.homeless = true ∧ x.Steady r.vocabulary.varForm)
    (plainScope : ∀ name y, w.store.lookup scope name = some y →
      y.homeless = true ∧ y.Steady r.vocabulary.varForm) :
    let evaluate := fun eager fuel => eval { r with eagerIf := eager } fuel x scope depth w
    (∀ fuel y w₁, evaluate true fuel = some (.ok y, w₁) →
      ∃ w₂, evaluate false fuel = some (.ok y, w₂)) ∧
    (∀ eager fuel answer w', evaluate eager fuel = some (answer, w') →
      ∀ i f, w.store.frame? i = some f → w'.store.frame? i = some f) ∧
    ∀ fuel e w₂, evaluate false fuel = some (.error e, w₂) →
      ∀ fuel' y w₁, evaluate true fuel' ≠ some (.ok y, w₁) := by
  intro evaluate
  have settled : Settled scope w := ⟨present, fun name y found => (plainScope name y found).1⟩
  have same : ∀ fuel y w₁, evaluate true fuel = some (.ok y, w₁) →
      ∃ w₂, evaluate false fuel = some (.ok y, w₂) :=
    fun fuel y w₁ => eval_lazy_of_eager dynamic plainHost host plain.1 plain.2 settled
      fun name y found => (plainScope name y found).2
  refine ⟨same, ?_, ?_⟩
  · intro eager fuel answer w' ends
    have undefining := Value.Steady.listStartsWith x plain.2
    exact eval_untouched { r with eagerIf := eager } fuel x scope depth undefining w answer w' ends
  · intro fuel e w₂ fails fuel' y w₁ ends
    obtain ⟨w₂', ends'⟩ := same fuel' y w₁ ends
    -- the failure and the value would be answers of the same evaluation
    cases eval_answer_unique fails ends'

/-- A closure that chooses, called from a scope that binds its free variable anew, has the
same value either way.  The first item of an empty list is a failure in the branch that is
picked, and so it has no value either way. -/
theorem choice_in_a_call_is_the_same :
    let rules : Rules := ⟨.words, false, false, false, fun _ _ args => .ok (.list args)⟩
    let choose (yes no : Value) : Value := .list [.symbol "if", .symbol "x", yes, no]
    let f : Value :=
      .closure (.list [.symbol "a"]) (choose (.quote (.symbol "b")) (.symbol "a")) none
    let global : Frame := { Store.globalFrame with
      bindings := NameMap.ofList
        [("f", f), ("x", .boolean true), ("car", .builtin ⟨0, "car", .first⟩)] }
    let child : Frame := { Store.childFrame "local" 0 with
      bindings := NameMap.ofList [("x", .boolean false)] }
    let w : World := ⟨⟨#[global, child], 0⟩, ⟨0⟩, []⟩
    let call : Value := .list [.symbol "f", choose (.symbol "car") (.list [])]
    let broken : Value := choose (.symbol "f") (.list [.symbol "car", .quote (.list [])])
    (∀ name y, w.store.lookup 1 name = some y → y.homeless = true ∧ y.Steady "var") ∧
      (∃ w₁, eval { rules with eagerIf := true } 4 call 1 0 w = some (.ok (.boolean false), w₁)) ∧
      (∃ w₂, eval { rules with eagerIf := false } 4 call 1 0 w = some (.ok (.boolean false), w₂)) ∧
      ∀ fuel y w₁, eval { rules with eagerIf := true } fuel broken 1 0 w ≠ some (.ok y, w₁) := by
  intro rules choose f global child w call broken
  have plainHost : rules.host.Homeless := by
    intro slot name args y plain answer
    cases answer
    exact Value.homeless_list.2 plain
  have host : rules.host.Steady "var" := by
    intro slot name args y steady answer
    cases answer
    exact (Value.inherited_steady "var").list.2 steady
  have allPlain : (w.store.visible 1).entries.all
      (fun e => e.2.homeless && decide (e.2.Steady "var")) = true := by decide
  have plainScope : ∀ name y, w.store.lookup 1 name = some y →
      y.homeless = true ∧ y.Steady "var" := by
    intro name y found
    rw [← Store.find?_visible] at found
    have passes := List.all_eq_true.1 allPlain _ (NameMap.mem_entries_of_find? found)
    rw [Bool.and_eq_true, decide_eq_true_eq] at passes
    exact passes
  obtain ⟨value, _, _⟩ := eager_choice_restricts_lazy_choice rules rfl plainHost host call 1 0 w
    (by decide) ⟨rfl, by decide⟩ plainScope
  obtain ⟨_, _, failure⟩ := eager_choice_restricts_lazy_choice rules rfl plainHost host broken 1 0 w
    (by decide) ⟨rfl, by decide⟩ plainScope
  obtain ⟨w₁, eagerly⟩ : ∃ w₁,
      eval { rules with eagerIf := true } 4 call 1 0 w = some (.ok (.boolean false), w₁) :=
    ⟨_, rfl⟩
  obtain ⟨e, w₂, lazily⟩ : ∃ e w₂,
      eval { rules with eagerIf := false } 4 broken 1 0 w = some (.error e, w₂) := ⟨_, _, rfl⟩
  exact ⟨plainScope, ⟨w₁, eagerly⟩, value 4 _ w₁ eagerly, failure 4 e w₂ lazily⟩

end Argot
