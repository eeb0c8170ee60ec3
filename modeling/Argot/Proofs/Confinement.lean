import Argot.Proofs.Likeness

set_option autoImplicit false

/-!
# Evaluation writes only to its own scope

An evaluation reads through the whole chain of its scope, and it may call closures whose
bodies define names; still it writes to no scope but the one it was given and those it
makes itself.  `Store.Keeps scope` is this relation between the stores before and after.
It is closed under composition, and so the proof goes along the plan of a step.

An expression without definitions does not even write to its own scope
(`Store.Untouched`): the bodies of the closures it calls have scopes of their own.
-/

namespace Argot

/-! ## What may change -/

/-- The second frame is the first one with more names bound, or with other values. -/
structure Frame.Extends (f f' : Frame) : Prop where
  name : f'.name = f.name
  parent : f'.parent = f.parent
  isGlobal : f'.isGlobal = f.isGlobal
  names : ∀ n, n ∈ f.bindings.names → n ∈ f'.bindings.names

namespace Frame.Extends

theorem refl (f : Frame) : f.Extends f := ⟨rfl, rfl, rfl, fun _ bound => bound⟩

theorem trans {f₁ f₂ f₃ : Frame} (h : f₁.Extends f₂) (h' : f₂.Extends f₃) : f₁.Extends f₃ :=
  ⟨h'.name.trans h.name, h'.parent.trans h.parent, h'.isGlobal.trans h.isGlobal,
    fun n bound => h'.names n (h.names n bound)⟩

theorem insert (f : Frame) (name : Text) (x : Value) :
    f.Extends { f with bindings := f.bindings.insert name x } := by
  refine ⟨rfl, rfl, rfl, ?_⟩
  intro n bound
  rw [NameMap.mem_names_iff, NameMap.contains] at *
  rw [NameMap.find?_insert]
  split
  · rfl
  · exact bound

end Frame.Extends

namespace Store

/-- Every scope of the first store is in the second one as it was. -/
def Untouched (s s' : Store) : Prop := ∀ i f, s.frame? i = some f → s'.frame? i = some f

/-- Every scope of the first store but one is in the second one as it was, and that one
has lost no name. -/
structure Keeps (scope : Nat) (s s' : Store) : Prop where
  others : ∀ i f, i ≠ scope → s.frame? i = some f → s'.frame? i = some f
  own : ∀ f, s.frame? scope = some f → ∃ f', s'.frame? scope = some f' ∧ f.Extends f'

theorem Untouched.trans {s₁ s₂ s₃ : Store} (h : s₁.Untouched s₂) (h' : s₂.Untouched s₃) :
    s₁.Untouched s₃ :=
  fun i f found => h' i f (h i f found)

theorem Untouched.keeps {s s' : Store} (h : s.Untouched s') (scope : Nat) : s.Keeps scope s' :=
  ⟨fun i f _ found => h i f found, fun f found => ⟨f, h scope f found, .refl f⟩⟩

theorem Keeps.refl (scope : Nat) (s : Store) : s.Keeps scope s :=
  Untouched.keeps (fun _ _ found => found) scope

theorem Keeps.trans {scope : Nat} {s₁ s₂ s₃ : Store} (h : s₁.Keeps scope s₂)
    (h' : s₂.Keeps scope s₃) : s₁.Keeps scope s₃ := by
  refine ⟨fun i f other found => h'.others i f other (h.others i f other found), ?_⟩
  intro f found
  obtain ⟨f₂, found₂, extends₂⟩ := h.own f found
  obtain ⟨f₃, found₃, extends₃⟩ := h'.own f₂ found₂
  exact ⟨f₃, found₃, extends₂.trans extends₃⟩

/-- Binding a name writes to one scope. -/
theorem keeps_bind (s : Store) (scope : Nat) (name : Text) (x : Value) :
    s.Keeps scope (s.bind scope name x) := by
  constructor
  · intro i f other found
    rw [frame?_bind, if_neg other, found]
  · intro f found
    refine ⟨{ f with bindings := f.bindings.insert name x }, ?_, .insert f name x⟩
    rw [frame?_bind, if_pos rfl, found]
    rfl

theorem frame?_lt {s : Store} {i : Nat} {f : Frame} (found : s.frame? i = some f) :
    i < s.size := by
  obtain ⟨present, _⟩ := Array.getElem?_eq_some_iff.1 found
  exact present

/-- What is written to a new scope leaves all older scopes as they were. -/
theorem Keeps.untouched_of_push {s s' : Store} {f : Frame} (h : (s.push f).Keeps s.size s') :
    s.Untouched s' := by
  intro i g found
  have older : i ≠ s.size := Nat.ne_of_lt (frame?_lt found)
  apply h.others i g older
  rw [frame?_push, if_neg older, found]

end Store

/-! ## Steps

Each lemma is about any relation that allows changes outside the store and whatever
happens in a new scope.  The relation of the whole evaluation and that of an evaluation
without definitions are both of this kind. -/

/-- The relation allows everything but writing to a scope that exists. -/
structure Confines (R : World → World → Prop) : Prop extends Run.IsPath R where
  quiet : ∀ {w w'}, w'.store = w.store → R w w'
  inner : ∀ {w w'}, w.store.Untouched w'.store → R w w'

theorem keeps_confines (scope : Nat) :
    Confines fun w w' => w.store.Keeps scope w'.store where
  refl w := .refl scope w.store
  trans := .trans
  quiet same := same ▸ .refl scope _
  inner untouched := untouched.keeps scope

theorem untouched_confines : Confines fun w w' => w.store.Untouched w'.store where
  refl _ _ _ found := found
  trans := .trans
  quiet same := same ▸ fun _ _ found => found
  inner untouched := untouched

open Run

section Steps

variable {R : World → World → Prop} {α : Type}

theorem stays_record (confines : Confines R) (r : Rules) (e : TraceEvent) :
    Stays R (Run.record r e) :=
  fun w => .of_apply (record_apply r e w) (confines.quiet rfl)

theorem stays_lookup (confines : Confines R) (scope : Nat) (name : Text) :
    Stays R (Run.lookup scope name) :=
  fun w => .of_apply (lookup_apply scope name w) (confines.refl w)

theorem stays_callBuiltin (confines : Confines R) (r : Rules) (b : Builtin) (args : List Value) :
    Stays R (Run.callBuiltin r b args) :=
  fun w => .of_apply (callBuiltin_apply r b args w) (confines.quiet rfl)

/-- What keeps to a new scope is allowed. -/
theorem stays_pushFrame (confines : Confines R) (f : Frame) {k : Nat → Run α}
    (h : ∀ i, Stays (fun w w' => w.store.Keeps i w'.store) (k i)) :
    Stays R (Run.pushFrame f >>= k) := by
  intro w
  refine .andThen (.of_apply (pushFrame_apply f w) ⟨?_, ?_⟩)
  · intro e impossible
    cases impossible
  · intro i answer
    cases answer
    refine (h _ _).mono ?_
    intro _ w' keeps
    exact confines.inner keeps.untouched_of_push

variable {ev : Evaluator} {scope : Nat}

/-- Bodies are evaluated in new scopes; all that can be written to is the scope at hand. -/
theorem Move.stays_run (confines : Confines R) (r : Rules) (depth : Nat)
    (keeps : ∀ x i d, Stays (fun w w' => w.store.Keeps i w'.store) (ev x i d)) (a : Move)
    (define : ∀ n x, a = .define n x → Stays R (Run.bind scope n x)) :
    Stays R (a.run r ev scope depth) := by
  have path := confines.toIsPath
  cases a with
  | answer x => exact .pure path x
  | fail e => exact .throw path e
  | lookup name => exact stays_lookup confines scope name
  | define name x => exact .andThen path (define name x rfl) fun _ => .pure path _
  | close params body => exact .pure path _
  | call b args =>
    exact .andThen path (stays_record confines r _) fun _ => stays_callBuiltin confines r b args
  | block name bindings body =>
    exact stays_pushFrame confines _ fun i => keeps body i (depth + 1)
  | enter params body home bindings =>
    refine stays_pushFrame confines _ fun i => ?_
    refine .andThen (keeps_confines i).toIsPath (stays_record (keeps_confines i) r _) fun _ => ?_
    exact keeps body i (depth + 1)

theorem Plan.stays_run (confines : Confines R) (r : Rules) (depth : Nat) {P : Value → Prop}
    {allows : Form → Prop} (parts : ∀ x, P x → ∀ d, Stays R (ev x scope d))
    (define : allows .definition → ∀ n x, Stays R (Run.bind scope n x))
    (keeps : ∀ x i d, Stays (fun w w' => w.store.Keeps i w'.store) (ev x i d))
    {p : Plan} {c : Unit} (h : p.Holds (.ofText P allows) c) :
    Stays R (p.run r ev scope depth) := by
  induction h with
  | @move _ a moves =>
    refine a.stays_run confines r depth keeps fun n x same => ?_
    subst same
    exact define moves.1 n x
  | eval text _ ih => exact .andThen confines.toIsPath (parts _ text _) fun _ => ih rfl trivial

/-- The head of a special form is the symbol that names it. -/
theorem headForm?_eq_some {v : Vocabulary} {head : Value} {form : Form} {name : Text}
    (h : headForm? v head = some (form, name)) :
    head = .symbol name ∧ v.form? name = some form := by
  cases head with
  | symbol n =>
    simp only [headForm?, Option.map_eq_some_iff, Prod.mk.injEq] at h
    obtain ⟨_, named, rfl, rfl⟩ := h
    exact ⟨rfl, named⟩
  | _ => cases h

/-- One step of evaluation.  `P` is a property that expressions hand down to their parts;
the parts with the property stay within the relation, and so does a definition among
them. -/
theorem stays_evalStep (confines : Confines R) (r : Rules) (depth : Nat) {P : Value → Prop}
    (items : ∀ {xs}, P (.list xs) → ∀ x ∈ xs, P x)
    (parts : ∀ x, P x → ∀ d, Stays R (ev x scope d))
    (define : ∀ name args, P (.list (.symbol name :: args)) →
      r.vocabulary.form? name = some .definition → ∀ n y, Stays R (Run.bind scope n y))
    (keeps : ∀ x i d, Stays (fun w w' => w.store.Keeps i w'.store) (ev x i d))
    {x : Value} (h : P x) : Stays R (evalStep r ev x scope depth) := by
  rw [evalStep_eq]
  refine .andThen confines.toIsPath (stays_record confines r _) fun _ => ?_
  have plan : (x.plan r.vocabulary r.eagerIf).Holds
      (.ofText P fun form => form = .definition → ∀ n y, Stays R (Run.bind scope n y)) () := by
    refine Traits.holds_plan_ofText items h ?_ _
    rintro head args form name rfl named rfl
    obtain ⟨rfl, isForm⟩ := headForm?_eq_some named
    exact define name args h isForm
  exact Plan.stays_run confines r depth parts (fun defines => defines rfl) keeps plan

end Steps

/-! ## Whole evaluations -/

/-- No evaluation writes to a scope that exists, except to its own. -/
theorem eval_keeps (r : Rules) (fuel : Nat) (x : Value) (scope depth : Nat) :
    Stays (fun w w' => w.store.Keeps scope w'.store) (eval r fuel x scope depth) := by
  induction fuel generalizing x scope depth with
  | zero => exact .exhausted
  | succ fuel ih =>
    refine stays_evalStep (keeps_confines scope) r depth (P := fun _ => True)
      (fun _ _ _ => trivial) (fun x _ d => ih x scope d) ?_ ih trivial
    intro _ _ _ _ n y w
    exact .of_apply (bind_apply scope n y w) (w.store.keeps_bind scope n y)

mutual

/-- Whether some list of an expression starts with a symbol.  What stands behind a quote
or in a closure is not evaluated with the expression and does not count. -/
def Value.listStartsWith (name : Text) : Value → Bool
  | .list items =>
    items.head?.bind Value.symbolName? == some name || Value.someListStartsWith name items
  | _ => false

/-- Whether some list of some of the expressions starts with a symbol. -/
def Value.someListStartsWith (name : Text) : List Value → Bool
  | [] => false
  | x :: xs => x.listStartsWith name || Value.someListStartsWith name xs

end

theorem Value.someListStartsWith_eq_false {name : Text} {xs : List Value}
    (h : Value.someListStartsWith name xs = false) :
    ∀ x ∈ xs, x.listStartsWith name = false := by
  induction xs with
  | nil =>
    intro x member
    cases member
  | cons y ys ih =>
    rw [Value.someListStartsWith, Bool.or_eq_false_iff] at h
    intro x member
    rcases List.mem_cons.1 member with rfl | member
    · exact h.1
    · exact ih h.2 x member

theorem Vocabulary.form?_eq_definition {v : Vocabulary} {name : Text}
    (h : v.form? name = some .definition) : name = v.varForm := by
  unfold Vocabulary.form? at h
  split at h
  · cases h
  split at h
  · cases h
  split at h
  · rename_i same
    exact same
  split at h <;> cases h

/-- An evaluation without definitions writes to no scope that exists. -/
theorem eval_untouched (r : Rules) (fuel : Nat) (x : Value) (scope depth : Nat)
    (h : x.listStartsWith r.vocabulary.varForm = false) :
    Stays (fun w w' => w.store.Untouched w'.store) (eval r fuel x scope depth) := by
  induction fuel generalizing x depth with
  | zero => exact .exhausted
  | succ fuel ih =>
    refine stays_evalStep untouched_confines r depth
      (P := fun x => x.listStartsWith r.vocabulary.varForm = false) ?_ (fun x hx d => ih x d hx) ?_
      (eval_keeps r fuel) h
    · intro xs hx
      rw [Value.listStartsWith, Bool.or_eq_false_iff] at hx
      exact Value.someListStartsWith_eq_false hx.2
    · -- a definition would make its own list start with the keyword
      intro name args hx isForm
      rw [Vocabulary.form?_eq_definition isForm, Value.listStartsWith] at hx
      simp [Value.symbolName?] at hx

/-- **Evaluation writes only to its own scope.**  Under any rules, whatever the expression
is and however it ends:

* every other scope that was there before is there afterwards, with its name, its parent
  and its bindings;
* the scope itself keeps its name and parent and loses no name;
* if no list of the expression starts with the keyword of definitions, the scope itself
  is unchanged too, whatever the bodies of the closures define that it calls. -/
theorem eval_writes_only_to_its_scope (r : Rules) (fuel : Nat) (x : Value) (scope depth : Nat)
    {w w' : World} {answer : Except Failure Value}
    (ends : eval r fuel x scope depth w = some (answer, w')) :
    (∀ i f, i ≠ scope → w.store.frame? i = some f → w'.store.frame? i = some f) ∧
    (∀ f, w.store.frame? scope = some f →
      ∃ f', w'.store.frame? scope = some f' ∧ f'.name = f.name ∧ f'.parent = f.parent ∧
        f'.isGlobal = f.isGlobal ∧ ∀ n, n ∈ f.bindings.names → n ∈ f'.bindings.names) ∧
    (x.listStartsWith r.vocabulary.varForm = false →
      ∀ i f, w.store.frame? i = some f → w'.store.frame? i = some f) := by
  have keeps := eval_keeps r fuel x scope depth w answer w' ends
  refine ⟨keeps.others, ?_, ?_⟩
  · intro f found
    obtain ⟨f', found', extends'⟩ := keeps.own f found
    exact ⟨f', found', extends'.name, extends'.parent, extends'.isGlobal, extends'.names⟩
  · intro undefining
    exact eval_untouched r fuel x scope depth undefining w answer w' ends

/-- A lexical closure of the global scope defines a name in its body.  Called from a child
scope it changes neither the child nor the global scope. -/
theorem call_from_child_writes_nothing :
    let rules : Rules := ⟨.words, true, false, false, fun _ _ _ => .error .nilExpression⟩
    let definer : Value :=
      .closure (.list []) (.list [.symbol "var", .symbol "a", .boolean true]) (some 0)
    let global : Frame := { Store.globalFrame with bindings := NameMap.ofList [("f", definer)] }
    let child : Frame := Store.childFrame "local" 0
    let w : World := ⟨⟨#[global, child], 0⟩, ⟨0⟩, []⟩
    ∃ answer w', eval rules 3 (.list [.symbol "f"]) 1 0 w = some (answer, w') ∧
      w'.store.size = 3 ∧ w'.store.frame? 0 = some global ∧ w'.store.frame? 1 = some child := by
  intro rules definer global child w
  obtain ⟨answer, w', ends, size⟩ : ∃ answer w',
      eval rules 3 (.list [.symbol "f"]) 1 0 w = some (answer, w') ∧ w'.store.size = 3 :=
    ⟨_, _, rfl, rfl⟩
  obtain ⟨others, _, undefining⟩ := eval_writes_only_to_its_scope rules 3 _ 1 0 ends
  exact ⟨answer, w', ends, size, others 0 global (by decide) rfl, undefining rfl 1 child rfl⟩

end Argot
