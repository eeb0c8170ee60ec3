import Argot.Proofs.Confinement
import Argot.Proofs.Unseen

set_option autoImplicit false

/-!
# Blocks and closures that are called at once

A block gives names to the values of expressions and evaluates its body under them.  A
closure of the same names and body that is called right away with the same expressions
does the same (`blocks_are_applied_closures`), though the two take different ways: the
block evaluates its bindings one by one, while the call evaluates the closure, then the
arguments, and then matches these with the parameters.

The scope for the body is named after the form that makes it, and the call leaves more
lines in the trace.  Neither is seen by an evaluation (`eval_agrees`), and this is all that
the worlds differ in afterwards.
-/

namespace Argot

namespace Vocabulary

/-- The block with these bindings around a body. -/
def block (v : Vocabulary) (bindings : List (Text × Value)) (body : Value) : Value :=
  .list [.symbol v.letForm, .list (bindings.map fun b => .list [.symbol b.1, b.2]), body]

/-- The closure of the bound names and the body, called with the expressions they are
bound to. -/
def appliedClosure (v : Vocabulary) (bindings : List (Text × Value)) (body : Value) : Value :=
  .list (.list [.symbol v.closureForm, .list (bindings.map fun b => .symbol b.1), body] ::
    bindings.map fun b => b.2)

end Vocabulary

open Run

section Runs

variable {r : Rules} {ev : Evaluator} {bindings : List (Text × Value)} {body : Value}
  {scope depth : Nat}

/-- The values of a block's bindings are those of the expressions, as arguments. -/
theorem evalBindings_eq (name : Text) :
    evalBindings ev name scope depth (bindings.map fun b => .list [.symbol b.1, b.2]) =
      evalArgs ev scope depth (bindings.map fun b => b.2) >>= fun values =>
        pure ((bindings.map fun b => b.1).zip values) := by
  induction bindings with
  | nil => simp [evalBindings, evalArgs]
  | cons b rest ih => simp [evalBindings, evalArgs, ih]

theorem paramNames_symbols (names : List Text) :
    paramNames (.list (names.map .symbol)) = .ok names := by
  have each : (names.map Value.symbol).mapM Value.symbolName? = some names := by
    induction names with
    | nil => rfl
    | cons n names ih => simp [Value.symbolName?, ih]
  rw [paramNames, each]

/-- Evaluates arguments, gives them names in a new scope with the name of a form, and
evaluates the body there. -/
def evalNamed (ev : Evaluator) (form : Text) (bindings : List (Text × Value)) (body : Value)
    (scope depth : Nat) (entered : Run Unit) : Run Value := do
  let values ← evalArgs ev scope depth (bindings.map fun b => b.2)
  let inner ← pushFrame { Store.childFrame form scope with
    bindings := NameMap.ofList ((bindings.map fun b => b.1).zip values) }
  entered
  ev body inner (depth + 1)

theorem evalStep_block :
    evalStep r ev (r.vocabulary.block bindings body) scope depth =
      record r (.eval depth (r.vocabulary.block bindings body)) >>= fun _ =>
        evalNamed ev r.vocabulary.letForm bindings body scope depth (pure ()) := by
  have form : r.vocabulary.form? r.vocabulary.letForm = some .block := if_pos rfl
  simp [evalStep, Vocabulary.block, headForm?, form, evalForm, evalBlock, evalBindings_eq,
    evalNamed]

/-- An expression in the place of a function is evaluated first. -/
theorem evalStep_call {head : Value} {args : List Value}
    (plain : headForm? r.vocabulary head = none) :
    evalStep r ev (.list (head :: args)) scope depth =
      record r (.eval depth (.list (head :: args))) >>= fun _ =>
        ev head scope (depth + 1) >>= fun function =>
          call r ev head function args scope depth := by
  simp only [evalStep, plain]

theorem evalStep_abstraction (distinct : r.vocabulary.closureForm ≠ r.vocabulary.letForm)
    (params : Value) :
    evalStep r ev (.list [.symbol r.vocabulary.closureForm, params, body]) scope depth =
      record r (.eval depth (.list [.symbol r.vocabulary.closureForm, params, body])) >>= fun _ =>
        pure (.closure params body (if r.lexical then some scope else none)) := by
  have form : r.vocabulary.form? r.vocabulary.closureForm = some .abstraction := by
    rw [Vocabulary.form?, if_neg distinct, if_pos rfl]
  simp only [evalStep, headForm?, form, Option.map_some, evalForm, evalAbstraction]

/-- A closure that is called where it was made has its scope under that one, whether it
remembers it or not. -/
theorem callClosure_eq :
    callClosure r ev (.list (bindings.map fun b => .symbol b.1)) body
        (if r.lexical then some scope else none) (bindings.map fun b => b.2) scope depth =
      evalNamed ev r.vocabulary.closureForm bindings body scope depth
        (record r (.enter depth (.list (bindings.map fun b => .symbol b.1)))) := by
  have names := paramNames_symbols (bindings.map fun b => b.1)
  rw [List.map_map, Function.comp_def] at names
  have home : (if r.lexical then some scope else none).getD scope = scope := by
    cases r.lexical <;> rfl
  have enough : (bindings.map fun b => b.1).length = (bindings.map fun b => b.2).length := by
    rw [List.length_map, List.length_map]
  rw [callClosure, names]
  simp only [if_pos enough, home]
  rfl

theorem evalStep_appliedClosure (distinct : r.vocabulary.closureForm ≠ r.vocabulary.letForm) :
    evalStep r (evalStep r ev) (r.vocabulary.appliedClosure bindings body) scope depth =
      record r (.eval depth (r.vocabulary.appliedClosure bindings body)) >>= fun _ =>
        record r (.eval (depth + 1) (.list [.symbol r.vocabulary.closureForm,
          .list (bindings.map fun b => .symbol b.1), body])) >>= fun _ =>
        evalNamed (evalStep r ev) r.vocabulary.closureForm bindings body scope depth
          (record r (.enter depth (.list (bindings.map fun b => .symbol b.1)))) := by
  rw [Vocabulary.appliedClosure, evalStep_call rfl, evalStep_abstraction distinct, bind_assoc]
  simp only [pure_bind, call, callClosure_eq]

end Runs

/-! ## The two agree -/

/-- A scope that is kept keeps its name. -/
theorem Store.Keeps.name {scope i : Nat} {s s' : Store} {f : Frame} (h : s.Keeps scope s')
    (found : s.frame? i = some f) : ∃ f', s'.frame? i = some f' ∧ f'.name = f.name := by
  by_cases own : i = scope
  · subst own
    obtain ⟨f', found', extends'⟩ := h.own f found
    exact ⟨f', found', extends'.name⟩
  · exact ⟨f, h.others i f own found, rfl⟩

theorem agrees_evalArgs {ev ev' : Evaluator} (evs : ev.Agrees ev') (scope depth : Nat)
    (args : List Value) :
    (evalArgs ev scope depth args).Agrees (evalArgs ev' scope depth args) := by
  induction args with
  | nil => exact .pure []
  | cons x xs ih =>
    exact (evs x scope (depth + 1)).andThen fun y => ih.andThen fun ys => .pure (y :: ys)

theorem agrees_evalNamed {ev ev' : Evaluator} (evs : ev.Agrees ev') (form form' : Text)
    (bindings : List (Text × Value)) (body : Value) (scope depth : Nat)
    {entered entered' : Run Unit} (both : entered.Agrees entered') :
    (evalNamed ev form bindings body scope depth entered).Agrees
      (evalNamed ev' form' bindings body scope depth entered') := by
  refine (agrees_evalArgs evs scope depth _).andThen fun values => ?_
  -- the new scopes differ in their names only
  refine (Run.Agrees.pushFrame ?_).andThen fun inner => ?_
  · rfl
  · exact both.andThen fun _ => evs body inner (depth + 1)

/-- Without fuel for the body there is no answer. -/
theorem evalNamed_exhausted (form : Text) (bindings : List (Text × Value)) (body : Value)
    (scope depth : Nat) :
    evalNamed (fun _ _ _ => exhausted) form bindings body scope depth (pure ()) = exhausted := by
  cases bindings <;> rfl

theorem eval_block_agrees {r : Rules}
    (distinct : r.vocabulary.closureForm ≠ r.vocabulary.letForm) (fuel : Nat)
    (bindings : List (Text × Value)) (body : Value) (scope depth : Nat) :
    (eval r fuel (r.vocabulary.block bindings body) scope depth).Agrees
      (eval r fuel (r.vocabulary.appliedClosure bindings body) scope depth) := by
  -- the closure is evaluated at one level less, so the third case is the first with an answer
  rcases fuel with _ | _ | fuel
  · exact .exhausted
  · rw [eval, evalStep_block, eval, evalNamed_exhausted]
    exact (Run.Agrees.record r r _ _).andThen fun _ => .exhausted
  · rw [eval, eval, evalStep_block, evalStep_appliedClosure distinct]
    refine (Run.Agrees.record r r _ _).andThen fun _ => ?_
    have evs := eval_agrees r r.tracing (fuel + 1)
    refine .record_andThen r _ ?_
    exact agrees_evalNamed evs _ _ bindings body scope depth (.pure_record r _)

/-- **A block is a closure that is called at once.**  Evaluating a block and calling the closure of
its names and its body with its expressions, in the same scope of the same world, both go on for
too long, or both end with the same value or the same failure.  Afterwards the next random numbers
are the same, and there are the same scopes with the same parents and bindings, but for the names
of new ones; the scopes from before are the same altogether.

This holds with and without closures that remember, and whether or not both branches of a choice
are evaluated.  The names need not be different.  The two keywords must be, as they are in every
valid vocabulary. -/
theorem blocks_are_applied_closures (r : Rules)
    (distinct : r.vocabulary.closureForm ≠ r.vocabulary.letForm) (fuel : Nat)
    (bindings : List (Text × Value)) (body : Value) (scope depth : Nat) (w : World) :
    (eval r fuel (r.vocabulary.block bindings body) scope depth w = none ∧
      eval r fuel (r.vocabulary.appliedClosure bindings body) scope depth w = none) ∨
    ∃ answer w₁ w₂,
      eval r fuel (r.vocabulary.block bindings body) scope depth w = some (answer, w₁) ∧
      eval r fuel (r.vocabulary.appliedClosure bindings body) scope depth w = some (answer, w₂) ∧
      w₁.generator = w₂.generator ∧ w₁.store.nameless = w₂.store.nameless ∧
      ∀ i < w.store.size, w₁.store.frame? i = w₂.store.frame? i := by
  have agree := eval_block_agrees distinct fuel bindings body scope depth w w rfl
  rcases map_seen_eq_iff.1 agree with neither | ⟨answer, w₁, w₂, ends, ends', same⟩
  · exact .inl neither
  · obtain ⟨stores, generators⟩ := World.bare_eq_iff.1 same
    refine .inr ⟨answer, w₁, w₂, ends, ends', generators, stores, fun i old => ?_⟩
    obtain ⟨f, found⟩ : ∃ f, w.store.frame? i = some f := ⟨_, Array.getElem?_eq_getElem old⟩
    obtain ⟨f₁, found₁, name₁⟩ := (eval_keeps r fuel _ scope depth w answer w₁ ends).name found
    obtain ⟨f₂, found₂, name₂⟩ := (eval_keeps r fuel _ scope depth w answer w₂ ends').name found
    have rest := congrArg (Store.frame? · i) stores
    simp only [Store.frame?_nameless, found₁, found₂, Option.map_some] at rest
    rw [found₁, found₂, Frame.eq_of_nameless (name₁.trans name₂.symm) (Option.some.inj rest)]

/-- The first value defines a name around the block, the second one uses it and has the same name as
the first; the body makes a closure, which remembers the new scope. -/
theorem block_with_repeated_name_is_applied_closure :
    let r : Rules := ⟨.words, true, false, true, fun _ _ _ => .error .nilExpression⟩
    let bindings : List (Text × Value) :=
      [("x", .list [.symbol "var", .symbol "y", .boolean true]), ("x", .symbol "y")]
    let body : Value := .list [.symbol "closure", .list [], .symbol "x"]
    let w : World := ⟨⟨#[Store.globalFrame], 0⟩, ⟨0⟩, []⟩
    r.vocabulary.closureForm ≠ r.vocabulary.letForm ∧
    ∃ w₁ w₂,
      eval r 3 (r.vocabulary.block bindings body) 0 0 w =
        some (.ok (.closure (.list []) (.symbol "x") (some 1)), w₁) ∧
      eval r 3 (r.vocabulary.appliedClosure bindings body) 0 0 w =
        some (.ok (.closure (.list []) (.symbol "x") (some 1)), w₂) ∧
      w₁.store.local? 1 "x" = some (.boolean true) ∧
      w₁.store.nameless = w₂.store.nameless ∧ w₁.store.frame? 0 = w₂.store.frame? 0 := by
  intro r bindings body w
  have distinct : r.vocabulary.closureForm ≠ r.vocabulary.letForm := by decide
  obtain ⟨w₁, first, bound⟩ : ∃ w₁, eval r 3 (r.vocabulary.block bindings body) 0 0 w =
      some (.ok (.closure (.list []) (.symbol "x") (some 1)), w₁) ∧
        w₁.store.local? 1 "x" = some (.boolean true) := ⟨_, rfl, rfl⟩
  rcases blocks_are_applied_closures r distinct 3 bindings body 0 0 w with
    ⟨never, _⟩ | ⟨answer, w₁', w₂, ends, ends', _, stores, old⟩
  · rw [first] at never
    cases never
  · rw [first] at ends
    cases ends
    exact ⟨distinct, w₁, w₂, first, ends', bound, stores, old 0 (by decide)⟩

end Argot
