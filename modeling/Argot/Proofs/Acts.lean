import Argot.Interpreter.Clone

set_option autoImplicit false

/-!
# Reasoning about interpreters at work

One equation for each way to build something an interpreter does, and the operations that
a host program can ask for, one after another.
-/

namespace Argot

/-- What is done first hands its answer and the machine on. -/
theorem Act.andThen_apply {α β : Type} (a : Act α) (f : α → Act β) (m : Machine) :
    (a >>= f) m = (a m).bind fun out => f out.1 out.2 := by
  show StateT.bind a f m = _
  unfold StateT.bind
  cases a m <;> rfl

namespace Machine

/-- The world in which a machine evaluates. -/
def world (m : Machine) : World :=
  ⟨m.commons.store, m.interpreter.generator, m.commons.trace⟩

/-- The machine after an evaluation that left a world behind. -/
def inWorld (m : Machine) (w : World) : Machine :=
  ⟨{ m.interpreter with generator := w.generator },
    { m.commons with store := w.store, trace := w.trace }⟩

theorem eval_apply (fuel : Nat) (x : Value) (scope : Nat) (m : Machine) :
    eval fuel x scope m =
      (Argot.eval m.interpreter.rules fuel x scope 0 m.world).map
        fun out => (out.1, m.inWorld out.2) := by
  obtain ⟨i, ⟨store, verbose, trace⟩⟩ := m
  simp only [eval, world]
  cases Argot.eval i.rules fuel x scope 0 ⟨store, i.generator, trace⟩ <;> rfl

theorem evalAll_cons (fuel scope : Nat) (x : Value) (xs : List Value) (m : Machine) :
    evalAll fuel scope (x :: xs) m =
      (eval fuel x scope m).bind fun out =>
        (evalAll fuel scope xs out.2).map fun outs => (out.1 :: outs.1, outs.2) := by
  rw [evalAll, Act.andThen_apply]
  congr
  funext out
  rw [Act.andThen_apply]
  cases evalAll fuel scope xs out.2 <;> rfl

/-- Evaluation changes nothing of an interpreter but its generator. -/
theorem interpreter_evalAll {fuel scope : Nat} {xs : List Value} {m m' : Machine}
    {outcomes : List Outcome} (ends : evalAll fuel scope xs m = some (outcomes, m')) :
    m'.interpreter = { m.interpreter with generator := m'.interpreter.generator } := by
  induction xs generalizing m outcomes with
  | nil =>
    cases ends
    rfl
  | cons x xs ih =>
    rw [evalAll_cons, eval_apply] at ends
    cases first : Argot.eval m.interpreter.rules fuel x scope 0 m.world with
    | none =>
      rw [first] at ends
      cases ends
    | some out =>
      rw [first] at ends
      obtain ⟨⟨ys, m₂⟩, rest, same⟩ := Option.map_eq_some_iff.1 ends
      cases same
      have later := ih (m := m.inWorld out.2) rest
      exact later

/-- A text that is refused changes nothing but the cache. -/
theorem run_of_read_error {m : Machine} {text : Text} {e : Refusal} {i : Interpreter} (fuel : Nat)
    (read : m.interpreter.read text = (.error e, i)) :
    run fuel text m = some (.error e, ⟨i, m.commons⟩) := by
  have got (f : Machine → Except Refusal (List Value) × Machine) :
      (modifyGet f : Act (Except Refusal (List Value))) m = some (f m) := rfl
  unfold run
  rw [Act.andThen_apply, got]
  simp only [read, Option.bind_some]
  rfl

/-- The forms of a text are evaluated in the global scope. -/
theorem run_of_read_forms {m : Machine} {text : Text} {xs : List Value} {i : Interpreter}
    (fuel : Nat) (read : m.interpreter.read text = (.ok xs, i)) :
    run fuel text m = (evalAll fuel i.global xs ⟨i, m.commons⟩).map (Prod.map .ok id) := by
  have got (f : Machine → Except Refusal (List Value) × Machine) :
      (modifyGet f : Act (Except Refusal (List Value))) m = some (f m) := rfl
  unfold run
  rw [Act.andThen_apply, got]
  simp only [read, Option.bind_some, Act.andThen_apply]
  show (evalAll fuel i.global xs ⟨i, m.commons⟩).bind _ = _
  cases evalAll fuel i.global xs ⟨i, m.commons⟩ <;> rfl

/-! ## Cloning -/

theorem clone_fst (m : Machine) :
    m.clone.1 =
      { m.interpreter with
        global := (Relocation.below m.commons.store m.interpreter.global).image m.interpreter.global
        generator := m.interpreter.generator.split.1
        cache := ParseCache.ofCapacity m.interpreter.cache.capacity } := by
  obtain ⟨i, c⟩ := m
  simp only [clone]

theorem clone_snd (m : Machine) :
    m.clone.2 =
      ⟨{ m.interpreter with generator := m.interpreter.generator.split.2 },
        { m.commons with store := m.commons.store.copyBelow m.interpreter.global }⟩ := by
  obtain ⟨i, c⟩ := m
  simp only [clone]

end Machine

/-! ## Operations -/

/-- What a text is answered with: a refusal, or a result for every form. -/
abbrev Answer : Type := Except Refusal (List Outcome)

/-- What a host program can ask of an interpreter. -/
inductive Operation where
  | run (fuel : Nat) (text : Text)
  | clear
  | addGlobal (name : Text) (x : Value)
  | addFunction (name : Text) (slot : Nat)

namespace Machine

/-- Does one operation; only running a text has an answer. -/
def perform : Operation → Act (Option Answer)
  | .run fuel text => fun m => (run fuel text m).map (Prod.map some id)
  | .clear => fun m => some (none, m.clear)
  | .addGlobal name x => fun m => some (none, m.addGlobal name x)
  | .addFunction name slot => fun m => some (none, m.addFunction name slot)

/-- Does operations one after another. -/
def performAll : List Operation → Act (List (Option Answer))
  | [] => fun m => some ([], m)
  | op :: rest => fun m =>
    (perform op m).bind fun out =>
      (performAll rest out.2).map fun outs => (out.1 :: outs.1, outs.2)

theorem performAll_cons (op : Operation) (rest : List Operation) (m : Machine) :
    performAll (op :: rest) m =
      (perform op m).bind fun out =>
        (performAll rest out.2).map fun outs => (out.1 :: outs.1, outs.2) := rfl

end Machine
end Argot
