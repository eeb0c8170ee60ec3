import Argot.Proofs.FlatEvaluation
import Argot.Proofs.Isolation

set_option autoImplicit false

/-!
# Interpreters without scopes

An interpreter with dynamic closures that has only been given values without homes is no more
than its rules, the primitives registered with it, one map of names and a generator: a
`FlatMachine`.  Whatever it is asked to do, the flat machine does the same
(`Machine.Scopeless.perform`), and all that it takes from what interpreters share is the number
of its next registration.

When two such interpreters take turns, the flat machine of one of them is not changed by the
turns of the other (`Machine.Scopeless.elsewhere`).  So what each of them makes of a conversation
is what its flat machine makes of its own turns, with the numbers that the turns of both leave
for it (`Apart.operate`).
-/

namespace Argot

/-! ## Evaluations register nothing -/

section Registrations

open Run

variable {α β : Type} {ev : Evaluator}

/-- The run leaves the number of registrations alone. -/
def RegistersNothing (m : Run α) : Prop :=
  Stays (fun w w' => w'.store.registrations = w.store.registrations) m

theorem registrations_isPath :
    IsPath fun w w' : World => w'.store.registrations = w.store.registrations where
  refl _ := rfl
  trans first second := second.trans first

namespace RegistersNothing

theorem pure (x : α) : RegistersNothing (Pure.pure x) := Stays.pure registrations_isPath x

theorem throw (e : Failure) : RegistersNothing (MonadExcept.throw e : Run α) :=
  Stays.throw registrations_isPath e

theorem andThen {m : Run α} {f : α → Run β} (h : RegistersNothing m)
    (h' : ∀ x, RegistersNothing (f x)) : RegistersNothing (m >>= f) :=
  Stays.andThen registrations_isPath h h'

theorem record (r : Rules) (e : TraceEvent) : RegistersNothing (Run.record r e) :=
  fun w => .of_apply (record_apply r e w) rfl

theorem lookup (scope : Nat) (name : Text) : RegistersNothing (Run.lookup scope name) :=
  fun w => .of_apply (lookup_apply scope name w) rfl

theorem callBuiltin (r : Rules) (b : Builtin) (args : List Value) :
    RegistersNothing (Run.callBuiltin r b args) :=
  fun w => .of_apply (callBuiltin_apply r b args w) rfl

theorem bind (scope : Nat) (name : Text) (x : Value) : RegistersNothing (Run.bind scope name x) :=
  fun w => .of_apply (bind_apply scope name x w) rfl

theorem pushFrame (f : Frame) : RegistersNothing (Run.pushFrame f) :=
  fun w => .of_apply (pushFrame_apply f w) rfl

end RegistersNothing

theorem Move.registersNothing_run (quiet : ∀ x i d, RegistersNothing (ev x i d)) (r : Rules)
    (scope depth : Nat) (a : Move) : RegistersNothing (a.run r ev scope depth) := by
  cases a with
  | answer x => exact .pure x
  | fail e => exact .throw e
  | lookup name => exact .lookup scope name
  | define name x => exact .andThen (.bind scope name x) fun _ => .pure _
  | close params body => exact .pure _
  | call b args => exact .andThen (.record r _) fun _ => .callBuiltin r b args
  | block name bindings body => exact .andThen (.pushFrame _) fun inner => quiet body inner _
  | enter params body home bindings =>
    exact .andThen (.pushFrame _) fun inner => .andThen (.record r _) fun _ => quiet body inner _

theorem eval_registersNothing (r : Rules) (fuel : Nat) (x : Value) (scope depth : Nat) :
    RegistersNothing (eval r fuel x scope depth) := by
  induction fuel generalizing x scope depth with
  | zero => exact Stays.exhausted
  | succ fuel ih =>
    rw [eval, evalStep_eq]
    refine .andThen (.record r _) fun _ => ?_
    induction x.plan r.vocabulary r.eagerIf with
    | move a => exact a.registersNothing_run ih r scope depth
    | eval y next along => exact .andThen (ih y scope _) along

end Registrations

/-! ## Scopes that stand on their own -/

/-- The scope has no parent, and no closure bound in it remembers a scope. -/
structure Frame.Plain (f : Frame) : Prop where
  orphan : f.parent = none
  homeless : ∀ name x, f.bindings.find? name = some x → x.homeless = true

theorem Frame.Plain.insert {f : Frame} (plain : f.Plain) (name : Text) {x : Value}
    (homeless : x.homeless = true) :
    Plain { f with bindings := f.bindings.insert name x } := by
  refine ⟨plain.orphan, ?_⟩
  intro n y bound
  rw [NameMap.find?_insert] at bound
  split at bound
  · cases bound
    exact homeless
  · exact plain.homeless n y bound

/-- Builtins remember no scope. -/
theorem plain_registered (number : Nat) (primitives : NameMap Primitive) :
    Frame.Plain { Store.globalFrame with bindings := registered number primitives } := by
  refine ⟨rfl, ?_⟩
  intro name x bound
  rw [registered, NameMap.find?_map] at bound
  obtain ⟨op, _, rfl⟩ := Option.map_eq_some_iff.1 bound
  rfl

namespace Store

variable {s : Store} {scope : Nat} {f : Frame}

/-- In a scope without a parent, names mean what the scope binds them to. -/
theorem lookup_of_root (found : s.frame? scope = some f) (orphan : f.parent = none)
    (name : Text) : s.lookup scope name = f.bindings.find? name := by
  have parent : s.parent? scope = none := by
    rw [parent?, found, Option.bind_some, orphan]
    rfl
  rw [lookup_eq s (frame?_lt found), local?, found, Option.bind_some, parent, Option.bind_none,
    Option.or_none]

/-- Giving away a number is nothing to the scopes. -/
theorem untouched_register (s : Store) : s.Untouched s.register.2 := fun _ _ found => found

theorem visible_of_root (found : s.frame? scope = some f) (orphan : f.parent = none) :
    s.visible scope = f.bindings := by
  apply NameMap.ext_find?
  intro name
  rw [find?_visible, lookup_of_root found orphan]

end Store

/-! ## Flat machines -/

/-- What an interpreter amounts to when there are no scopes to remember. -/
structure FlatMachine where
  rules : Rules
  primitives : NameMap Primitive
  world : FlatWorld

/-- Evaluates expressions one after another. -/
def flatEvalAll (r : Rules) (fuel : Nat) :
    List Value → FlatWorld → Option (List Outcome × FlatWorld)
  | [], w => some ([], w)
  | x :: xs, w =>
    (flatEval r fuel x w).bind fun out =>
      (flatEvalAll r fuel xs out.2).map fun outs => (out.1 :: outs.1, outs.2)

namespace Operation

/-- How many registrations an operation makes. -/
def registrations : Operation → Nat
  | .clear | .addFunction _ _ => 1
  | .run _ _ | .addGlobal _ _ => 0

/-- How many registrations operations make. -/
def totalRegistrations : List Operation → Nat
  | [] => 0
  | op :: rest => op.registrations + totalRegistrations rest

/-- Operations with the numbers that they get, when the first one gets the given number. -/
def numbered : (number : Nat) → List Operation → List (Nat × Operation)
  | _, [] => []
  | number, op :: rest => (number, op) :: numbered (number + op.registrations) rest

/-- Whether no closure that the operation brings in remembers a scope. -/
def homeless : Operation → Bool
  | .addGlobal _ x => x.homeless
  | .run _ _ | .clear | .addFunction _ _ => true

end Operation

namespace FlatMachine

/-- Gives a name a meaning. -/
def define (name : Text) (x : Value) (f : FlatMachine) : FlatMachine :=
  { f with world := { f.world with names := f.world.names.insert name x } }

/-- Runs a text. -/
def run (fuel : Nat) (text : Text) (f : FlatMachine) : Option (Answer × FlatMachine) :=
  match readText f.rules.vocabulary text with
  | .error e => some (.error e, f)
  | .ok xs =>
    (flatEvalAll f.rules fuel xs f.world).map fun out => (.ok out.1, { f with world := out.2 })

/-- Does one operation; a registration gets the given number. -/
def perform (op : Operation) (number : Nat) (f : FlatMachine) :
    Option (Option Answer × FlatMachine) :=
  match op with
  | .run fuel text => (f.run fuel text).map (Prod.map some id)
  | .clear =>
    some (none, { f with world := { f.world with names := registered number f.primitives } })
  | .addGlobal name x => some (none, f.define name x)
  | .addFunction name slot =>
    some (none, define name (.builtin ⟨number, name, .host slot⟩)
      { f with primitives := f.primitives.insert name (.host slot) })

/-- Does operations one after another, each with its number. -/
def performAll : List (Nat × Operation) → FlatMachine →
    Option (List (Option Answer) × FlatMachine)
  | [], f => some ([], f)
  | (number, op) :: rest, f =>
    (f.perform op number).bind fun out =>
      (performAll rest out.2).map fun outs => (out.1 :: outs.1, outs.2)

theorem performAll_cons (number : Nat) (op : Operation) (rest : List (Nat × Operation))
    (f : FlatMachine) :
    performAll ((number, op) :: rest) f =
      (f.perform op number).bind fun out =>
        (performAll rest out.2).map fun outs => (out.1 :: outs.1, outs.2) := rfl

end FlatMachine

/-! ## Machines that are flat -/

namespace Value

mutual

/-- Program text remembers no scope. -/
theorem homeless_of_isSource : (x : Value) → x.isSource = true → x.homeless = true
  | .quote x, source => homeless_of_isSource x source
  | .list xs, source => allHomeless_of_allSource xs source
  | .symbol _, _ | .number _, _ | .boolean _, _ | .string _, _ => rfl

theorem allHomeless_of_allSource : (xs : List Value) → allSource xs = true →
    allHomeless xs = true
  | [], _ => rfl
  | x :: xs, source => by
    rw [allSource, Bool.and_eq_true] at source
    rw [allHomeless, homeless_of_isSource x source.1, allHomeless_of_allSource xs source.2]
    rfl

end

end Value

namespace Machine

/-- The machine without its scopes. -/
def flat (m : Machine) : FlatMachine :=
  ⟨m.interpreter.rules, m.interpreter.primitives, m.world.flat m.interpreter.global⟩

/-- Closures remember no scope, neither those that are made nor those that are bound globally,
and the global scope stands on its own. -/
structure Scopeless (m : Machine) : Prop where
  dynamic : m.interpreter.lexical = false
  host : m.interpreter.host.Homeless
  faithful : m.Faithful
  root : ∃ f, m.commons.store.frame? m.interpreter.global = some f ∧ f.Plain

/-- What an operation does to what interpreters share: it writes to the global scope of the
machine, or makes another one. -/
structure Performs (op : Operation) (m n : Machine) : Prop where
  scopeless : n.Scopeless
  keeps : m.commons.store.Keeps m.interpreter.global n.commons.store
  registrations : n.commons.store.registrations = m.commons.store.registrations + op.registrations
  global : n.interpreter.global = m.interpreter.global ∨
    m.commons.store.size ≤ n.interpreter.global

variable {m : Machine}

theorem Scopeless.present (scopeless : m.Scopeless) :
    m.interpreter.global < m.commons.store.size := by
  obtain ⟨f, found, _⟩ := scopeless.root
  exact Store.frame?_lt found

theorem Scopeless.settled (scopeless : m.Scopeless) : Settled m.interpreter.global m.world := by
  obtain ⟨f, found, plain⟩ := scopeless.root
  refine ⟨Store.frame?_lt found, ?_⟩
  intro name x bound
  exact plain.homeless name x ((Store.lookup_of_root found plain.orphan name).symm.trans bound)

theorem flat_of_root {f : Frame} (found : m.commons.store.frame? m.interpreter.global = some f)
    (plain : f.Plain) :
    m.flat = ⟨m.interpreter.rules, m.interpreter.primitives,
      ⟨f.bindings, m.interpreter.generator⟩⟩ := by
  have names : m.world.store.visible m.interpreter.global = f.bindings :=
    Store.visible_of_root found plain.orphan
  rw [flat, World.flat, names]
  rfl

/-- Expressions without homes are evaluated as if there were no scopes. -/
theorem evalAll_flat (dynamic : m.interpreter.lexical = false)
    (host : m.interpreter.host.Homeless) (settled : Settled m.interpreter.global m.world)
    (fuel : Nat) {xs : List Value} (plain : ∀ x ∈ xs, x.homeless = true) :
    (evalAll fuel m.interpreter.global xs m).map (fun out => (out.1, out.2.flat)) =
        (flatEvalAll m.interpreter.rules fuel xs m.flat.world).map
          (fun out => (out.1, { m.flat with world := out.2 })) ∧
      ∀ out, evalAll fuel m.interpreter.global xs m = some out →
        Settled m.interpreter.global out.2.world ∧
        out.2.commons.store.registrations = m.commons.store.registrations := by
  induction xs generalizing m with
  | nil =>
    refine ⟨rfl, ?_⟩
    intro out ends
    cases ends
    exact ⟨settled, rfl⟩
  | cons x xs ih =>
    have mirrors := eval_mirrors_flatEval (r := m.interpreter.rules) dynamic host fuel x
      (plain x List.mem_cons_self) m.interpreter.global 0
    have flat := mirrors.same m.world settled
    rw [evalAll_cons, eval_apply, flatEvalAll]
    show _ = ((flatEval m.interpreter.rules fuel x (m.world.flat m.interpreter.global)).bind
      _).map _ ∧ _
    rw [← flat]
    cases evaluated : Argot.eval m.interpreter.rules fuel x m.interpreter.global 0 m.world with
    | none => simp
    | some out =>
      have middle := (mirrors.settled m.world settled out.1 out.2 evaluated).1
      have counted := eval_registersNothing m.interpreter.rules fuel x m.interpreter.global 0
        m.world out.1 out.2 evaluated
      obtain ⟨same, after⟩ := ih (m := m.inWorld out.2) dynamic host middle
        fun y member => plain y (List.mem_cons_of_mem x member)
      simp only [Option.map_some, Option.bind_some, Option.map_map]
      refine ⟨?_, ?_⟩
      · have longer := congrArg (Option.map fun outs => (out.1 :: outs.1, outs.2)) same
        rw [Option.map_map, Option.map_map] at longer
        exact longer
      · intro out' ends
        obtain ⟨outs, evaluated', rfl⟩ := Option.map_eq_some_iff.1 ends
        obtain ⟨settled', counted'⟩ := after outs evaluated'
        exact ⟨settled', counted'.trans counted⟩

/-- A global scope that stood on its own still does after an evaluation. -/
theorem Scopeless.of_settled (scopeless : m.Scopeless) {n : Machine} (advances : m.Advances n)
    (settled : Settled m.interpreter.global n.world) : n.Scopeless := by
  obtain ⟨f, found, plain⟩ := scopeless.root
  obtain ⟨f', found', more⟩ := advances.keeps.own f found
  have orphan : f'.parent = none := more.parent.trans plain.orphan
  obtain ⟨g, cache, unchanged⟩ := advances.interpreter
  refine ⟨?_, ?_, advances.faithful, f', ?_, orphan, ?_⟩
  · rw [unchanged]
    exact scopeless.dynamic
  · rw [unchanged]
    exact scopeless.host
  · rw [advances.global]
    exact found'
  · intro name x bound
    exact settled.homeless name x ((Store.lookup_of_root found' orphan name).trans bound)

/-- A flat machine runs texts as the machine does. -/
theorem Scopeless.runAnew (scopeless : m.Scopeless) (fuel : Nat) (text : Text) :
    (runAnew fuel text m).map (fun out => (out.1, out.2.flat)) = m.flat.run fuel text ∧
      ∀ out, runAnew fuel text m = some out → Settled m.interpreter.global out.2.world ∧
        out.2.commons.store.registrations = m.commons.store.registrations := by
  cases read : readText m.interpreter.vocabulary text with
  | error e =>
    have read' : readText m.flat.rules.vocabulary text = .error e := read
    rw [runAnew_of_error fuel read, FlatMachine.run, read']
    refine ⟨rfl, ?_⟩
    rintro _ ⟨⟩
    exact ⟨scopeless.settled, rfl⟩
  | ok xs =>
    have read' : readText m.flat.rules.vocabulary text = .ok xs := read
    have plain : ∀ x ∈ xs, x.homeless = true := fun x member =>
      Value.homeless_of_isSource x (Value.allSource_iff.1 (allSource_of_readText read) x member)
    obtain ⟨same, after⟩ := evalAll_flat scopeless.dynamic scopeless.host scopeless.settled fuel
      plain
    rw [runAnew_of_forms fuel read, FlatMachine.run, read']
    refine ⟨?_, ?_⟩
    · have answered := congrArg (Option.map (Prod.map (Except.ok : _ → Answer) id)) same
      rw [Option.map_map, Option.map_map] at answered
      rw [Option.map_map]
      exact answered
    · intro out ends
      obtain ⟨outs, evaluated, rfl⟩ := Option.map_eq_some_iff.1 ends
      exact after outs evaluated

theorem Scopeless.run (scopeless : m.Scopeless) (fuel : Nat) (text : Text) :
    (run fuel text m).map (fun out => (out.1, out.2.flat)) = m.flat.run fuel text ∧
      ∀ out, run fuel text m = some out → Performs (.run fuel text) m out.2 := by
  obtain ⟨same, after⟩ := scopeless.runAnew fuel text
  obtain ⟨cache, _, anew⟩ := run_eq_runAnew scopeless.faithful fuel text
  refine ⟨?_, ?_⟩
  · rw [anew, Option.map_map]
    exact same
  · intro out ends
    have advances := advances_of_run scopeless.faithful ends
    rw [anew] at ends
    obtain ⟨out₁, ran, rfl⟩ := Option.map_eq_some_iff.1 ends
    obtain ⟨settled, counted⟩ := after out₁ ran
    exact ⟨scopeless.of_settled advances settled, advances.keeps, counted, .inl advances.global⟩

/-- Binding a value without a home in the global scope is giving its name a meaning. -/
theorem Scopeless.addGlobal (scopeless : m.Scopeless) (name : Text) {x : Value}
    (homeless : x.homeless = true) :
    (m.addGlobal name x).flat = m.flat.define name x ∧ (m.addGlobal name x).Scopeless := by
  obtain ⟨f, found, plain⟩ := scopeless.root
  have found' : (m.addGlobal name x).commons.store.frame? m.interpreter.global =
      some { f with bindings := f.bindings.insert name x } := by
    show (m.commons.store.bind m.interpreter.global name x).frame? _ = _
    rw [Store.frame?_bind, if_pos rfl, found]
    rfl
  have plain' := plain.insert name homeless
  refine ⟨?_, scopeless.dynamic, scopeless.host, scopeless.faithful, _, found', plain'⟩
  rw [flat_of_root found plain, flat_of_root (m := m.addGlobal name x) found' plain']
  rfl

/-- Clearing is forgetting all names but those of the primitives. -/
theorem flat_clear (m : Machine) :
    m.clear.flat = { m.flat with
      world := ⟨registered m.commons.store.registrations m.interpreter.primitives,
        m.interpreter.generator⟩ } ∧
      ∃ f, m.clear.commons.store.frame? m.clear.interpreter.global = some f ∧ f.Plain := by
  have plain := plain_registered m.commons.store.registrations m.interpreter.primitives
  have found : m.clear.commons.store.frame? m.clear.interpreter.global =
      some { Store.globalFrame with
        bindings := registered m.commons.store.registrations m.interpreter.primitives } := by
    show (Store.push _ _).frame? ((Store.push _ _).size - 1) = _
    rw [Store.size_push, Store.frame?_push, Nat.add_sub_cancel, if_pos rfl]
  exact ⟨flat_of_root found plain, _, found, plain⟩

/-- An operation on a machine is the operation on its flat machine, with the number of the next
registration. -/
theorem Scopeless.perform (scopeless : m.Scopeless) {op : Operation} (plain : op.homeless = true) :
    (perform op m).map (fun out => (out.1, out.2.flat)) =
        m.flat.perform op m.commons.store.registrations ∧
      ∀ out, perform op m = some out → Performs op m out.2 := by
  cases op with
  | run fuel text =>
    obtain ⟨same, after⟩ := scopeless.run fuel text
    refine ⟨?_, ?_⟩
    · rw [FlatMachine.perform, ← same, Machine.perform, Option.map_map, Option.map_map]
      rfl
    · intro out ends
      obtain ⟨out₁, ran, rfl⟩ := Option.map_eq_some_iff.1 ends
      exact after out₁ ran
  | clear =>
    obtain ⟨flat, root⟩ := m.flat_clear
    refine ⟨congrArg (fun f => some (none, f)) flat, ?_⟩
    rintro _ ⟨⟩
    refine ⟨⟨scopeless.dynamic, scopeless.host, scopeless.faithful, root⟩, ?_, rfl, .inr ?_⟩
    · exact ((Store.untouched_register _).trans (Store.untouched_push _ _)).keeps _
    · show _ ≤ (Store.push _ _).size - 1
      rw [Store.size_push]
      exact Nat.le_refl _
  | addGlobal name x =>
    obtain ⟨flat, scopeless'⟩ := scopeless.addGlobal name plain
    refine ⟨congrArg (fun f => some (none, f)) flat, ?_⟩
    rintro _ ⟨⟩
    exact ⟨scopeless', Store.keeps_bind _ _ name x, rfl, .inl rfl⟩
  | addFunction name slot =>
    obtain ⟨i, c⟩ := m
    -- first the registration, then the binding of what is registered
    let registering : Machine :=
      ⟨{ i with primitives := i.primitives.insert name (.host slot) },
        { c with store := c.store.register.2 }⟩
    have scopeless₁ : registering.Scopeless :=
      ⟨scopeless.dynamic, scopeless.host, scopeless.faithful, scopeless.root⟩
    have flat₁ : registering.flat =
        { flat ⟨i, c⟩ with primitives := i.primitives.insert name (.host slot) } := by
      obtain ⟨f, found, plain⟩ := scopeless.root
      rw [flat_of_root found plain, flat_of_root (m := registering) found plain]
      rfl
    obtain ⟨bound, scopeless'⟩ := scopeless₁.addGlobal name
      (x := .builtin ⟨c.store.registrations, name, .host slot⟩) rfl
    rw [flat₁] at bound
    refine ⟨congrArg (fun f => some (none, f)) bound, ?_⟩
    rintro _ ⟨⟩
    have keeps := ((c.store.untouched_register).keeps i.global).trans
      (Store.keeps_bind c.store.register.2 i.global name
        (.builtin ⟨c.store.registrations, name, .host slot⟩))
    exact ⟨scopeless', keeps, rfl, .inl rfl⟩

/-- A sequence of operations on a machine is the sequence of operations on its flat machine. -/
theorem Scopeless.performAll (scopeless : m.Scopeless) {ops : List Operation}
    (plain : ∀ op ∈ ops, op.homeless = true) :
    (performAll ops m).map (fun out => (out.1, out.2.flat)) =
        m.flat.performAll (Operation.numbered m.commons.store.registrations ops) ∧
      ∀ out, performAll ops m = some out → out.2.Scopeless ∧
        out.2.commons.store.registrations =
          m.commons.store.registrations + Operation.totalRegistrations ops := by
  induction ops generalizing m with
  | nil =>
    refine ⟨rfl, ?_⟩
    rintro _ ⟨⟩
    exact ⟨scopeless, rfl⟩
  | cons op rest ih =>
    obtain ⟨same, after⟩ := scopeless.perform (plain op List.mem_cons_self)
    rw [performAll_cons, Operation.numbered, FlatMachine.performAll_cons, ← same]
    cases performed : Machine.perform op m with
    | none => exact ⟨rfl, nofun⟩
    | some out =>
      have step := after out performed
      obtain ⟨same', after'⟩ := ih step.scopeless fun op' member =>
        plain op' (List.mem_cons_of_mem op member)
      simp only [Option.bind_some, Option.map_some, Option.map_map]
      refine ⟨?_, ?_⟩
      · rw [← step.registrations, ← same', Option.map_map]
        rfl
      · intro out' ends
        obtain ⟨outs, ended, rfl⟩ := Option.map_eq_some_iff.1 ends
        obtain ⟨scopeless', counted⟩ := after' outs ended
        refine ⟨scopeless', counted.trans ?_⟩
        rw [step.registrations, Operation.totalRegistrations, Nat.add_assoc]

/-- A machine whose global scope is the same, wherever it is now, is the same flat machine, but
for its generator. -/
theorem Scopeless.relocate {i : Interpreter} {c c' : Commons} (scopeless : Scopeless ⟨i, c⟩)
    {scope : Nat} (same : c'.store.frame? scope = c.store.frame? i.global) (g : Generator)
    {cache : ParseCache} (faithful : cache.Faithful i.vocabulary) :
    Scopeless ⟨{ i with global := scope, generator := g, cache := cache }, c'⟩ ∧
      flat ⟨{ i with global := scope, generator := g, cache := cache }, c'⟩ =
        { flat ⟨i, c⟩ with world := ⟨(flat ⟨i, c⟩).world.names, g⟩ } := by
  obtain ⟨f, found, plain⟩ := scopeless.root
  have found' := same.trans found
  refine ⟨⟨scopeless.dynamic, scopeless.host, faithful, f, found', plain⟩, ?_⟩
  rw [flat_of_root found plain]
  exact flat_of_root (m := ⟨{ i with global := scope, generator := g, cache := cache }, c'⟩)
    found' plain

/-- What is done elsewhere in the store is nothing to a machine without scopes. -/
theorem Scopeless.elsewhere {i : Interpreter} {c c' : Commons} (scopeless : Scopeless ⟨i, c⟩)
    {other : Nat} (keeps : c.store.Keeps other c'.store) (apart : i.global ≠ other) :
    Scopeless ⟨i, c'⟩ ∧ flat ⟨i, c'⟩ = flat ⟨i, c⟩ := by
  obtain ⟨f, found, _⟩ := scopeless.root
  have found' : c'.store.frame? i.global = some f := keeps.others _ f apart found
  exact scopeless.relocate (found'.trans found.symm) i.generator scopeless.faithful

end Machine

/-! ## Taking turns -/

/-- Lets interpreters do operations, each at its turn. -/
def Session.operate : List (Fin 2 × Operation) → Session →
    Option (List (Fin 2 × Option Answer) × Session)
  | [], s => some ([], s)
  | turn :: rest, s =>
    (s.act turn.1 (Machine.perform turn.2)).bind fun out =>
      (operate rest out.2).map fun outs => ((turn.1, out.1) :: outs.1, outs.2)

/-- Turns with the numbers that their operations get, whoever's turn it is. -/
def Session.numbered : (number : Nat) → List (Fin 2 × Operation) →
    List (Fin 2 × (Nat × Operation))
  | _, [] => []
  | number, (k, op) :: rest => (k, number, op) :: numbered (number + op.registrations) rest

/-- Two interpreters without scopes, each with a global scope of its own. -/
structure Apart (pair : Fin 2 → Interpreter) (c : Commons) : Prop where
  scopeless : ∀ k, Machine.Scopeless ⟨pair k, c⟩
  globals : ∀ k l, l ≠ k → (pair k).global ≠ (pair l).global

section Turns

variable {pair : Fin 2 → Interpreter} {c : Commons} {k l : Fin 2} {op : Operation}
  {turns : List (Fin 2 × Operation)}

theorem Session.operate_cons (rest : List (Fin 2 × Operation)) :
    operate ((l, op) :: rest) (.ofPair pair c) =
      (Machine.perform op ⟨pair l, c⟩).bind fun out =>
        (operate rest (.ofPair (Function.update pair l out.2.interpreter) out.2.commons)).map
          fun outs => ((l, out.1) :: outs.1, outs.2) := by
  rw [operate, act_ofPair]
  cases Machine.perform op ⟨pair l, c⟩ <;> rfl

namespace Apart

/-- An operation of one interpreter keeps the two apart, and the other one as it is. -/
theorem turn (apart : Apart pair c) {m : Machine} (performs : Machine.Performs op ⟨pair l, c⟩ m) :
    Apart (Function.update pair l m.interpreter) m.commons ∧
      ∀ k, k ≠ l → Machine.flat ⟨Function.update pair l m.interpreter k, m.commons⟩ =
        Machine.flat ⟨pair k, c⟩ := by
  have others : ∀ k, k ≠ l → Machine.Scopeless ⟨pair k, m.commons⟩ ∧
      Machine.flat ⟨pair k, m.commons⟩ = Machine.flat ⟨pair k, c⟩ := fun k different =>
    (apart.scopeless k).elsewhere performs.keeps (apart.globals k l different.symm)
  -- a global scope made just now is newer than those there were
  have fresh : ∀ k, k ≠ l → (pair k).global ≠ m.interpreter.global := by
    intro k different
    rcases performs.global with same | new
    · rw [same]
      exact apart.globals k l different.symm
    · have old := (apart.scopeless k).present
      exact Nat.ne_of_lt (Nat.lt_of_lt_of_le old new)
  refine ⟨⟨?_, ?_⟩, ?_⟩
  · intro k
    by_cases same : k = l
    · subst same
      rw [Function.update_self]
      exact performs.scopeless
    · rw [Function.update_of_ne same]
      exact (others k same).1
  · intro k k' different
    by_cases same : k = l
    · subst same
      rw [Function.update_self, Function.update_of_ne different]
      exact (fresh k' different).symm
    · rw [Function.update_of_ne same]
      by_cases same' : k' = l
      · subst same'
        rw [Function.update_self]
        exact fresh k same
      · rw [Function.update_of_ne same']
        exact apart.globals k k' different
  · intro k different
    rw [Function.update_of_ne different]
    exact (others k different).2

/-- What each interpreter makes of a conversation is what its flat machine makes of it. -/
theorem operate (apart : Apart pair c) (plain : ∀ turn ∈ turns, turn.2.homeless = true)
    {out : List (Fin 2 × Option Answer) × Session}
    (ends : Session.operate turns (.ofPair pair c) = some out) :
    ∃ pair' c', out.2 = Session.ofPair pair' c' ∧
      ∀ k, FlatMachine.performAll (Session.side k (Session.numbered c.store.registrations turns))
          (Machine.flat ⟨pair k, c⟩) =
        some (Session.side k out.1, Machine.flat ⟨pair' k, c'⟩) := by
  induction turns generalizing pair c out with
  | nil =>
    cases ends
    exact ⟨pair, c, rfl, fun _ => rfl⟩
  | cons first rest ih =>
    obtain ⟨l, op⟩ := first
    rw [Session.operate_cons] at ends
    obtain ⟨out₁, performed, later⟩ := Option.bind_eq_some_iff.1 ends
    obtain ⟨outs, ended, rfl⟩ := Option.map_eq_some_iff.1 later
    obtain ⟨same, after⟩ := (apart.scopeless l).perform (plain _ List.mem_cons_self)
    have performs := after out₁ performed
    obtain ⟨apart', others⟩ := apart.turn performs
    obtain ⟨pair', c', session, each⟩ := ih apart'
      (fun turn member => plain turn (List.mem_cons_of_mem _ member)) ended
    refine ⟨pair', c', session, fun k => ?_⟩
    have mine := each k
    rw [performs.registrations] at mine
    by_cases turn : l = k
    · subst turn
      rw [Function.update_self] at mine
      rw [Session.numbered, Session.side_cons_self, FlatMachine.performAll_cons, ← same, performed,
        Session.side_cons_self, Option.map_some, Option.bind_some]
      show (FlatMachine.performAll _ (Machine.flat out₁.2)).map _ = _
      rw [mine]
      rfl
    · rw [others k (Ne.symm turn)] at mine
      rw [Session.numbered, Session.side_cons_of_ne turn, Session.side_cons_of_ne turn]
      exact mine

/-- A conversation ends if both flat machines come to the end of their turns. -/
theorem isSome_operate (apart : Apart pair c) (plain : ∀ turn ∈ turns, turn.2.homeless = true)
    (performing : ∀ k, (FlatMachine.performAll
      (Session.side k (Session.numbered c.store.registrations turns))
      (Machine.flat ⟨pair k, c⟩)).isSome) :
    (Session.operate turns (.ofPair pair c)).isSome := by
  induction turns generalizing pair c with
  | nil => rfl
  | cons first rest ih =>
    obtain ⟨l, op⟩ := first
    obtain ⟨same, after⟩ := (apart.scopeless l).perform (plain _ List.mem_cons_self)
    have mine := performing l
    rw [Session.numbered, Session.side_cons_self, FlatMachine.performAll_cons, ← same] at mine
    rw [Session.operate_cons]
    cases performed : Machine.perform op ⟨pair l, c⟩ with
    | none =>
      rw [performed] at mine
      cases mine
    | some out =>
      have performs := after out performed
      obtain ⟨apart', others⟩ := apart.turn performs
      rw [Option.bind_some, Option.isSome_map]
      refine ih apart' (fun turn member => plain turn (List.mem_cons_of_mem _ member)) fun k => ?_
      rw [performs.registrations]
      by_cases turn : l = k
      · subst turn
        rw [performed, Option.map_some, Option.bind_some, Option.isSome_map] at mine
        rw [Function.update_self]
        exact mine
      · have theirs := performing k
        rw [Session.numbered, Session.side_cons_of_ne turn] at theirs
        rw [others k (Ne.symm turn)]
        exact theirs

end Apart

end Turns

end Argot
