import Argot.Proofs.Isolation
import Argot.Proofs.Relabelling

set_option autoImplicit false

/-!
# What clearing forgets

Clearing makes a new global scope and binds the registered primitives in it.  A machine is
*pristine* (`Machine.Pristine`) when its global scope is the newest one and binds just those.  So
is a machine that has just been cleared, and so is a new one to which functions of the host have
been added.  They differ in the numbers of their scopes and in those of their builtins: clearing
registers all builtins at once, and a function that is added gets a registration of its own.

Numbers stand for identities and are not seen otherwise, so pristine machines of one charter
cannot be told apart (`Machine.Pristine.relabels`).  And all that a history of operations leaves
in the charter of an interpreter are the functions that were added
(`Machine.charter_carryOutAll`).
-/

namespace Argot

open Value

/-! ## Machines with other numbers -/

namespace Machine

variable {d : Dictionary} {m m' n : Machine}

theorem evalAll_relabels (rules : m.interpreter.rules.Relabels d m'.interpreter.rules)
    (world : m.world.Relabels d m'.world) (fuel : Nat) {xs xs' : List Value}
    (matching : MatchesAll d d.written xs xs') {scope scope' : Nat}
    (scopes : d.written scope scope') :
    Option.Rel
      (fun out out' => OutcomesAlike d d.written out.1 out'.1 ∧
        out.2.world.Relabels d out'.2.world)
      (evalAll fuel scope xs m) (evalAll fuel scope' xs' m') := by
  induction xs generalizing xs' m m' with
  | nil =>
    cases matching
    exact .some ⟨.nil, world⟩
  | cons x xs ih =>
    rcases matching with _ | ⟨first, rest⟩
    have head := eval_relabels rules fuel 0 0 first world scopes
    rw [evalAll_cons, evalAll_cons, eval_apply, eval_apply]
    generalize Argot.eval m.interpreter.rules fuel x scope 0 m.world = out at head
    generalize Argot.eval m'.interpreter.rules fuel _ scope' 0 m'.world = out' at head
    cases head with
    | none => exact .none
    | @some out out' ends =>
      have tail := @ih (m.inWorld out.2) (m'.inWorld out'.2) rules ends.2 _ rest
      simp only [Option.map_some, Option.bind_some]
      generalize evalAll fuel scope xs (m.inWorld out.2) = outs at tail
      generalize evalAll fuel scope' _ (m'.inWorld out'.2) = outs' at tail
      cases tail with
      | none => exact .none
      | some others => exact .some ⟨.cons ends.1 others.1, others.2⟩

/-- Machines of one vocabulary whose rules and worlds are the same but for numbers. -/
structure Relabels (d : Dictionary) (m m' : Machine) : Prop where
  plain : d.Plain
  rules : m.interpreter.rules.Relabels d m'.interpreter.rules
  world : m.world.Relabels d m'.world
  vocabulary : m'.interpreter.vocabulary = m.interpreter.vocabulary
  global : d.written m.interpreter.global m'.interpreter.global
  there : m.interpreter.global < m.commons.store.size
  heading : m'.heading = m.heading
  faithful : m.Faithful
  faithful' : m'.Faithful

theorem Advances.rules (h : m.Advances n) : n.interpreter.rules = m.interpreter.rules := by
  obtain ⟨generator, cache, same⟩ := h.interpreter
  rw [same]
  rfl

namespace Relabels

theorem global_lt_size (h : m.Relabels d m') : m'.interpreter.global < m'.commons.store.size :=
  (h.world.store.present h.global).1 h.there

theorem runAnew (h : m.Relabels d m') (fuel : Nat) (text : Text) :
    Option.Rel
      (fun out out' => AnswersAlike d d.written out.1 out'.1 ∧
        out.2.world.Relabels d out'.2.world)
      (runAnew fuel text m) (runAnew fuel text m') := by
  have vocabulary := h.vocabulary
  cases read : readText m.interpreter.vocabulary text with
  | error e =>
    rw [runAnew_of_error fuel read, runAnew_of_error fuel (vocabulary ▸ read)]
    exact .some ⟨.refused e, h.world⟩
  | ok xs =>
    have matching := matchesAll_self h.plain (allSource_of_readText read) d.written
    have evaluated := evalAll_relabels h.rules h.world fuel matching h.global
    rw [runAnew_of_forms fuel read, runAnew_of_forms fuel (vocabulary ▸ read)]
    generalize evalAll fuel m.interpreter.global xs m = out at evaluated
    generalize evalAll fuel m'.interpreter.global xs m' = out' at evaluated
    cases evaluated with
    | none => exact .none
    | some alike => exact .some ⟨.results alike.1, alike.2⟩

/-- Running a text. -/
theorem run (h : m.Relabels d m') (fuel : Nat) (text : Text) :
    Option.Rel
      (fun out out' => (∀ v, Answer.printed v out'.1 = Answer.printed v out.1) ∧
        out.2.Relabels d out'.2)
      (run fuel text m) (run fuel text m') := by
  have anew := h.runAnew fuel text
  obtain ⟨cache, _, same⟩ := run_eq_runAnew h.faithful fuel text
  obtain ⟨cache', _, same'⟩ := run_eq_runAnew h.faithful' fuel text
  generalize Machine.runAnew fuel text m = out at anew same
  generalize Machine.runAnew fuel text m' = out' at anew same'
  cases anew with
  | none =>
    rw [same, same']
    exact .none
  | some alike =>
    have advances := advances_of_run h.faithful same
    have advances' := advances_of_run h.faithful' same'
    rw [same, same']
    refine .some ⟨alike.1.printed_eq h.plain, h.plain, ?_, alike.2, ?_, ?_, ?_, ?_, ?_, ?_⟩
    · rw [advances.rules, advances'.rules]
      exact h.rules
    · rw [advances'.vocabulary, advances.vocabulary, h.vocabulary]
    · rw [advances.global, advances'.global]
      exact h.global
    · rw [advances.global]
      exact Nat.lt_of_lt_of_le h.there advances.keeps.size_le
    · rw [advances'.heading_eq h.global_lt_size, advances.heading_eq h.there, h.heading]
    · exact advances.faithful
    · exact advances'.faithful

/-- The global scopes bind matching values to the same names. -/
theorem bound (h : m.Relabels d m') (n : Text) :
    Option.Rel (Matches d d.written) (m.commons.store.local? m.interpreter.global n)
      (m'.commons.store.local? m'.interpreter.global n) := by
  have bound := h.world.store.binding h.global n
  rwa [h.plain n] at bound

theorem globalNames_eq (h : m.Relabels d m') : m'.globalNames = m.globalNames := by
  obtain ⟨f, found⟩ := Store.frame?_isSome h.there
  obtain ⟨f', found'⟩ := Store.frame?_isSome h.global_lt_size
  have names : f'.bindings.names = f.bindings.names := by
    refine NameMap.names_eq_of_isSome fun n => ?_
    have bound := h.bound n
    rw [Store.local?, Store.local?, found, found', Option.bind_some, Option.bind_some] at bound
    generalize f.bindings.find? n = x at bound
    generalize f'.bindings.find? n = x' at bound
    cases bound <;> rfl
  rw [globalNames, globalNames, Store.names, Store.names, found, found']
  exact names

end Relabels

/-- What a machine shows after some texts, and the names in its global scope. -/
def showing (v : Vocabulary) (out : List Answer × Machine) :
    (List (Except Report (List (Except Report Text))) × Text) × List Text :=
  (impression v out, out.2.globalNames)

/-- Machines that are the same but for numbers show the same. -/
theorem Relabels.showing_eq (h : m.Relabels d m') (calls : List Call) (v : Vocabulary) :
    (Machine.answerAll calls m').map (showing v) = (Machine.answerAll calls m).map (showing v) := by
  have agrees := answerAll_rel (fun _ _ fuel text h => h.run fuel text) h calls
  generalize Machine.answerAll calls m = out at agrees
  generalize Machine.answerAll calls m' = out' at agrees
  cases agrees with
  | none => rfl
  | some agrees =>
    obtain ⟨printed, later⟩ := agrees
    have rendered := renderGlobal_eq_of_bindings later.plain later.vocabulary later.heading
      later.bound []
    simp only [Option.map_some, showing, impression, printed, rendered, later.globalNames_eq]

end Machine

/-! ## Pristine machines -/

namespace Machine

variable {m m' : Machine} {number number' : Text → Nat}

/-- The global scope is the newest one and binds the registered primitives and nothing else;
`number` says under which registration each of them is bound. -/
structure Pristine (number : Text → Nat) (m : Machine) : Prop where
  newest : m.interpreter.global + 1 = m.commons.store.size
  frame : m.commons.store.frame? m.interpreter.global =
    some { Store.globalFrame with
      bindings := m.interpreter.primitives.map fun n op => .builtin ⟨number n, n, op⟩ }

theorem pristine_clear (m : Machine) : m.clear.Pristine fun _ => m.commons.store.registrations := by
  have size : (m.commons.store.pushGlobal m.interpreter.primitives).size =
      m.commons.store.size + 1 := Store.size_push _ _
  constructor
  · show (m.commons.store.pushGlobal m.interpreter.primitives).size - 1 + 1 =
      (m.commons.store.pushGlobal m.interpreter.primitives).size
    rw [size, Nat.add_sub_cancel]
  · show (m.commons.store.pushGlobal m.interpreter.primitives).frame?
      ((m.commons.store.pushGlobal m.interpreter.primitives).size - 1) = _
    rw [size, Nat.add_sub_cancel]
    exact (Store.frame?_push _ _ _).trans (if_pos rfl)

namespace Pristine

theorem there (h : m.Pristine number) : m.interpreter.global < m.commons.store.size :=
  Nat.lt_of_lt_of_eq (Nat.lt_succ_self _) h.newest

/-- A function of the host is added under a registration of its own, in place of the primitive
that had its name. -/
theorem addFunction (h : m.Pristine number) (name : Text) (slot : Nat) :
    (m.addFunction name slot).Pristine
      (fun n => if n = name then m.commons.store.registrations else number n) := by
  constructor
  · exact h.newest.trans (Store.size_bind _ _ _ _).symm
  · have bound := m.commons.store.register.2.frame?_bind m.interpreter.global
      m.interpreter.global name (.builtin ⟨m.commons.store.registrations, name, .host slot⟩)
    refine bound.trans ?_
    rw [if_pos rfl]
    show (m.commons.store.frame? m.interpreter.global).map _ = _
    rw [h.frame, Option.map_some]
    refine congrArg (fun b => some { Store.globalFrame with bindings := b })
      (NameMap.ext_find? fun n => ?_)
    show _ = (NameMap.map _ (m.interpreter.primitives.insert name (.host slot))).find? n
    rw [NameMap.find?_insert, NameMap.find?_map, NameMap.find?_map, NameMap.find?_insert]
    by_cases same : n = name
    · subst same
      simp only [↓reduceIte, Option.map_some]
    · simp only [if_neg same]

theorem local?_global (h : m.Pristine number) (n : Text) :
    m.commons.store.local? m.interpreter.global n =
      (m.interpreter.primitives.find? n).map fun op => .builtin ⟨number n, n, op⟩ := by
  rw [Store.local?, h.frame, Option.bind_some, NameMap.find?_map]

theorem parent?_eq_none (h : m.Pristine number) {i : Nat} (onward : m.interpreter.global ≤ i) :
    m.commons.store.parent? i = none := by
  rcases Nat.eq_or_lt_of_le onward with rfl | later
  · rw [Store.parent?, h.frame]
    rfl
  · exact Store.parent?_eq_none_of_le (h.newest ▸ later)

/-- A name means the primitive that is registered under it, and nothing else. -/
theorem find?_eq (h : m.Pristine number) (n : Text) :
    m.find? n = (m.interpreter.primitives.find? n).map fun op => .builtin ⟨number n, n, op⟩ := by
  rw [find?, Store.lookup_eq _ h.there, h.local?_global, h.parent?_eq_none (Nat.le_refl _)]
  exact Option.or_none

end Pristine
end Machine

/-! ## Functions of the host -/

/-- The host has no way to see the numbers of scopes and registrations, which stand for
identities: given arguments that are the same but for numbers, its functions answer the same but
for numbers.  Builtins of its own that it did not get as arguments have the numbers they have. -/
def Host.Discreet (own : Builtin → Prop) (host : Host) : Prop :=
  ∀ d : Dictionary, d.Plain → d.written.OneToOne → (∀ b, own b → d.builtin b b) →
    ∀ slot name args args', MatchesAll d d.written args args' →
      Alike d d.written (Matches d d.written) (host slot name args) (host slot name args')

/-- The scopes from one on stand, in order, for the scopes from another one on. -/
def Pairing.onward (first first' : Nat) : Pairing :=
  fun i i' => ∃ k, i = first + k ∧ i' = first' + k

theorem Pairing.oneToOne_onward (first first' : Nat) : (onward first first').OneToOne := by
  rintro _ _ _ _ ⟨k, rfl, rfl⟩ ⟨l, rfl, rfl⟩
  omega

/-- Builtins that are registered under one name stand for each other, and those of the host's own
for themselves. -/
def Dictionary.registering (primitives : NameMap Primitive) (number number' : Text → Nat)
    (own : Builtin → Prop)
    (apart : ∀ n op, primitives.find? n = some op →
      ¬ own ⟨number n, n, op⟩ ∧ ¬ own ⟨number' n, n, op⟩)
    (σ : Pairing) : Dictionary where
  name n := n
  name_injective same := same
  builtin b b' := own b ∧ b' = b ∨
    ∃ n op, primitives.find? n = some op ∧ b = ⟨number n, n, op⟩ ∧ b' = ⟨number' n, n, op⟩
  builtin_name := by rintro b _ (⟨_, rfl⟩ | ⟨n, op, _, rfl, rfl⟩) <;> rfl
  builtin_op := by rintro b _ (⟨_, rfl⟩ | ⟨n, op, _, rfl, rfl⟩) <;> rfl
  builtin_unique := by
    rintro b _ c _ (⟨mine, rfl⟩ | ⟨n, op, found, rfl, rfl⟩)
      (⟨mine', rfl⟩ | ⟨n', op', found', rfl, rfl⟩)
    · rfl
    · obtain ⟨notHere, notThere⟩ := apart n' op' found'
      exact iff_of_false (fun same => notHere (same ▸ mine)) fun same => notThere (same ▸ mine)
    · obtain ⟨notHere, notThere⟩ := apart n op found
      exact iff_of_false (fun same => notHere (same ▸ mine')) fun same => notThere (same ▸ mine')
    · simp only [Builtin.mk.injEq]
      constructor <;> rintro ⟨_, rfl, rfl⟩ <;> exact ⟨rfl, rfl, rfl⟩
  written := σ

/-- What of an interpreter outlives clearing: what it was made with but for tracing, and the
registered primitives. -/
structure Charter where
  vocabulary : Vocabulary
  lexical : Bool
  eagerIf : Bool
  host : Host
  primitives : NameMap Primitive

/-- The charter of an interpreter. -/
def Interpreter.charter (i : Interpreter) : Charter :=
  ⟨i.vocabulary, i.lexical, i.eagerIf, i.host, i.primitives⟩

namespace Machine.Pristine

variable {m m' : Machine} {number number' : Text → Nat} {own : Builtin → Prop}

/-- The stores of pristine machines are the same from their global scopes on, but for numbers. -/
theorem relabels_store (h : m.Pristine number) (h' : m'.Pristine number')
    (primitives : m'.interpreter.primitives = m.interpreter.primitives)
    (apart : ∀ n op, m.interpreter.primitives.find? n = some op →
      ¬ own ⟨number n, n, op⟩ ∧ ¬ own ⟨number' n, n, op⟩) :
    m.commons.store.Relabels
      (.registering m.interpreter.primitives number number' own apart
        (.onward m.interpreter.global m'.interpreter.global)) m'.commons.store where
  unique := Pairing.oneToOne_onward _ _
  present := by
    rintro _ _ ⟨k, rfl, rfl⟩
    rw [← h.newest, ← h'.newest]
    omega
  fresh k := by
    refine ⟨1 + k, ?_, ?_⟩
    · rw [← h.newest, Nat.add_assoc]
    · rw [← h'.newest, Nat.add_assoc]
  parent := by
    rintro _ _ ⟨k, rfl, rfl⟩
    rw [h.parent?_eq_none (Nat.le_add_right _ k), h'.parent?_eq_none (Nat.le_add_right _ k)]
    exact .none
  binding := by
    rintro _ _ ⟨k, rfl, rfl⟩ n
    show Option.Rel _ _ (m'.commons.store.local? _ n)
    cases k with
    | zero =>
      rw [Nat.add_zero, Nat.add_zero, h.local?_global, h'.local?_global, primitives]
      cases found : m.interpreter.primitives.find? n with
      | none => exact .none
      | some op => exact .some (.builtin (.inr ⟨n, op, found, rfl, rfl⟩))
    | succ k =>
      have absent : m.commons.store.size ≤ m.interpreter.global + (k + 1) := by
        rw [← h.newest]
        omega
      have absent' : m'.commons.store.size ≤ m'.interpreter.global + (k + 1) := by
        rw [← h'.newest]
        omega
      rw [Store.local?_eq_none_of_le absent, Store.local?_eq_none_of_le absent']
      exact .none

/-- **Pristine machines cannot be told apart** if they have the same charter and will draw the
same random numbers. -/
theorem relabels (h : m.Pristine number) (h' : m'.Pristine number')
    (charter : m'.interpreter.charter = m.interpreter.charter)
    (generator : m'.interpreter.generator = m.interpreter.generator)
    (faithful : m.Faithful) (faithful' : m'.Faithful)
    (discreet : m.interpreter.host.Discreet own)
    (apart : ∀ n op, m.interpreter.primitives.find? n = some op →
      ¬ own ⟨number n, n, op⟩ ∧ ¬ own ⟨number' n, n, op⟩) :
    m.Relabels
      (.registering m.interpreter.primitives number number' own apart
        (.onward m.interpreter.global m'.interpreter.global)) m' where
  plain _ := rfl
  rules := {
    form := by
      intro n
      show m'.interpreter.charter.vocabulary.form? n = _
      rw [charter]
      rfl
    lexical := congrArg Charter.lexical charter
    eagerIf := congrArg Charter.eagerIf charter
    host := by
      intro b b' slot args args' same _ matching
      have hosts : m'.interpreter.rules.host = m.interpreter.host := congrArg Charter.host charter
      rw [hosts, Dictionary.builtin_name _ same]
      exact discreet _ (fun _ => rfl) (Pairing.oneToOne_onward _ _)
        (fun b mine => Or.inl ⟨mine, rfl⟩) slot b.name args args' matching }
  world := ⟨h.relabels_store h' (congrArg Charter.primitives charter) apart, generator⟩
  vocabulary := congrArg Charter.vocabulary charter
  global := ⟨0, rfl, rfl⟩
  there := h.there
  heading := by rw [heading, heading, h.frame, h'.frame, Option.map_some, Option.map_some]
  faithful := faithful
  faithful' := faithful'

end Machine.Pristine

/-! ## Histories -/

/-- What a host program can tell an interpreter to do. -/
inductive Instruction where
  | operation (op : Operation)
  | setTracing (on : Bool)

namespace Instruction

/-- The function that is added to the interpreter. -/
def function? : Instruction → Option (Text × Nat)
  | .operation (.addFunction name slot) => some (name, slot)
  | .operation _ | .setTracing _ => none

/-- The functions that are added in a history, in order. -/
def functions (history : List Instruction) : List (Text × Nat) := history.filterMap function?

end Instruction

/-- The primitives after functions of the host have been registered one after another. -/
def NameMap.addFunctions (functions : List (Text × Nat)) (primitives : NameMap Primitive) :
    NameMap Primitive :=
  functions.foldl (fun known f => known.insert f.1 (.host f.2)) primitives

namespace Machine

/-- Carries out one instruction; only running a text has an answer. -/
def carryOut : Instruction → Act (Option Answer)
  | .operation op => perform op
  | .setTracing on => fun m => some (none, m.setTracing on)

/-- Carries out instructions one after another. -/
def carryOutAll : List Instruction → Act (List (Option Answer))
  | [] => fun m => some ([], m)
  | i :: rest => fun m =>
    (carryOut i m).bind fun out =>
      (carryOutAll rest out.2).map fun outs => (out.1 :: outs.1, outs.2)

/-- Adds functions one after another. -/
def addFunctions (functions : List (Text × Nat)) (m : Machine) : Machine :=
  functions.foldl (fun m f => m.addFunction f.1 f.2) m

/-- The machine with other random numbers to come. -/
def drawing (g : Generator) (m : Machine) : Machine :=
  { m with interpreter := { m.interpreter with generator := g } }

variable {m n : Machine} {i : Instruction} {history : List Instruction}

theorem carryOutAll_cons (i : Instruction) (rest : List Instruction) (m : Machine) :
    carryOutAll (i :: rest) m =
      (carryOut i m).bind fun out =>
        (carryOutAll rest out.2).map fun outs => (out.1 :: outs.1, outs.2) := rfl

theorem exists_of_carryOutAll_cons {answers : List (Option Answer)}
    (ends : carryOutAll (i :: history) m = some (answers, n)) :
    ∃ answer m₁ others, carryOut i m = some (answer, m₁) ∧
      carryOutAll history m₁ = some (others, n) := by
  rw [carryOutAll_cons] at ends
  obtain ⟨⟨answer, m₁⟩, first, rest⟩ := Option.bind_eq_some_iff.1 ends
  obtain ⟨⟨others, n₁⟩, later, same⟩ := Option.map_eq_some_iff.1 rest
  obtain ⟨_, rfl⟩ := Prod.mk.inj same
  exact ⟨answer, m₁, others, first, later⟩

/-- A history that ends with clearing. -/
theorem exists_of_carryOutAll_clear {answers : List (Option Answer)}
    (ends : carryOutAll (history ++ [.operation .clear]) m = some (answers, n)) :
    ∃ before m₁, carryOutAll history m = some (before, m₁) ∧ n = m₁.clear := by
  induction history generalizing m answers with
  | nil =>
    obtain ⟨_, m₁, _, cleared, done⟩ := exists_of_carryOutAll_cons ends
    cases cleared
    cases done
    exact ⟨[], m, rfl, rfl⟩
  | cons i rest ih =>
    obtain ⟨answer, m₁, others, first, later⟩ := exists_of_carryOutAll_cons ends
    obtain ⟨before, m₂, ended, cleared⟩ := ih later
    refine ⟨answer :: before, m₂, ?_, cleared⟩
    rw [carryOutAll_cons, first, Option.bind_some, ended, Option.map_some]

/-- Whatever one is told to do, all that it leaves in the charter is the function that is added,
and the cache stays right. -/
theorem charter_carryOut (faithful : m.Faithful) {answer : Option Answer}
    (ends : carryOut i m = some (answer, n)) :
    n.interpreter.charter =
        { m.interpreter.charter with
          primitives := m.interpreter.primitives.addFunctions i.function?.toList } ∧
      n.Faithful := by
  cases i with
  | setTracing on =>
    cases ends
    exact ⟨rfl, faithful⟩
  | operation op =>
    refine ⟨?_, faithful.perform ends⟩
    cases op with
    | run fuel text =>
      obtain ⟨⟨answer₁, m₁⟩, ran, same⟩ := Option.map_eq_some_iff.1 ends
      cases same
      obtain ⟨generator, cache, same⟩ := (advances_of_run faithful ran).interpreter
      show m₁.interpreter.charter = _
      rw [same]
      rfl
    | clear | addGlobal | addFunction =>
      cases ends
      rfl

theorem charter_carryOutAll (faithful : m.Faithful) {answers : List (Option Answer)}
    (ends : carryOutAll history m = some (answers, n)) :
    n.interpreter.charter =
        { m.interpreter.charter with
          primitives := m.interpreter.primitives.addFunctions (Instruction.functions history) } ∧
      n.Faithful := by
  induction history generalizing m answers with
  | nil =>
    cases ends
    exact ⟨rfl, faithful⟩
  | cons i rest ih =>
    obtain ⟨answer, m₁, others, first, later⟩ := exists_of_carryOutAll_cons ends
    obtain ⟨step, faithful₁⟩ := charter_carryOut faithful first
    obtain ⟨charter, after⟩ := ih faithful₁ later
    refine ⟨?_, after⟩
    have known : m₁.interpreter.primitives =
        m.interpreter.primitives.addFunctions i.function?.toList :=
      congrArg Charter.primitives step
    rw [charter, step, known]
    cases added : i.function? <;>
      simp only [Instruction.functions, List.filterMap_cons, added] <;> rfl

theorem charter_addFunctions (functions : List (Text × Nat)) (m : Machine) :
    (m.addFunctions functions).interpreter.charter =
      { m.interpreter.charter with
        primitives := m.interpreter.primitives.addFunctions functions } := by
  induction functions generalizing m with
  | nil => rfl
  | cons f rest ih => exact ih (m.addFunction f.1 f.2)

theorem Faithful.addFunctions (faithful : m.Faithful) (functions : List (Text × Nat)) :
    (m.addFunctions functions).Faithful := by
  induction functions generalizing m with
  | nil => exact faithful
  | cons f rest ih => exact ih (m := m.addFunction f.1 f.2) faithful

theorem Pristine.addFunctions {number : Text → Nat} (h : m.Pristine number)
    (functions : List (Text × Nat)) : ∃ number', (m.addFunctions functions).Pristine number' := by
  induction functions generalizing m number with
  | nil => exact ⟨number, h⟩
  | cons f rest ih => exact ih (h.addFunction f.1 f.2)

/-- Pristine machines of one charter show the same, given the same random numbers to draw. -/
theorem Pristine.showing_eq {number number' : Text → Nat} (h : m.Pristine number)
    (h' : n.Pristine number') (charter : n.interpreter.charter = m.interpreter.charter)
    (faithful : m.Faithful) (faithful' : n.Faithful) {own : Builtin → Prop}
    (discreet : m.interpreter.host.Discreet own)
    (apart : ∀ b, own b → ∀ name, m.find? name ≠ some (.builtin b) ∧
      n.find? name ≠ some (.builtin b)) (g : Generator) (calls : List Call) (v : Vocabulary) :
    (answerAll calls (m.drawing g)).map (showing v) =
      (answerAll calls (n.drawing g)).map (showing v) := by
  have drawn : (m.drawing g).Pristine number := ⟨h.newest, h.frame⟩
  have drawn' : (n.drawing g).Pristine number' := ⟨h'.newest, h'.frame⟩
  have primitives : n.interpreter.primitives = m.interpreter.primitives :=
    congrArg Charter.primitives charter
  have notOwn : ∀ name op, m.interpreter.primitives.find? name = some op →
      ¬ own ⟨number name, name, op⟩ ∧ ¬ own ⟨number' name, name, op⟩ := by
    intro name op found
    have here : m.find? name = some (.builtin ⟨number name, name, op⟩) := by
      rw [h.find?_eq, found, Option.map_some]
    have there : n.find? name = some (.builtin ⟨number' name, name, op⟩) := by
      rw [h'.find?_eq, primitives, found, Option.map_some]
    exact ⟨fun mine => (apart _ mine name).1 here, fun mine => (apart _ mine name).2 there⟩
  have same := drawn.relabels drawn' charter rfl faithful faithful' discreet notOwn
  exact (same.showing_eq calls v).symm

end Machine

/-- **Clearing forgets the past.**  Take any history of operations and changes of tracing that
ends with clearing.  Its like is a new interpreter of the same settings, over any store, to which
only the functions of the history have been added, in the same order.  Given the same random
numbers to draw, the two answer all later texts with the same results in print, and the names in
their global scopes and what is bound to them look the same; one of them has no answer to the texts
just if the other has none.

The host does not look at numbers.  It may have builtins of its own, as long as they are none of
those that are bound in the two interpreters.

What was bound before, be it to the name of a builtin, is forgotten: a name means the function
that was last added under it, or else the builtin that the vocabulary calls so, or else nothing. -/
theorem clearing_forgets_the_past (settings : Settings) (c c' : Commons) {own : Builtin → Prop}
    (discreet : settings.host.Discreet own) {history : List Instruction}
    {answers : List (Option Answer)} {m : Machine}
    (ends : Machine.carryOutAll (history ++ [.operation .clear]) (Machine.create settings c) =
      some (answers, m)) :
    let functions := Instruction.functions history
    let fresh := (Machine.create settings c').addFunctions functions
    ((∀ b, own b → ∀ n, m.find? n ≠ some (.builtin b) ∧ fresh.find? n ≠ some (.builtin b)) →
      ∀ g calls v,
        (Machine.answerAll calls (m.drawing g)).map (Machine.showing v) =
          (Machine.answerAll calls (fresh.drawing g)).map (Machine.showing v)) ∧
    ∃ registration, ∀ n,
      m.find? n = ((settings.vocabulary.primitives.addFunctions functions).find? n).map
        fun op => .builtin ⟨registration, n, op⟩ := by
  intro functions fresh
  obtain ⟨before, m₁, ended, rfl⟩ := Machine.exists_of_carryOutAll_clear ends
  have created (c : Commons) : (Machine.create settings c).Faithful :=
    ParseCache.faithful_ofCapacity _ _
  obtain ⟨charter, faithful⟩ := Machine.charter_carryOutAll (created c) ended
  have pristine := m₁.pristine_clear
  have primitives : m₁.interpreter.primitives =
      settings.vocabulary.primitives.addFunctions functions := congrArg Charter.primitives charter
  have host : m₁.clear.interpreter.host = settings.host := congrArg Charter.host charter
  obtain ⟨number, pristine'⟩ :=
    Machine.Pristine.addFunctions (m := Machine.create settings c') (Machine.pristine_clear _)
      functions
  have charters : fresh.interpreter.charter = m₁.clear.interpreter.charter :=
    (Machine.charter_addFunctions functions _).trans charter.symm
  refine ⟨fun apart => ?_, m₁.commons.store.registrations, fun n => ?_⟩
  · exact pristine.showing_eq pristine' charters faithful ((created c').addFunctions functions)
      (host ▸ discreet) apart
  · rw [← primitives]
    exact pristine.find?_eq n

/-- The names of builtins are rebound, and so is that of a function of the host; a closure keeps the
scope in which that was done. -/
theorem rebound_names_are_restored :
    let settings := { Settings.standard .words with
      lexical := true, cacheCapacity := 0, host := fun _ _ args => .ok (.list args) }
    let history : List Instruction :=
      [.operation (.run 20 "(var car cdr) (var f (closure (x) (car x)))"),
        .operation (.addFunction "wrap" 0), .setTracing true,
        .operation (.run 20 "(f (wrap true false)) (var wrap f)"),
        .operation (.addGlobal "or" (.boolean true))]
    let calls : List Call := [⟨20, "(car (wrap true false))"⟩]
    settings.host.Discreet (fun _ => False) ∧ ∃ answers m,
      Machine.carryOutAll (history ++ [.operation .clear]) (Machine.create settings ∅) =
        some (answers, m) ∧
      ((Machine.answerAll calls m).map fun out => out.1.map (Answer.printed .words)) =
        some [.ok [.ok "true"]] ∧
      ∀ c g calls v,
        (Machine.answerAll calls (m.drawing g)).map (Machine.showing v) =
          (Machine.answerAll calls
            (((Machine.create settings c).addFunctions [("wrap", 0)]).drawing g)).map
            (Machine.showing v) := by
  intro settings history calls
  have discreet : settings.host.Discreet fun _ => False :=
    fun d _ _ _ slot name args args' matching => .value (.list matching)
  have heard : ((Machine.carryOutAll (history ++ [.operation .clear])
      (Machine.create settings ∅)).bind fun out =>
        (Machine.answerAll calls out.2).map fun out => out.1.map (Answer.printed .words)) =
      some [.ok [.ok "true"]] := by
    decide +kernel
  obtain ⟨⟨answers, m⟩, ends, heard⟩ := Option.bind_eq_some_iff.1 heard
  refine ⟨discreet, answers, m, ends, heard, fun c => ?_⟩
  exact (clearing_forgets_the_past settings ∅ c discreet ends).1 fun _ none => none.elim

end Argot
