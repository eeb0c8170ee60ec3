import Argot.Proofs.ScopeTree
import Argot.Proofs.Twins

set_option autoImplicit false

/-!
# Sessions keep the tree

A machine upholds a kind when its scopes are a tree under its global scope, everything
bound in them is of the kind, and so are the primitives that it would bind anew
(`Machine.Upholds`).  A new machine does, and every operation of a host program keeps it
that way; clearing starts a new tree.

One gets from scope to scope by the links to parents and by the closures that are bound
(`Store.ReachedFrom`).  All that can be reached from scopes of the tree is in the tree.
-/

namespace Argot

/-! ## Reachable scopes -/

namespace Store

/-- One gets to a scope from one of the scopes to start with, by links to parents and by
closures at any depth inside values that are bound.  A link counts wherever it points. -/
inductive ReachedFrom (s : Store) (starts : List Nat) : Nat → Prop where
  | start {i : Nat} (member : i ∈ starts) : ReachedFrom s starts i
  | parent {i p : Nat} {f : Frame} (reached : ReachedFrom s starts i)
      (found : s.frame? i = some f) (link : f.parent = some p) : ReachedFrom s starts p
  | home {i h : Nat} {name : Text} {x : Value} (reached : ReachedFrom s starts i)
      (bound : s.local? i name = some x) (member : h ∈ x.homes) : ReachedFrom s starts h

variable {k : Kind} {root : Nat} {s : Store}

/-- The links of the tree do not lead out of it. -/
theorem Tree.reached (tree : s.Tree k root) {starts : List Nat}
    (inside : ∀ i ∈ starts, root ≤ i ∧ i < s.size) {i : Nat} (reached : s.ReachedFrom starts i) :
    root ≤ i ∧ i < s.size := by
  induction reached with
  | start member => exact inside _ member
  | @parent i p f _ found link ih =>
    rcases Nat.eq_or_lt_of_le ih.1 with rfl | below
    · -- the root has no parent
      obtain ⟨g, there, orphan, _⟩ := tree.top
      obtain rfl := Option.some.inj (found.symm.trans there)
      rw [orphan] at link
      cases link
    · obtain ⟨_, q, link', above, older⟩ := tree.under i f below found
      obtain rfl := Option.some.inj (link.symm.trans link')
      exact ⟨above, Nat.lt_trans older ih.2⟩
  | home _ bound member ih => exact (tree.bound _ _ _ ih.1 bound).home member

end Store

/-! ## Machines -/

namespace Machine

variable {k : Kind} {m m' : Machine}

/-- The scopes of the machine are a tree of the kind under its global scope, and so is all
that it would bind anew. -/
structure Upholds (k : Kind) (m : Machine) : Prop where
  fits : k.Fits m.interpreter.rules
  primitives : ∀ registration name op, m.interpreter.primitives.find? name = some op →
    k.part (.builtin ⟨registration, name, op⟩)
  tree : m.commons.store.Tree k m.interpreter.global
  faithful : m.Faithful

/-- A machine that has been cleared has a new tree, whatever its scopes were before. -/
theorem upholds_clear (fits : k.Fits m.interpreter.rules)
    (primitives : ∀ registration name op, m.interpreter.primitives.find? name = some op →
      k.part (.builtin ⟨registration, name, op⟩)) (faithful : m.Faithful) :
    m.clear.Upholds k where
  fits := fits
  primitives := primitives
  tree := by
    have size : (m.commons.store.pushGlobal m.interpreter.primitives).size - 1 =
        m.commons.store.size := by
      rw [Store.pushGlobal, Store.size_push]
      rfl
    show (m.commons.store.pushGlobal m.interpreter.primitives).Tree k
      ((m.commons.store.pushGlobal m.interpreter.primitives).size - 1)
    rw [size]
    exact .pushGlobal m.interpreter.primitives primitives
  faithful := faithful

/-- A new machine upholds every kind that goes with its rules and allows the builtins of the
language. -/
theorem upholds_create (settings : Settings) (c : Commons)
    (fits : k.Fits (create settings c).interpreter.rules)
    (builtins : ∀ registration name op, (∀ slot, op ≠ .host slot) →
      k.part (.builtin ⟨registration, name, op⟩)) : (create settings c).Upholds k :=
  upholds_clear fits
    (fun registration name op found =>
      builtins registration name op (Vocabulary.primitives_ne_host found))
    (ParseCache.faithful_ofCapacity _ _)

theorem Upholds.addGlobal (upholds : m.Upholds k) (name : Text) {x : Value}
    (has : k.Has m.interpreter.global m.commons.store.size x) : (m.addGlobal name x).Upholds k where
  fits := upholds.fits
  primitives := upholds.primitives
  tree := upholds.tree.bind _ name has
  faithful := upholds.faithful

theorem Upholds.addFunction (upholds : m.Upholds k) (name : Text) (slot : Nat)
    (kind : ∀ registration, k.part (.builtin ⟨registration, name, .host slot⟩)) :
    (m.addFunction name slot).Upholds k where
  fits := upholds.fits
  primitives := by
    intro registration n op found
    change (m.interpreter.primitives.insert name (.host slot)).find? n = some op at found
    rw [NameMap.find?_insert] at found
    split at found
    · rename_i same
      cases found
      exact same ▸ kind registration
    · exact upholds.primitives registration n op found
  tree := by
    -- a registration counts up and touches no scope
    have registered : m.commons.store.register.2.Tree k m.interpreter.global :=
      ⟨upholds.tree.top, upholds.tree.under, upholds.tree.bound⟩
    refine registered.bind _ name (Value.each_builtin.2 ⟨kind _, ?_⟩)
    exact fun _ impossible => nomatch impossible
  faithful := upholds.faithful

/-- What an evaluation in the global scope of such a machine ends with. -/
theorem Upholds.eval (upholds : m.Upholds k) {x : Value}
    (written : x.Each fun y => y.isWritten = true) {fuel depth : Nat} {outcome : Outcome}
    {w : World} (ends : Argot.eval m.interpreter.rules fuel x m.interpreter.global depth m.world =
      some (outcome, w)) :
    (m.inWorld w).Upholds k ∧ m.commons.store.size ≤ w.store.size ∧
      Meets (k.Has m.interpreter.global w.store.size) k.failure outcome := by
  have evaluated := eval_upholds upholds.fits m.interpreter.global fuel m.commons.store.size
    (Nat.zero_le _) x m.interpreter.global depth (upholds.fits.has_of_written written)
    (Nat.le_refl _) upholds.tree.present
  obtain ⟨tree, grown, meets⟩ :=
    (evaluated m.world upholds.tree (Nat.le_refl _)).2 outcome w ends
  exact ⟨⟨upholds.fits, upholds.primitives, tree, upholds.faithful⟩, grown, meets⟩

/-- Program text is evaluated one form after another, and the scopes stay a tree. -/
theorem Upholds.evalAll (upholds : m.Upholds k) {xs : List Value}
    (written : ∀ x ∈ xs, x.Each fun y => y.isWritten = true) {fuel : Nat} {outcomes : List Outcome}
    (ends : evalAll fuel m.interpreter.global xs m = some (outcomes, m')) :
    m'.Upholds k ∧ m.commons.store.size ≤ m'.commons.store.size ∧
      ∀ outcome ∈ outcomes,
        Meets (k.Has m.interpreter.global m'.commons.store.size) k.failure outcome := by
  induction xs generalizing m outcomes with
  | nil =>
    cases ends
    exact ⟨upholds, Nat.le_refl _, fun _ member => absurd member List.not_mem_nil⟩
  | cons x xs ih =>
    obtain ⟨writtenHead, writtenTail⟩ := List.forall_mem_cons.1 written
    rw [evalAll_cons, eval_apply] at ends
    cases first : Argot.eval m.interpreter.rules fuel x m.interpreter.global 0 m.world with
    | none =>
      rw [first] at ends
      cases ends
    | some out =>
      obtain ⟨outcome, w⟩ := out
      rw [first] at ends
      obtain ⟨⟨later, m₂⟩, rest, same⟩ := Option.map_eq_some_iff.1 ends
      cases same
      obtain ⟨upholds₁, grown, meets⟩ := upholds.eval writtenHead first
      obtain ⟨upholds₂, grown₂, meetsLater⟩ := ih (m := m.inWorld w) upholds₁ writtenTail rest
      refine ⟨upholds₂, Nat.le_trans grown grown₂, List.forall_mem_cons.2 ⟨?_, meetsLater⟩⟩
      exact meets.mono (fun _ has => has.mono grown₂) fun _ failure => failure

/-- A text is run, and the scopes stay a tree under the same global scope. -/
theorem Upholds.run (upholds : m.Upholds k) {fuel : Nat} {text : Text} {answer : Answer}
    (ends : run fuel text m = some (answer, m')) :
    m'.Upholds k ∧ m'.interpreter.rules = m.interpreter.rules ∧
      ∀ outcomes, answer = .ok outcomes → ∀ outcome ∈ outcomes,
        Meets (k.Has m.interpreter.global m'.commons.store.size) k.failure outcome := by
  have faithful' := upholds.faithful.run ends
  obtain ⟨cache, _, same⟩ := run_eq_runAnew upholds.faithful fuel text
  rw [same] at ends
  obtain ⟨⟨answer₁, m₁⟩, anew, same⟩ := Option.map_eq_some_iff.1 ends
  cases same
  cases read : readText m.interpreter.vocabulary text with
  | error e =>
    rw [runAnew_of_error fuel read] at anew
    cases anew
    refine ⟨⟨upholds.fits, upholds.primitives, upholds.tree, faithful'⟩, rfl, ?_⟩
    intro outcomes impossible
    cases impossible
  | ok xs =>
    rw [runAnew_of_forms fuel read] at anew
    obtain ⟨⟨outcomes, m₂⟩, evaluated, same⟩ := Option.map_eq_some_iff.1 anew
    cases same
    obtain ⟨upholds₁, _, meets⟩ :=
      upholds.evalAll ((Value.textual_written _).forms read) evaluated
    have unchanged := interpreter_evalAll evaluated
    refine ⟨⟨upholds₁.fits, upholds₁.primitives, upholds₁.tree, faithful'⟩, ?_, ?_⟩
    · show m₂.interpreter.rules = m.interpreter.rules
      rw [unchanged]
      rfl
    · intro outcomes' same
      cases same
      exact meets

/-- Texts are run one after another. -/
theorem Upholds.answerAll (upholds : m.Upholds k) {calls : List Call} {answers : List Answer}
    (ends : answerAll calls m = some (answers, m')) :
    m'.Upholds k ∧ ∀ outcomes, .ok outcomes ∈ answers → ∀ outcome ∈ outcomes,
      Meets (Value.Each k.part) k.failure outcome := by
  induction calls generalizing m answers with
  | nil =>
    cases ends
    exact ⟨upholds, fun _ member => absurd member List.not_mem_nil⟩
  | cons call rest ih =>
    rw [answerAll_cons] at ends
    obtain ⟨⟨answer, m₁⟩, first, ends⟩ := Option.bind_eq_some_iff.1 ends
    obtain ⟨⟨later, m₂⟩, others, same⟩ := Option.map_eq_some_iff.1 ends
    cases same
    obtain ⟨upholds₁, _, meets⟩ := upholds.run first
    obtain ⟨upholds₂, meetsLater⟩ := ih upholds₁ others
    refine ⟨upholds₂, fun outcomes member outcome among => ?_⟩
    rcases List.mem_cons.1 member with here | later
    · exact (meets outcomes here.symm outcome among).mono (fun _ has => has.parts)
        fun _ failure => failure
    · exact meetsLater outcomes later outcome among

end Machine
end Argot
